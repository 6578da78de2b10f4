import Mathlib.Data.List.Induction
import Mathlib.Data.List.TakeWhile
import Sysml.Proofs.Document.Decompiled
import Sysml.Proofs.Notation.Tiling
import Sysml.Text.Blank
import Sysml.Text.Lines

/-!
# Documentation that is written and read back

What a comment says consists of trimmed lines and does not end a comment. As documentation of an
element it is written on a line that spells one comment, and is read back unchanged exactly if none
of its lines begins with a star (`docLine_reread`): the second reading takes that star for one of
the margin. Lines without blanks around them are cut apart as they were joined
(`splitLines_joinLines`), and trimmed at either end with the whole text (`trim_joinLines`).
-/

set_option autoImplicit false

namespace Sysml

namespace Text

/-! ## Blanks around a text -/

/-- No blank stands at either end. -/
structure IsTrimmed (text : List Char) : Prop where
  head : ∀ c ∈ text.head?, isBlank c = false
  last : ∀ c ∈ text.getLast?, isBlank c = false

variable {text before after : List Char}

theorem dropWhile_eq_self {p : Char → Bool} (head : ∀ c ∈ text.head?, p c = false) :
    text.dropWhile p = text := by
  cases text with
  | nil => rfl
  | cons c tail => exact List.dropWhile_cons_of_neg (by simp [head c rfl])

theorem trimLeft_eq_self (head : ∀ c ∈ text.head?, isBlank c = false) : trimLeft text = text :=
  dropWhile_eq_self head

theorem trimRight_eq_self (last : ∀ c ∈ text.getLast?, isBlank c = false) :
    trimRight text = text := by
  have head : ∀ c ∈ text.reverse.head?, isBlank c = false := by rwa [List.head?_reverse]
  rw [trimRight, dropWhile_eq_self head, List.reverse_reverse]

theorem IsTrimmed.trim (trimmed : IsTrimmed text) : Text.trim text = text := by
  rw [Text.trim, trimLeft_eq_self trimmed.head, trimRight_eq_self trimmed.last]

theorem trimLeft_suffix (text : List Char) : trimLeft text <:+ text :=
  List.dropWhile_suffix _

theorem trimRight_front (text : List Char) : trimRight text <+: text := by
  rw [← List.reverse_suffix, trimRight, List.reverse_reverse]
  exact List.dropWhile_suffix _

theorem trim_inside (text : List Char) : trim text <:+: text :=
  (trimRight_front _).isInfix.trans (trimLeft_suffix text).isInfix

theorem trim_length_le (text : List Char) : (trim text).length ≤ text.length :=
  (trim_inside text).length_le

theorem trim_isTrimmed (text : List Char) : IsTrimmed (trim text) := by
  constructor
  · intro c member
    -- What is left at the right begins as what is left at the left did.
    obtain ⟨rest, whole⟩ := trimRight_front (trimLeft text)
    obtain ⟨tail, isTrim⟩ := List.head?_eq_some_iff.mp member
    refine @head_dropWhile isBlank text c ?_
    change c ∈ (trimLeft text).head?
    rw [← whole, show trimRight (trimLeft text) = c :: tail from isTrim]
    rfl
  · intro c member
    refine @head_dropWhile isBlank (trimLeft text).reverse c ?_
    rwa [trim, trimRight, List.getLast?_reverse] at member

theorem trimRight_append_blanks (blanks : ∀ c ∈ after, isBlank c = true) :
    trimRight (text ++ after) = trimRight text := by
  rw [trimRight, trimRight, List.reverse_append, List.dropWhile_append_of_pos]
  exact fun c member => blanks c (List.mem_reverse.mp member)

/-- Blanks around a text count for nothing. -/
theorem trim_append_blanks (blanksBefore : ∀ c ∈ before, isBlank c = true)
    (blanksAfter : ∀ c ∈ after, isBlank c = true) : trim (before ++ text ++ after) = trim text := by
  rw [trim, trim, trimLeft, List.append_assoc, List.dropWhile_append_of_pos blanksBefore,
    List.dropWhile_append]
  split
  · next none_ =>
    have gone : trimLeft text = [] := List.isEmpty_iff.mp none_
    have goneAfter : after.dropWhile isBlank = [] := List.dropWhile_eq_nil_iff.mpr blanksAfter
    rw [gone, goneAfter]
  · exact trimRight_append_blanks blanksAfter

/-! ## Lines that are joined -/

def joinLines (lines : List (List Char)) : List Char :=
  ['\n'].intercalate lines

theorem joinLines_cons_cons (line second : List Char) (rest : List (List Char)) :
    joinLines (line :: second :: rest) = line ++ '\n' :: joinLines (second :: rest) := by
  rw [joinLines, List.intercalate_cons_cons, List.append_assoc]
  rfl

theorem joinLines_concat {lines : List (List Char)} (some_ : lines ≠ []) (line : List Char) :
    joinLines (lines ++ [line]) = joinLines lines ++ '\n' :: line := by
  induction lines with
  | nil => exact absurd rfl some_
  | cons first rest ih =>
    cases rest with
    | nil => simp [joinLines]
    | cons second rest =>
      have inner := ih (List.cons_ne_nil _ _)
      rw [List.cons_append] at inner
      rw [List.cons_append, List.cons_append, joinLines_cons_cons, inner, joinLines_cons_cons,
        List.append_assoc, List.cons_append]

/-- Blanks before trimmed lines are lines of their own. -/
theorem trimLeft_joinLines {lines : List (List Char)} (each : ∀ line ∈ lines, IsTrimmed line) :
    ∃ kept, kept <:+ lines ∧ trimLeft (joinLines lines) = joinLines kept := by
  induction lines with
  | nil => exact ⟨[], List.suffix_refl _, rfl⟩
  | cons line rest ih =>
    obtain ⟨trimmed, others⟩ := List.forall_mem_cons.mp each
    cases line with
    | cons c tail =>
      refine ⟨_, List.suffix_refl _, trimLeft_eq_self ?_⟩
      have head : (joinLines ((c :: tail) :: rest)).head? = some c := by
        cases rest with
        | nil => simp [joinLines]
        | cons second rest => rw [joinLines_cons_cons]; rfl
      rw [head]
      exact trimmed.head
    | nil =>
      cases rest with
      | nil => exact ⟨_, List.suffix_refl _, rfl⟩
      | cons second rest =>
        obtain ⟨kept, isSuffix, same⟩ := ih others
        refine ⟨kept, isSuffix.trans (List.suffix_cons _ _), ?_⟩
        rw [joinLines_cons_cons, ← same]
        rfl

/-- Blanks behind trimmed lines are lines of their own. -/
theorem trimRight_joinLines {lines : List (List Char)} (each : ∀ line ∈ lines, IsTrimmed line) :
    ∃ kept, kept <+: lines ∧ trimRight (joinLines lines) = joinLines kept := by
  induction lines using List.reverseRecOn with
  | nil => exact ⟨[], List.prefix_refl _, rfl⟩
  | append_singleton rest line ih =>
    have trimmed := each line (by simp)
    have others : ∀ line ∈ rest, IsTrimmed line := fun other member => each other (by simp [member])
    obtain ⟨kept, isPrefix, same⟩ := ih others
    rcases List.eq_nil_or_concat line with rfl | ⟨front, c, isLine⟩
    · refine ⟨kept, isPrefix.trans (List.prefix_append _ _), ?_⟩
      cases rest with
      | nil => exact same
      | cons first rest =>
        rw [joinLines_concat (List.cons_ne_nil _ _),
          trimRight_append_blanks (List.forall_mem_singleton.mpr (by decide)), same]
    · rw [List.concat_eq_append] at isLine
      subst isLine
      refine ⟨_, List.prefix_refl _, trimRight_eq_self ?_⟩
      have last : (joinLines (rest ++ [front ++ [c]])).getLast? = some c := by
        cases rest with
        | nil => simp [joinLines]
        | cons first rest =>
          rw [joinLines_concat (List.cons_ne_nil _ _), ← List.cons_append, ← List.append_assoc,
            List.getLast?_concat]
      rw [last]
      simpa using trimmed.last

/-- Trimmed lines are still lines once blanks around all of them are taken away. -/
theorem trim_joinLines {lines : List (List Char)} (each : ∀ line ∈ lines, IsTrimmed line) :
    ∃ kept, kept.Sublist lines ∧ trim (joinLines lines) = joinLines kept := by
  obtain ⟨right, isSuffix, left⟩ := trimLeft_joinLines each
  obtain ⟨kept, isPrefix, same⟩ := trimRight_joinLines fun line member =>
    each line (isSuffix.subset member)
  exact ⟨kept, isPrefix.sublist.trans isSuffix.sublist, by rw [trim, left, same]⟩

/-! ## Texts that are cut into lines -/

/-- No line ends inside of the text. -/
def OnLine (text : List Char) : Prop :=
  ∀ c ∈ text, isLineEnd c = false

theorem linesFrom_append {line : List Char} (onLine : OnLine line) (before rest : List Char) :
    linesFrom before (line ++ rest) = linesFrom (line.reverse ++ before) rest := by
  induction line generalizing before with
  | nil => rfl
  | cons c tail ih =>
    obtain ⟨goesOn, further⟩ := List.forall_mem_cons.mp onLine
    have noReturn : c ≠ '\r' := by
      rintro rfl
      exact absurd goesOn (by decide)
    rw [List.cons_append, linesFrom, if_neg (by simp [goesOn]), ih further, List.reverse_cons,
      List.append_assoc]
    · rfl
    · rintro _ rfl _
      exact noReturn rfl

theorem linesFrom_feed (before rest : List Char) :
    linesFrom before ('\n' :: rest) = before.reverse :: linesFrom [] rest := by
  rw [linesFrom, if_pos (by decide)]
  simp

theorem linesFrom_onLine {line : List Char} (onLine : OnLine line) {before : List Char}
    (filled : before.reverse ++ line ≠ []) : linesFrom before line = [before.reverse ++ line] := by
  have passed := linesFrom_append onLine before []
  rw [List.append_nil] at passed
  rw [passed, linesFrom, if_neg (by simpa [and_comm] using filled), List.reverse_append,
    List.reverse_reverse]

/-- The lines of a text are parts of it, and none has a line end inside. -/
theorem mem_linesFrom {before text line : List Char} (onLine : OnLine before)
    (member : line ∈ linesFrom before text) : OnLine line ∧ line <:+: before.reverse ++ text := by
  fun_induction linesFrom before text with
  | case1 => cases member
  | case2 before =>
    cases List.mem_singleton.mp member
    exact ⟨fun c inside => onLine c (List.mem_reverse.mp inside), by simp⟩
  | case3 before rest ih =>
    rcases List.mem_cons.mp member with rfl | member
    · exact ⟨fun c inside => onLine c (List.mem_reverse.mp inside),
        (List.prefix_append _ _).isInfix⟩
    · obtain ⟨clean, inside⟩ := ih (fun _ none_ => (by cases none_)) member
      exact ⟨clean, inside.trans ⟨before.reverse ++ ['\r', '\n'], [], by simp⟩⟩
  | case4 before c rest _ ends ih =>
    rcases List.mem_cons.mp member with rfl | member
    · exact ⟨fun c inside => onLine c (List.mem_reverse.mp inside),
        (List.prefix_append _ _).isInfix⟩
    · obtain ⟨clean, inside⟩ := ih (fun _ none_ => (by cases none_)) member
      exact ⟨clean, inside.trans ⟨before.reverse ++ [c], [], by simp⟩⟩
  | case5 before c rest _ goesOn ih =>
    have further : OnLine (c :: before) :=
      List.forall_mem_cons.mpr ⟨by simpa using goesOn, onLine⟩
    obtain ⟨clean, inside⟩ := ih further member
    exact ⟨clean, by simpa using inside⟩

theorem mem_splitLines {text line : List Char} (member : line ∈ splitLines text) :
    OnLine line ∧ line <:+: text :=
  mem_linesFrom (fun _ none_ => (by cases none_)) member

/-- Lines that are joined are cut apart again. What stands before the first and behind the last
counts to them. -/
theorem map_linesFrom_joinLines {β : Type} (view : List Char → β) {before after line : List Char}
    {rest : List (List Char)} (onLine : ∀ each ∈ line :: rest, OnLine each)
    (onAfter : OnLine after) (ends : (line :: rest).getLast? ≠ some [])
    (padBefore : ∀ each, view (before.reverse ++ each) = view each)
    (padAfter : ∀ each, view (each ++ after) = view each) :
    (linesFrom before (joinLines (line :: rest) ++ after)).map view = (line :: rest).map view := by
  induction rest generalizing before line with
  | nil =>
    have filled : line ≠ [] := by simpa using ends
    have alone : OnLine (line ++ after) :=
      List.forall_mem_append.mpr ⟨onLine line List.mem_cons_self, onAfter⟩
    rw [show joinLines [line] = line from by simp [joinLines],
      linesFrom_onLine alone (by simp [filled]), List.map_singleton, padBefore, padAfter, List.map_singleton]
  | cons second rest ih =>
    obtain ⟨first, others⟩ := List.forall_mem_cons.mp onLine
    have inner := @ih [] second others (by simpa using ends) fun _ => rfl
    rw [joinLines_cons_cons, List.append_assoc, List.cons_append, linesFrom_append first,
      linesFrom_feed, List.map_cons, inner, List.reverse_append, List.reverse_reverse, padBefore]
    rfl

/-- A text that is put together from lines is cut into them, if the last line is not empty. -/
theorem splitLines_joinLines {lines : List (List Char)} (onLine : ∀ line ∈ lines, OnLine line)
    (ends : lines.getLast? ≠ some []) : splitLines (joinLines lines) = lines := by
  cases lines with
  | nil => rfl
  | cons line rest =>
    have cut := @map_linesFrom_joinLines _ id [] [] line rest onLine
      (fun _ none_ => (by cases none_)) ends (fun _ => rfl) List.append_nil
    rwa [List.append_nil, List.map_id, List.map_id] at cut

/-- Trimmed lines that are joined and trimmed are cut into some of these lines. -/
theorem splitLines_trim_joinLines {lines : List (List Char)}
    (each : ∀ line ∈ lines, IsTrimmed line ∧ OnLine line) :
    (splitLines (trim (joinLines lines))).Sublist lines ∧
      joinLines (splitLines (trim (joinLines lines))) = trim (joinLines lines) ∧
      (splitLines (trim (joinLines lines))).getLast? ≠ some [] := by
  obtain ⟨kept, among, same⟩ := trim_joinLines fun line member => (each line member).1
  have onLine : ∀ line ∈ kept, OnLine line := fun line member => (each line (among.subset member)).2
  have settled {kept : List (List Char)} (among : kept.Sublist lines)
      (same : trim (joinLines lines) = joinLines kept) (onLine : ∀ line ∈ kept, OnLine line)
      (ends : kept.getLast? ≠ some []) :
      (splitLines (trim (joinLines lines))).Sublist lines ∧
        joinLines (splitLines (trim (joinLines lines))) = trim (joinLines lines) ∧
        (splitLines (trim (joinLines lines))).getLast? ≠ some [] := by
    rw [same, splitLines_joinLines onLine ends]
    exact ⟨among, rfl, ends⟩
  by_cases ends : kept.getLast? = some []
  · obtain ⟨front, rfl⟩ := List.getLast?_eq_some_iff.mp ends
    cases front with
    | nil => exact settled (List.nil_sublist _) same (fun _ none_ => (by cases none_)) (by simp)
    | cons first front =>
      -- The trimmed text would end in a line feed.
      have feed := (trim_isTrimmed (joinLines lines)).last '\n'
      rw [same, joinLines_concat (List.cons_ne_nil _ _), List.getLast?_concat] at feed
      exact absurd (feed rfl) (by decide)
  · exact settled among same onLine ends

end Text

namespace Notation

/-! ## Texts without the end of a comment -/

theorem Closes.of_inside {text whole : List Char} (closes : Closes text) (inside : text <:+: whole) :
    Closes whole := by
  obtain ⟨before, after, rfl⟩ := closes
  obtain ⟨front, back, rfl⟩ := inside
  exact ⟨front ++ before, after ++ back, by simp⟩

/-- The end of a comment is on one line. -/
theorem Closes.of_line {line rest : List Char} (closes : Closes (line ++ '\n' :: rest)) :
    Closes line ∨ Closes rest := by
  obtain ⟨before, after, same⟩ := closes
  rcases List.append_eq_append_iff.mp same with ⟨inside, rfl, isRest⟩ | ⟨inside, rfl, isEnd⟩
  · rcases inside with _ | ⟨c, inside⟩
    · cases isRest
    · obtain ⟨-, isRest⟩ := List.cons.inj isRest
      exact .inr ⟨inside, after, isRest⟩
  · rcases inside with _ | ⟨c, _ | ⟨d, inside⟩⟩
    · cases isEnd
    · cases isEnd
    · obtain ⟨rfl, further⟩ : '*' = c ∧ _ := List.cons.inj isEnd
      obtain ⟨rfl, -⟩ : '/' = d ∧ _ := List.cons.inj further
      exact .inl ⟨before, inside, rfl⟩

theorem closes_joinLines {lines : List (List Char)} (closes : Closes (Text.joinLines lines)) :
    ∃ line ∈ lines, Closes line := by
  induction lines with
  | nil =>
    obtain ⟨before, after, same⟩ := closes
    exact absurd same (by simp [Text.joinLines])
  | cons line rest ih =>
    cases rest with
    | nil => exact ⟨line, List.mem_cons_self, by simpa [Text.joinLines] using closes⟩
    | cons second rest =>
      rw [Text.joinLines_cons_cons] at closes
      rcases closes.of_line with first | later
      · exact ⟨line, List.mem_cons_self, first⟩
      · obtain ⟨found, member, inside⟩ := ih later
        exact ⟨found, List.mem_cons_of_mem _ member, inside⟩

/-- A comment is ended by the first end in it. -/
theorem commentEnd?_closes {text taken rest : List Char}
    (found : commentEnd? text = some (taken, rest)) :
    ∃ body, taken = body ++ ['*', '/'] ∧ ¬ Closes body := by
  fun_induction commentEnd? text generalizing taken rest with
  | case1 => cases found
  | case2 =>
    cases found
    refine ⟨[], rfl, ?_⟩
    rintro ⟨before, after, same⟩
    simp at same
  | case3 c tail apart ih =>
    simp only [Option.map_eq_some_iff, Prod.exists] at found
    obtain ⟨inner, after, ended, same⟩ := found
    cases same
    obtain ⟨body, rfl, open_⟩ := ih ended
    refine ⟨c :: body, rfl, ?_⟩
    rintro ⟨front, back, closes⟩
    cases front with
    | nil =>
      obtain ⟨rfl, rfl⟩ := List.cons.inj closes
      have tailCut := commentEnd?_append ended
      exact apart _ rfl tailCut.symm
    | cons d front =>
      obtain ⟨-, rfl⟩ := List.cons.inj closes
      exact open_ ⟨front, back, rfl⟩

/-- The token is no comment, or a comment that ends at the first end in it. -/
def Token.EndsOnce (token : Token) : Prop :=
  token.kind = .comment →
    ∃ body, token.text.toList = '/' :: '*' :: (body ++ ['*', '/']) ∧ ¬ Closes body

theorem comment?_endsOnce {text : List Char} {found : Lexeme} (taken : comment? text = some found)
    (isComment : found.kind = .token .comment) :
    ∃ body, found.taken = '/' :: '*' :: (body ++ ['*', '/']) ∧ ¬ Closes body := by
  unfold comment? at taken
  split at taken
  · cases taken
    cases isComment
  · split at taken
    · next ended =>
      cases taken
      obtain ⟨body, rfl, open_⟩ := commentEnd?_closes ended
      exact ⟨body, rfl, open_⟩
    · cases taken
      cases isComment
  · cases taken

theorem quoted?_kind {quote : Char} {kind : TokenKind} {text : List Char} {found : Lexeme}
    (taken : quoted? quote kind text = some found) : found.kind = .token kind := by
  unfold quoted? at taken
  split at taken
  · split at taken
    · obtain ⟨_, _, rfl⟩ := Option.map_eq_some_iff.mp taken
      rfl
    · cases taken
  · cases taken

theorem number?_kind {text : List Char} {found : Lexeme} (taken : number? text = some found) :
    found.kind = .token .number := by
  obtain ⟨_, _, rfl⟩ := Option.map_eq_some_iff.mp taken
  rfl

theorem word?_kind {text : List Char} {found : Lexeme} (taken : word? text = some found) :
    found.kind = .token .word := by
  unfold word? at taken
  split at taken
  · split at taken
    · cases taken
      rfl
    · cases taken
  · cases taken

theorem lexeme_comment {c : Char} {rest : List Char}
    (isComment : (lexeme c rest).kind = .token .comment) :
    ∃ body, (lexeme c rest).taken = '/' :: '*' :: (body ++ ['*', '/']) ∧ ¬ Closes body := by
  generalize isFound : lexeme c rest = found at *
  unfold lexeme at isFound
  simp only at isFound
  split at isFound
  · cases isFound
    cases isComment
  · split at isFound
    · next chosen =>
      cases isFound
      simp only [Option.orElse_eq_orElse, Option.orElse_eq_or, Option.or_eq_some_iff] at chosen
      rcases chosen with h | ⟨-, h | ⟨-, h | ⟨-, h | ⟨-, h⟩⟩⟩⟩
      · exact comment?_endsOnce h isComment
      · cases (quoted?_kind h).symm.trans isComment
      · cases (quoted?_kind h).symm.trans isComment
      · cases (number?_kind h).symm.trans isComment
      · cases (word?_kind h).symm.trans isComment
    · split at isFound <;> (cases isFound; cases isComment)

theorem scanFrom_endsOnce (place : Position) (text : List Char) :
    ∀ token, .token token ∈ scanFrom place text → token.EndsOnce := by
  fun_induction scanFrom place text with
  | case1 => exact fun _ none_ => (by cases none_)
  | case2 place c tail found next skipped ih => exact ih
  | case3 place c tail found next span kind isToken ih =>
    intro token member
    rcases List.mem_cons.mp member with same | member
    · cases same
      rintro rfl
      obtain ⟨body, taken, open_⟩ := lexeme_comment isToken
      exact ⟨body, by rw [← taken]; exact String.toList_ofList, open_⟩
    · exact ih token member
  | case4 => intro token member; cases List.mem_singleton.mp member
  | case5 place c tail found next span stray ih =>
    intro token member
    rcases List.mem_cons.mp member with same | member
    · cases same
    · exact ih token member

theorem scan_endsOnce {text : String} {token : Token} (scanned : token ∈ (scan text).tokens) :
    token.EndsOnce := by
  obtain ⟨found, member, isToken⟩ := List.mem_filterMap.mp scanned
  cases found with
  | token other =>
    cases isToken
    exact scanFrom_endsOnce _ _ _ member
  | stray => cases isToken
  | openComment => cases isToken

/-! ## What a comment says -/

theorem commentBody_delimited (body : List Char) :
    commentBody ('/' :: '*' :: (body ++ ['*', '/'])) = body := by
  have ends : ['*', '/'].isSuffixOf ('/' :: '*' :: (body ++ ['*', '/'])) = true :=
    List.isSuffixOf_iff_suffix.mpr ⟨'/' :: '*' :: body, by simp⟩
  simp [commentBody, ends]

/-- A line is cleaned of blanks, and of a star in front of it. -/
theorem cleanLine_inside (line : List Char) : cleanLine line <:+: line := by
  unfold cleanLine
  split
  · next rest starred =>
    have inside := Text.trim_inside line
    rw [starred] at inside
    exact (Text.trim_inside rest).trans ((List.suffix_cons _ _).isInfix.trans inside)
  · exact Text.trim_inside line

theorem cleanLine_isTrimmed (line : List Char) : Text.IsTrimmed (cleanLine line) := by
  unfold cleanLine
  split <;> exact Text.trim_isTrimmed _

theorem cleanLine_padded {before after : List Char} (blanksBefore : ∀ c ∈ before, Text.isBlank c = true)
    (blanksAfter : ∀ c ∈ after, Text.isBlank c = true) (line : List Char) :
    cleanLine (before ++ line ++ after) = cleanLine line := by
  rw [cleanLine, Text.trim_append_blanks blanksBefore blanksAfter]
  rfl

/-- A trimmed line that a star opens loses it. -/
theorem cleanLine_eq_self {line : List Char} (trimmed : Text.IsTrimmed line) :
    cleanLine line = line ↔ line.head? ≠ some '*' := by
  rw [cleanLine, trimmed.trim]
  split
  · next rest =>
    have shorter := Text.trim_length_le rest
    refine iff_of_false (fun same => ?_) (by simp)
    rw [same, List.length_cons] at shorter
    omega
  · next unstarred =>
    refine iff_of_true rfl fun starred => ?_
    obtain ⟨rest, rfl⟩ := List.head?_eq_some_iff.mp starred
    exact unstarred rest rfl

theorem cleanLines_trimmed (body : List Char) :
    ∀ line ∈ (Text.splitLines body).map cleanLine, Text.IsTrimmed line ∧ Text.OnLine line := by
  intro line member
  obtain ⟨found, isLine, rfl⟩ := List.mem_map.mp member
  exact ⟨cleanLine_isTrimmed found, fun c inside =>
    (Text.mem_splitLines isLine).1 c ((cleanLine_inside found).subset inside)⟩

/-- What can be said by a comment: trimmed lines, the last of them not empty, without the end of a
comment. -/
structure IsSaid (said : List Char) : Prop where
  lines : Text.joinLines (Text.splitLines said) = said
  last : (Text.splitLines said).getLast? ≠ some []
  trimmed : ∀ line ∈ Text.splitLines said, Text.IsTrimmed line
  whole : Text.IsTrimmed said
  staysOpen : ¬ Closes said

theorem cleanComment_isSaid {raw body : List Char} (isBody : commentBody raw = body)
    (open_ : ¬ Closes body) : IsSaid (cleanComment raw) := by
  have each := cleanLines_trimmed body
  have said : cleanComment raw = Text.trim (Text.joinLines ((Text.splitLines body).map cleanLine)) := by
    rw [cleanComment, isBody]
    rfl
  obtain ⟨among, lines, last⟩ := Text.splitLines_trim_joinLines each
  rw [said]
  refine ⟨lines, last, fun line member => (each line (among.subset member)).1,
    Text.trim_isTrimmed _, fun closes => ?_⟩
  obtain ⟨line, member, inside⟩ := closes_joinLines (closes.of_inside (Text.trim_inside _))
  obtain ⟨found, isLine, rfl⟩ := List.mem_map.mp member
  exact open_ (inside.of_inside ((cleanLine_inside found).trans (Text.mem_splitLines isLine).2))

/-- What can be said is said by a comment with blanks around it, up to stars in front of lines. -/
theorem docSaid_isSaid {said : List Char} (isSaid : IsSaid said) (some_ : said ≠ []) :
    (docSaid (String.ofList said)).toList =
      Text.trim (Text.joinLines ((Text.splitLines said).map cleanLine)) := by
  have isComment : (commentText (String.ofList said)).toList =
      '/' :: '*' :: ((' ' :: said ++ [' ']) ++ ['*', '/']) := by
    simp [commentText, String.toList_append]
  have blank : ∀ c ∈ [' '], Text.isBlank c = true := List.forall_mem_singleton.mpr (by decide)
  have none_ : ∀ c ∈ ([] : List Char), Text.isBlank c = true := fun _ member => by cases member
  have cut : (Text.splitLines (' ' :: said ++ [' '])).map cleanLine =
      (Text.splitLines said).map cleanLine := by
    obtain ⟨line, rest, isLines⟩ : ∃ line rest, Text.splitLines said = line :: rest := by
      refine List.exists_cons_of_ne_nil fun noLines => some_ ?_
      rw [← isSaid.lines, noLines]
      rfl
    have onLine : ∀ each ∈ line :: rest, Text.OnLine each := fun each member =>
      (Text.mem_splitLines (isLines ▸ member)).1
    have last := isSaid.last
    rw [isLines] at last
    have joined := @Text.map_linesFrom_joinLines _ cleanLine [' '] [' '] line rest onLine
      (show Text.OnLine [' '] from List.forall_mem_singleton.mpr (by decide)) last
      (fun each => by simpa using cleanLine_padded blank none_ each)
      (fun each => by simpa using cleanLine_padded none_ blank each)
    rw [← isLines, isSaid.lines] at joined
    rw [← joined, Text.splitLines, List.cons_append, Text.linesFrom, if_neg (by decide)]
    simp
  rw [docSaid, String.toList_ofList, isComment, cleanComment, commentBody_delimited, cut]
  rfl

/-- A comment that says it says it again if no line begins with a star. -/
theorem docSaid_eq_self {said : List Char} (isSaid : IsSaid said) (some_ : said ≠ []) :
    docSaid (String.ofList said) = String.ofList said ↔
      ∀ line ∈ Text.splitLines said, line.head? ≠ some '*' := by
  have again := docSaid_isSaid isSaid some_
  rw [← String.toList_inj, String.toList_ofList, again]
  constructor
  · intro same line member
    refine (cleanLine_eq_self (isSaid.trimmed line member)).mp ?_
    -- As many lines come back, so none was dropped, and each is the cleaned one.
    obtain ⟨among, -, -⟩ := Text.splitLines_trim_joinLines (cleanLines_trimmed said)
    rw [same] at among
    have kept := among.eq_of_length (List.length_map _).symm
    exact List.map_inj_left.mp (kept.symm.trans (List.map_id _).symm) line member
  · intro unstarred
    have kept : (Text.splitLines said).map cleanLine = Text.splitLines said := by
      refine (List.map_congr_left fun line member => ?_).trans (List.map_id _)
      exact (cleanLine_eq_self (isSaid.trimmed line member)).mpr (unstarred line member)
    rw [kept, isSaid.lines, isSaid.whole.trim]

end Notation

/-! ## Documentation of an element -/

namespace Document

open Notation

theorem guardComment_eq_self {text : List Char} (open_ : ¬ Closes text) : guardComment text = text := by
  fun_induction guardComment text with
  | case1 => rfl
  | case2 rest => exact absurd ⟨[], rest, rfl⟩ open_
  | case3 c rest _ ih =>
    rw [ih fun closes => open_ (closes.of_inside (List.suffix_cons c rest).isInfix)]

variable {document : Document} {record : Record}

/-- The documentation of an element is on the line below its header. -/
theorem elementLines_doc {bound depth : Nat} {lines : List String} {said : String}
    (named : record.name.isAbsent = false)
    (known : (keyword? (SymbolKind.ofMetaclass record.kind)).isSome = true)
    (isDoc : record.doc = .text said) (some_ : said ≠ "")
    (emitted : document.elementLines (bound + 1) depth record = .ok lines) :
    lines[1]? = some (indented (depth + 1) (docLine (String.ofList (guardComment said.toList)))) := by
  obtain ⟨keyword, isKeyword⟩ := Option.isSome_iff_exists.mp known
  have present : record.doc.isAbsent = false := by
    rw [isDoc]
    simpa [Value.isAbsent] using some_
  have written : docText record.doc = .ok said := by
    rw [isDoc]
    rfl
  simp only [elementLines, named, isKeyword, present, written, Bool.and_false, Bool.false_eq_true,
    ↓reduceIte, ok_bind] at emitted
  obtain ⟨opening, -, emitted⟩ := result_bind_ok emitted
  obtain ⟨found, -, emitted⟩ := result_bind_ok emitted
  obtain ⟨doc, isLine, emitted⟩ := result_bind_ok emitted
  obtain ⟨nested, -, emitted⟩ := result_bind_ok emitted
  cases isLine
  cases emitted
  simp [indented, ← docLine_eq, String.append_assoc]

/-- A comment of any text that says something, written as the documentation of an element: its
line spells one comment wherever it stands, and what the comment says is read back. It is the same
exactly if none of its lines begins with a star. -/
theorem docLine_reread {text said : String} {comment : Token}
    (scanned : comment ∈ (scan text).tokens) (isComment : comment.kind = .comment)
    (cleaned : String.ofList (cleanComment comment.text.toList) = said) (some_ : said ≠ "")
    {bound depth : Nat} {lines : List String} (named : record.name.isAbsent = false)
    (known : (keyword? (SymbolKind.ofMetaclass record.kind)).isSome = true)
    (isDoc : record.doc = .text said)
    (emitted : document.elementLines (bound + 1) depth record = .ok lines) :
    ∃ line ∈ lines[1]?, line = indented (depth + 1) ("doc /* " ++ said ++ " */") ∧
      Spells anyNext (lineChars [line]) [.word "doc", .remark ("/* " ++ said ++ " */")] ∧
      ∀ {c : Cursor} {rest : List Token},
        c.Faces (.word "doc" :: .remark ("/* " ++ said ++ " */") :: rest) → EndsDoc rest →
        ∃ again after, Statement.read c = (.documented again, after) ∧ after.Faces rest ∧
          (again = said ↔ ∀ line ∈ Text.splitLines said.toList, line.head? ≠ some '*') := by
  obtain ⟨body, isText, open_⟩ := scan_endsOnce scanned isComment
  have isSaid : IsSaid said.toList := by
    rw [← cleaned, String.toList_ofList, isText]
    exact cleanComment_isSaid (commentBody_delimited body) open_
  have guarded := guardComment_eq_self isSaid.staysOpen
  have isLine := elementLines_doc named known isDoc some_ emitted
  have staysOpen := staysOpen_guarded said.toList
  rw [guarded, String.ofList_toList] at isLine staysOpen
  have spelled : docLine said = "doc /* " ++ said ++ " */" := by
    rw [String.append_assoc, docLine_eq]
  refine ⟨_, isLine, by rw [spelled],
    indented_spells (depth + 1) (docLine_spells staysOpen) trivial, ?_⟩
  rintro c _ faces ⟨token, rest, rfl, spoken, noLocale⟩
  obtain ⟨after, read, facesRest⟩ := @read_doc _ _ said _ faces spoken noLocale
  have again := docSaid_eq_self isSaid (by simpa using some_)
  rw [String.ofList_toList] at again
  exact ⟨docSaid said, after, read, facesRest, again⟩

def marginComment : String :=
  "/* Road\n * vehicles. */"

def vehiclesPackage : Record :=
  { id := "v", kind := "Package", name := .text "Vehicles", doc := .text "Road\nvehicles." }

/-- The margin is not said, and what is said comes back. -/
theorem docLine_reread_margin :
    ∃ comment ∈ (scan marginComment).tokens,
      String.ofList (cleanComment comment.text.toList) = "Road\nvehicles." ∧
      ∃ lines, elementLines ⟨[vehiclesPackage], [], []⟩ 1 0 vehiclesPackage = .ok lines ∧
        ∃ line ∈ lines[1]?, line = "    doc /* Road\nvehicles. */" ∧
          ∀ {c : Cursor} {rest : List Token},
            c.Faces (.word "doc" :: .remark "/* Road\nvehicles. */" :: rest) → EndsDoc rest →
            ∃ after, Statement.read c = (.documented "Road\nvehicles.", after) ∧
              after.Faces rest := by
  have scanned : (scan marginComment).tokens = [⟨.comment, marginComment, ⟨⟨0, 0⟩, ⟨1, 15⟩⟩⟩] := by
    decide +kernel
  have emitted := toOption_eq_some.mp
    (show (elementLines ⟨[vehiclesPackage], [], []⟩ 1 0 vehiclesPackage).toOption =
      some ["package Vehicles \x7b", "    doc /* Road\nvehicles. */", "\x7d"] by decide +kernel)
  have cleaned : String.ofList (cleanComment marginComment.toList) = "Road\nvehicles." := by
    decide +kernel
  have listed : ⟨.comment, marginComment, ⟨⟨0, 0⟩, ⟨1, 15⟩⟩⟩ ∈ (scan marginComment).tokens := by
    rw [scanned]
    exact List.mem_cons_self
  refine ⟨_, listed, cleaned, _, emitted, ?_⟩
  obtain ⟨line, isLine, written, -, reread⟩ := docLine_reread listed rfl cleaned (by decide)
    (by decide) (by decide) rfl emitted
  refine ⟨line, isLine, by rw [written]; decide +kernel, fun faces ends => ?_⟩
  obtain ⟨again, after, read, facesRest, same⟩ := reread faces ends
  rw [same.mpr (by decide +kernel)] at read
  exact ⟨after, read, facesRest⟩

/-- A definition whose documentation begins with a star. -/
def starredDefinition : Record :=
  { id := "a", kind := "PartDefinition", name := .text "A", doc := .text "* x" }

/-- A comment says something that begins with a star. As the documentation of a definition it is
read back without the star. -/
theorem docLine_starred :
    ∃ comment ∈ (scan "/* * * x */").tokens, comment.kind = .comment ∧
      String.ofList (cleanComment comment.text.toList) = "* x" ∧
      ∃ text, sourceText ⟨[starredDefinition], [], []⟩ = .ok text ∧
        (parse "m.sysml" text false).symbols.map (·.doc.text?) = [some "x"] := by
  have scanned : (scan "/* * * x */").tokens = [⟨.comment, "/* * * x */", ⟨⟨0, 0⟩, ⟨0, 11⟩⟩⟩] := by
    decide +kernel
  have written := toOption_eq_some.mp
    (show (sourceText ⟨[starredDefinition], [], []⟩).toOption =
      some "part def A \x7b\n    doc /* * x */\n\x7d\n" by decide +kernel)
  exact ⟨_, by rw [scanned]; exact List.mem_cons_self, rfl, by decide +kernel, _, written,
    by decide +kernel⟩

end Document

end Sysml
