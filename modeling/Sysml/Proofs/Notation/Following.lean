import Sysml.Proofs.Notation.Facing
import Sysml.Proofs.Notation.Moved

/-!
# Texts that follow one another

Where a text without stray characters and without open comments ends at a line end, no token
goes on into what follows. So the tokens of two texts on lines of their own are those of the
first and then those of the second, so many lines further down (`scan_followed`).
-/

set_option autoImplicit false

namespace Sysml

def Position.down (lines : Nat) (place : Position) : Position :=
  ⟨place.line + lines, place.column⟩

namespace Notation

theorem together_down (lines : Nat) : Together (Position.down lines) := by
  intro place c
  unfold Position.next Position.down
  split
  · simp only [Position.mk.injEq, and_true]
    omega
  · rfl

/-- A text ends as many lines further down as it has line feeds. -/
theorem line_after (place : Position) (text : List Char) :
    (place.after text).line = place.line + text.count '\n' := by
  induction text generalizing place with
  | nil => rfl
  | cons c rest ih =>
    have moved : (place.after (c :: rest)).line = ((place.next c).after rest).line := rfl
    rw [moved, ih, Position.next, List.count_cons]
    split
    · next feed =>
      subst feed
      simp only [beq_self_eq_true, ↓reduceIte]
      omega
    · next other => simp [other]

/-- A line feed ends the text: what follows it starts so many lines further down. -/
theorem after_line (text : List Char) :
    ({} : Position).after (text ++ ['\n']) = Position.down (text.count '\n' + 1) {} := by
  rw [Position.after_append]
  have counted := line_after {} text
  change (Position.after {} text).next '\n' = _
  rw [Position.next, if_pos rfl, counted]
  simp only [Position.down, Position.mk.injEq, and_true]
  omega

section Lexemes

variable (more : List Char) {c : Char} {tail : List Char}

theorem takeWhile_followed {p : Char → Bool} (stops : p '\n' = false) (text : List Char) :
    (text ++ '\n' :: more).takeWhile p = text.takeWhile p ∧
      (text ++ '\n' :: more).dropWhile p = text.dropWhile p ++ '\n' :: more := by
  induction text with
  | nil => simp [stops]
  | cons c rest ih =>
    cases further : p c with
    | true => simp [further, ih]
    | false => simp [further]

theorem commentEnd?_followed {text taken rest : List Char}
    (found : commentEnd? text = some (taken, rest)) :
    commentEnd? (text ++ '\n' :: more) = some (taken, rest ++ '\n' :: more) := by
  fun_induction commentEnd? text generalizing taken rest with
  | case1 => cases found
  | case2 rest => cases found; rfl
  | case3 c tail apart ih =>
    obtain ⟨⟨inner, after⟩, isInner, same⟩ := Option.map_eq_some_iff.mp found
    cases same
    rw [List.cons_append, commentEnd?, ih isInner]
    · rfl
    · rintro below rfl isTail
      cases tail with
      | nil => cases isTail
      | cons d below => exact apart _ rfl (congrArg (· :: below) (List.cons.inj isTail).1)

theorem quoteEnd?_followed {quote : Char} {text taken rest : List Char}
    (found : quoteEnd? quote text = some (taken, rest)) :
    quoteEnd? quote (text ++ '\n' :: more) = some (taken, rest ++ '\n' :: more) := by
  fun_induction quoteEnd? quote text generalizing taken rest with
  | case1 => cases found
  | case2 => cases found
  | case3 c tail ih =>
    obtain ⟨⟨inner, after⟩, isInner, same⟩ := Option.map_eq_some_iff.mp found
    cases same
    rw [List.cons_append, List.cons_append, quoteEnd?, ih isInner]
    rfl
  | case4 rest notAlone notEscape =>
    cases found
    have noEscape : quote ≠ '\\' := noEscape_of notAlone notEscape
    rw [List.cons_append, quoteEnd?, if_pos rfl]
    · exact fun escape => absurd escape noEscape
    · exact fun _ _ escape => absurd escape noEscape
  | case5 => cases found
  | case6 c rest notAlone notEscape apart noFeed ih =>
    obtain ⟨⟨inner, after⟩, isInner, same⟩ := Option.map_eq_some_iff.mp found
    cases same
    have noEscape : c ≠ '\\' := noEscape_of notAlone notEscape
    rw [List.cons_append, quoteEnd?, if_neg apart, if_neg noFeed, ih isInner]
    · rfl
    · exact fun escape => absurd escape noEscape
    · exact fun _ _ escape => absurd escape noEscape
where
  noEscape_of {c : Char} {rest : List Char} (notAlone : c = '\\' → rest = [] → False)
      (notEscape : ∀ d below, c = '\\' → rest = d :: below → False) : c ≠ '\\' := by
    intro escape
    cases rest with
    | nil => exact notAlone escape rfl
    | cons d below => exact notEscape d below escape rfl

theorem run?_followed {p : Char → Bool} (stops : p '\n' = false) (text : List Char) :
    run? p (text ++ '\n' :: more) =
      (run? p text).map fun found => (found.1, found.2 ++ '\n' :: more) := by
  obtain ⟨taken, dropped⟩ := takeWhile_followed more stops text
  rw [run?, run?, taken, dropped]
  split <;> rfl

theorem digit_feed : Text.isDecimalDigit '\n' = false := by decide

theorem fraction_followed (text : List Char) :
    fraction (text ++ '\n' :: more) = ((fraction text).1, (fraction text).2 ++ '\n' :: more) := by
  unfold fraction
  cases text with
  | nil => rfl
  | cons c rest =>
    by_cases point : c = '.'
    · subst point
      simp only [List.cons_append, run?_followed more digit_feed]
      cases run? Text.isDecimalDigit rest <;> rfl
    · rw [List.cons_append]
      split <;> simp_all

theorem sign_followed (text : List Char) :
    sign (text ++ '\n' :: more) = ((sign text).1, (sign text).2 ++ '\n' :: more) := by
  unfold sign
  cases text with
  | nil => rfl
  | cons c rest =>
    rw [List.cons_append]
    split <;> simp_all

theorem exponent_followed (text : List Char) :
    exponent (text ++ '\n' :: more) = ((exponent text).1, (exponent text).2 ++ '\n' :: more) := by
  unfold exponent
  cases text with
  | nil => rfl
  | cons c rest =>
    simp only [List.cons_append, sign_followed, run?_followed more digit_feed]
    split
    · cases run? Text.isDecimalDigit (sign rest).2 <;> rfl
    · rfl

theorem number?_followed (text : List Char) :
    number? (text ++ '\n' :: more) =
      (number? text).map fun found => { found with rest := found.rest ++ '\n' :: more } := by
  rw [number?, number?, run?_followed more digit_feed]
  cases run? Text.isDecimalDigit text with
  | none => rfl
  | some found =>
    simp only [Option.map_some, fraction_followed, exponent_followed]

theorem word?_followed (c : Char) (tail : List Char) :
    word? (c :: (tail ++ '\n' :: more)) =
      (word? (c :: tail)).map fun found => { found with rest := found.rest ++ '\n' :: more } := by
  obtain ⟨taken, dropped⟩ :=
    takeWhile_followed more (p := isNamePart) (by decide) tail
  rw [word?, word?, taken, dropped]
  split <;> rfl

theorem afterSymbol?_followed {symbol : List Char} (onLine : '\n' ∉ symbol) (text : List Char) :
    afterSymbol? symbol (text ++ '\n' :: more) =
      (afterSymbol? symbol text).map (· ++ '\n' :: more) := by
  induction symbol generalizing text with
  | nil => cases text <;> rfl
  | cons s symbol ih =>
    obtain ⟨apart, onLine⟩ := List.ne_and_not_mem_of_not_mem_cons onLine
    cases text with
    | nil => simp [afterSymbol?, Ne.symm apart]
    | cons c rest =>
      rw [List.cons_append, afterSymbol?, afterSymbol?, ih onLine]
      split <;> rfl

theorem longSymbols_followed {symbols : List (List Char)}
    (onLine : ∀ symbol ∈ symbols, '\n' ∉ symbol) (text : List Char) :
    (symbols.findSome? fun symbol =>
        (afterSymbol? symbol (text ++ '\n' :: more)).map (symbol, ·)) =
      (symbols.findSome? fun symbol => (afterSymbol? symbol text).map (symbol, ·)).map
        fun found => (found.1, found.2 ++ '\n' :: more) := by
  induction symbols with
  | nil => rfl
  | cons symbol rest ih =>
    rw [List.findSome?_cons, List.findSome?_cons,
      afterSymbol?_followed more (onLine symbol List.mem_cons_self),
      ih fun other listed => onLine other (List.mem_cons_of_mem symbol listed)]
    cases afterSymbol? symbol text <;> rfl

theorem symbol?_followed (c : Char) (tail : List Char) :
    symbol? (c :: (tail ++ '\n' :: more)) =
      (symbol? (c :: tail)).map fun found => (found.1, found.2 ++ '\n' :: more) := by
  have onLine : ∀ symbol ∈ longSymbols, '\n' ∉ symbol := by decide
  have long := longSymbols_followed more onLine (c :: tail)
  rw [List.cons_append] at long
  unfold symbol?
  rw [long]
  cases longSymbols.findSome? fun symbol => (afterSymbol? symbol (c :: tail)).map (symbol, ·) with
  | some found => rfl
  | none =>
    dsimp only [Option.map_none]
    split <;> rfl

/-- Only two characters begin a comment. -/
theorem comment?_none {c d : Char} {rest : List Char}
    (apart : ¬ (c = '/' ∧ (d = '/' ∨ d = '*'))) : comment? (c :: d :: rest) = none := by
  unfold comment?
  split
  · next same => simp_all
  · next same => simp_all
  · rfl

theorem comment?_followed {text : List Char} (some_ : text ≠ [])
    (closed : ∀ found, comment? text = some found → found.kind ≠ .openComment) :
    comment? (text ++ '\n' :: more) =
      (comment? text).map fun found => { found with rest := found.rest ++ '\n' :: more } := by
  match text with
  | [] => exact absurd rfl some_
  | [c] =>
    have apart : ¬ (c = '/' ∧ ('\n' = '/' ∨ '\n' = '*')) := by simp
    have alone : comment? [c] = none := by
      unfold comment?
      split <;> simp_all
    rw [alone]
    exact comment?_none apart
  | c :: d :: rest =>
    by_cases begins : c = '/' ∧ (d = '/' ∨ d = '*')
    · obtain ⟨rfl, rfl | rfl⟩ := begins
      · obtain ⟨taken, dropped⟩ :=
          takeWhile_followed more (p := (· != '\n')) (by decide) rest
        simp only [List.cons_append, comment?, taken, dropped, Option.map_some]
      · simp only [List.cons_append, comment?] at closed ⊢
        cases ends : commentEnd? rest with
        | none =>
          rw [ends] at closed
          exact absurd rfl (closed _ rfl)
        | some found =>
          rw [commentEnd?_followed more ends]
          rfl
    · rw [List.cons_append, List.cons_append, comment?_none begins, comment?_none begins]
      rfl

theorem quoted?_followed {quote : Char} {kind : TokenKind} {c : Char} {tail : List Char}
    (closed : c = quote → (quoted? quote kind (c :: tail)).isSome = true) :
    quoted? quote kind (c :: (tail ++ '\n' :: more)) =
      (quoted? quote kind (c :: tail)).map fun found =>
        { found with rest := found.rest ++ '\n' :: more } := by
  unfold quoted? at closed ⊢
  by_cases isQuote : c = quote
  · have found := closed isQuote
    simp only [if_pos isQuote, Option.isSome_map] at found ⊢
    obtain ⟨⟨taken, rest⟩, isFound⟩ := Option.isSome_iff_exists.mp found
    rw [isFound, quoteEnd?_followed more isFound]
    rfl
  · simp only [if_neg isQuote, Option.map_none]

/-- What a text begins with that no character is astray in goes on at no line end. -/
theorem lexeme_followed (inked : Text.isBlank c = false) (known : (lexeme c tail).kind ≠ .stray)
    (closed : (lexeme c tail).kind ≠ .openComment) :
    lexeme c (tail ++ '\n' :: more) =
      { lexeme c tail with rest := (lexeme c tail).rest ++ '\n' :: more } := by
  have comment := comment?_followed more (List.cons_ne_nil c tail) (by
    intro found isComment
    simpa [lexeme, inked, isComment] using closed)
  have quotes (quote : Char) (kind : TokenKind) (isQuote : quote = '\'' ∨ quote = '"') :
      quoted? quote kind (c :: (tail ++ '\n' :: more)) = _ :=
    quoted?_followed more fun same => by
      subst same
      cases ends : quoteEnd? c tail with
      | none => exact absurd (lexeme_quote isQuote ends) known
      | some found => simp [quoted?, ends]
  have number := number?_followed more (c :: tail)
  rw [List.cons_append] at comment number
  unfold lexeme
  simp only [inked, Bool.false_eq_true, ↓reduceIte, comment, quotes '\'' .name (.inl rfl),
    quotes '"' .string (.inr rfl), number, word?_followed, symbol?_followed,
    ← Option.map_or, Option.orElse_eq_orElse, Option.orElse_eq_or]
  cases (comment? (c :: tail)).or ((quoted? '\'' .name (c :: tail)).or
      ((quoted? '"' .string (c :: tail)).or ((number? (c :: tail)).or (word? (c :: tail))))) with
  | some found => rfl
  | none => cases symbol? (c :: tail) <;> rfl

end Lexemes

/-! ## Scans -/

/-- A blank leaves nothing, whatever follows it. -/
theorem scanFrom_space {c : Char} (blank : Text.isBlank c = true) (place : Position)
    (rest : List Char) : scanFrom place (c :: rest) = scanFrom (place.next c) rest := by
  obtain ⟨found, bare, cut⟩ := spells_blank blank place rest fun _ _ => trivial
  cases List.map_eq_nil_iff.mp bare
  exact cut

/-- The scan met nothing but tokens. -/
def AllTokens (found : List Scanned) : Prop :=
  ∀ item ∈ found, ∃ token, item = .token token

theorem AllTokens.head {item : Scanned} {rest : List Scanned} (all : AllTokens (item :: rest)) :
    ∃ token, item = .token token :=
  all item List.mem_cons_self

theorem AllTokens.tail {item : Scanned} {rest : List Scanned} (all : AllTokens (item :: rest)) :
    AllTokens rest :=
  fun other listed => all other (List.mem_cons_of_mem item listed)

theorem allTokens_of_faults {s : Scan} (clean : s.faults = []) : AllTokens s.found := by
  intro item listed
  have silent := List.filterMap_eq_nil_iff.mp clean item listed
  cases item with
  | token token => exact ⟨token, rfl⟩
  | stray _ _ => cases silent
  | openComment _ => cases silent

/-- The tokens of two texts on lines of their own are those of the first and then those of the
second. -/
theorem scanFrom_followed (place : Position) (text more : List Char)
    (all : AllTokens (scanFrom place text)) :
    scanFrom place (text ++ '\n' :: more) =
      scanFrom place text ++ scanFrom (place.after (text ++ ['\n'])) more := by
  match text with
  | [] =>
    rw [List.nil_append, scanFrom_space (by decide)]
    simp only [scanFrom_nil, List.nil_append]
    rfl
  | c :: tail =>
    cases blank : Text.isBlank c with
    | true =>
      rw [scanFrom_space blank] at all
      rw [List.cons_append, scanFrom_space blank, scanFrom_space blank,
        scanFrom_followed (place.next c) tail more all]
      rfl
    | false =>
      have shorter := lexeme_rest_length c tail
      have passed : place.after (c :: tail ++ ['\n']) =
          (place.after (lexeme c tail).taken).after ((lexeme c tail).rest ++ ['\n']) := by
        rw [← Position.after_append, ← List.append_assoc, lexeme_append]
      have onward := scanFrom_followed (place.after (lexeme c tail).taken) (lexeme c tail).rest more
      rw [scanFrom_step] at all ⊢
      rw [List.cons_append, scanFrom_step, passed]
      cases kind : (lexeme c tail).kind with
      | skipped =>
        rw [lexeme_followed more blank (by simp [kind]) (by simp [kind])]
        simp only [kind] at all ⊢
        exact onward all
      | token tokenKind =>
        rw [lexeme_followed more blank (by simp [kind]) (by simp [kind])]
        simp only [kind] at all ⊢
        rw [onward all.tail, List.cons_append]
      | openComment =>
        simp only [kind] at all
        obtain ⟨token, same⟩ := all.head
        cases same
      | stray =>
        simp only [kind] at all
        obtain ⟨token, same⟩ := all.head
        cases same
termination_by text.length
decreasing_by all_goals first | exact shorter | exact Nat.lt_succ_self _

/-- The comments before the first token of a text stand behind those that are pending. -/
def Cursor.followedBy (c d : Cursor) : Cursor :=
  let joined := withPending c.stop.comments (d.ahead, d.stop.comments)
  ⟨c.ahead ++ joined.1, ⟨joined.2, d.stop.token⟩, c.last, c.faults ++ d.faults⟩

theorem attachComments_append (first second : List Token) :
    attachComments [] (first ++ second) =
      ((attachComments [] first).1 ++
          (withPending (attachComments [] first).2 (attachComments [] second)).1,
        (withPending (attachComments [] first).2 (attachComments [] second)).2) := by
  suffices general : ∀ pending, attachComments pending (first ++ second) =
      ((attachComments pending first).1 ++
          (withPending (attachComments pending first).2 (attachComments [] second)).1,
        (withPending (attachComments pending first).2 (attachComments [] second)).2) from
    general []
  induction first with
  | nil =>
    intro pending
    rw [List.nil_append, attachComments_pending]
    rfl
  | cons token rest ih =>
    intro pending
    rw [List.cons_append, attachComments, attachComments]
    split
    · exact ih _
    · rw [ih []]
      rfl

namespace Scan

def moved (f : Position → Position) (s : Scan) : Scan :=
  ⟨s.found.map (Scanned.moved f), s.stop.moved f⟩

theorem cursor_moved (f : Position → Position) (s : Scan) :
    (s.moved f).cursor = s.cursor.moved f := by
  have tokens : (s.moved f).tokens = s.tokens.map (Token.moved f) := by
    rw [Scan.tokens, Scan.tokens, moved, List.filterMap_map, List.map_filterMap]
    congr 1
    funext item
    cases item <;> rfl
  have faults : (s.moved f).faults = s.faults.map (Fault.moved f) := by
    rw [Scan.faults, Scan.faults, moved, List.filterMap_map, List.map_filterMap]
    congr 1
    funext item
    cases item <;> rfl
  have attached := attachComments_moved (f := f) [] s.tokens
  rw [List.map_nil] at attached
  rw [Scan.cursor, Scan.cursor, tokens, faults, attached]
  simp only [Cursor.moved, Word.moved, List.map_reverse]
  rfl

/-- Where the first scan met no fault, the cursor before two is the one before the first
followed by the one before the second. -/
theorem cursor_append {first second : Scan} (clean : first.faults = []) :
    (⟨first.found ++ second.found, second.stop⟩ : Scan).cursor =
      first.cursor.followedBy second.cursor := by
  simp only [Scan.faults] at clean
  simp only [Scan.cursor, Cursor.followedBy, Scan.tokens, Scan.faults, List.filterMap_append,
    attachComments_append, clean, List.nil_append, List.reverse_nil]

end Scan

/-- The cursor before two texts on lines of their own is the one before the first followed by
the one before the second, so many lines further down. -/
theorem scan_followed {first : String} (second : String) (clean : (scan first).faults = []) :
    (scan (first ++ "\n" ++ second)).cursor =
      (scan first).cursor.followedBy
        ((scan second).cursor.moved (Position.down (first.toList.count '\n' + 1))) := by
  have chars : (first ++ "\n" ++ second).toList = first.toList ++ '\n' :: second.toList := by
    simp [String.toList_append]
  have found := scanFrom_followed {} first.toList second.toList (allTokens_of_faults clean)
  have together := together_down (first.toList.count '\n' + 1)
  have stop : Position.after {} (first.toList ++ '\n' :: second.toList) =
      Position.down (first.toList.count '\n' + 1) (Position.after {} second.toList) := by
    rw [together.after, ← after_line, ← Position.after_append, List.append_assoc]
    rfl
  rw [after_line, scanFrom_moved together] at found
  rw [← Scan.cursor_moved, ← Scan.cursor_append clean, scan, chars, found, stop]
  rfl

end Notation

end Sysml
