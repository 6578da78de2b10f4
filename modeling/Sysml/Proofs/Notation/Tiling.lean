import Mathlib.Data.List.Induction
import Mathlib.Data.List.TakeWhile
import Mathlib.Logic.ExistsUnique
import Sysml.Proofs.Notation.Following
import Sysml.Proofs.Notation.Stretch
import Sysml.Text.Blank

/-!
# A scan takes a text apart

What a scan meets takes up ranges of the text, one behind the other, and between them there is
nothing but white space and line comments (`scan_tiles`). Only a block comment that nothing closes
leaves the text behind it out. The first one does: what looks like another one before it stands
within quotes or within a comment (`lexeme_shuts`).
-/

set_option autoImplicit false

namespace Sysml

/-- The character after a run is none of it. -/
theorem Text.head_dropWhile {p : Char → Bool} {text : List Char} :
    ∀ c ∈ (text.dropWhile p).head?, p c = false := by
  intro c member
  have stops := List.head?_dropWhile_not p text
  rw [Option.mem_def.mp member] at stops
  exact stops

/-- The place of an offset: the number of line feeds before it, and how far it is behind the last
of them. -/
def Position.ofOffset (text : List Char) (offset : Nat) : Position :=
  ⟨(text.take offset).count '\n', ((text.take offset).reverse.takeWhile (· != '\n')).length⟩

theorem Position.after_column (text : List Char) :
    (Position.after {} text).column = (text.reverse.takeWhile (· != '\n')).length := by
  induction text using List.reverseRecOn with
  | nil => rfl
  | append_singleton text c ih =>
    have moved : Position.after {} (text ++ [c]) = (Position.after {} text).next c := by
      rw [Position.after_append]
      rfl
    rw [moved, Position.next, List.reverse_concat]
    by_cases feed : c = '\n'
    · simp [feed]
    · simp [feed, ih]

theorem Position.after_take (text : List Char) (offset : Nat) :
    Position.after {} (text.take offset) = Position.ofOffset text offset := by
  have line := Notation.line_after {} (text.take offset)
  have column := Position.after_column (text.take offset)
  rw [Nat.zero_add] at line
  rw [ofOffset, ← line, ← column]

namespace Notation

/-! ## What a lexeme is -/

def TokenKind.quote (kind : TokenKind) (text : List Char) : List Char :=
  match kind with
  | .name => '\'' :: text ++ ['\'']
  | .string => '"' :: text ++ ['"']
  | _ => text

/-- The text holds the end of a block comment. -/
def Closes (text : List Char) : Prop :=
  ∃ before after, text = before ++ '*' :: '/' :: after

/-- At the front of the text stands the beginning of a block comment that nothing closes. -/
def BeginsUnclosed (text : List Char) : Prop :=
  ∃ rest, text = '/' :: '*' :: rest ∧ ¬ Closes rest

/-- What stands at the front of a text, and what stands behind it. -/
inductive Lexeme.Told : LexemeKind → List Char → List Char → Prop where
  | blanks {taken rest : List Char} (each : ∀ c ∈ taken, Text.isBlank c = true) :
      Told .skipped taken rest
  | lineComment {body rest : List Char} (onLine : '\n' ∉ body) (ends : ∀ c ∈ rest.head?, c = '\n') :
      Told .skipped ('/' :: '/' :: body) rest
  | token {kind : TokenKind} {taken rest : List Char} (inside : kind ≠ .stop)
      (quoted : kind.quote (tokenText kind taken).toList = taken) : Told (.token kind) taken rest
  | openComment {rest : List Char} (unclosed : ¬ Closes rest) : Told .openComment ['/', '*'] rest
  | stray {c : Char} {rest : List Char} : Told .stray [c] rest

namespace Lexeme.Told

variable {kind : TokenKind} {taken rest : List Char}

theorem of_token (told : Told (.token kind) taken rest) :
    kind ≠ .stop ∧ kind.quote (tokenText kind taken).toList = taken := by
  cases told with
  | token inside quoted => exact ⟨inside, quoted⟩

theorem of_openComment (told : Told .openComment taken rest) :
    taken = ['/', '*'] ∧ ¬ Closes rest := by
  cases told with
  | openComment unclosed => exact ⟨rfl, unclosed⟩

theorem of_stray (told : Told .stray taken rest) : ∃ c, taken = [c] := by
  cases told with
  | stray => exact ⟨_, rfl⟩

end Lexeme.Told

theorem commentEnd?_eq_none_iff {text : List Char} : commentEnd? text = none ↔ ¬ Closes text := by
  constructor
  · rintro none_ ⟨before, after, rfl⟩
    induction before with
    | nil => cases none_
    | cons c before ih =>
      rw [List.cons_append, commentEnd?.eq_def] at none_
      split at none_
      · next same => cases same
      · cases none_
      · next same =>
        cases same
        exact ih (Option.map_eq_none_iff.mp none_)
  · intro unclosed
    fun_induction commentEnd? text with
    | case1 => rfl
    | case2 rest => exact absurd ⟨[], rest, rfl⟩ unclosed
    | case3 c rest _ ih =>
      apply Option.map_eq_none_iff.mpr
      apply ih
      rintro ⟨before, after, rfl⟩
      exact unclosed ⟨c :: before, after, rfl⟩

theorem quoteEnd?_closes {quote : Char} {text taken rest : List Char}
    (found : quoteEnd? quote text = some (taken, rest)) : ∃ body, taken = body ++ [quote] := by
  fun_induction quoteEnd? quote text generalizing taken rest with
  | case1 | case2 | case5 => cases found
  | case3 c tail ih =>
    simp only [Option.map_eq_some_iff, Prod.exists] at found
    obtain ⟨inner, after, ended, same⟩ := found
    cases same
    obtain ⟨body, rfl⟩ := ih ended
    exact ⟨'\\' :: c :: body, rfl⟩
  | case4 => cases found; exact ⟨[], rfl⟩
  | case6 c tail _ _ _ _ ih =>
    simp only [Option.map_eq_some_iff, Prod.exists] at found
    obtain ⟨inner, after, ended, same⟩ := found
    cases same
    obtain ⟨body, rfl⟩ := ih ended
    exact ⟨c :: body, rfl⟩

variable {text : List Char} {found : Lexeme}

def Lexeme.IsTold (found : Lexeme) : Prop :=
  Lexeme.Told found.kind found.taken found.rest

theorem comment?_told (taken : comment? text = some found) : found.IsTold := by
  unfold comment? at taken
  split at taken
  · next rest =>
    cases taken
    refine .lineComment (fun feed => ?_) fun c member => ?_
    · have kept := List.mem_takeWhile_imp feed
      simp at kept
    · simpa using Text.head_dropWhile c member
  · split at taken
    · cases taken
      refine .token (by decide) ?_
      simp [TokenKind.quote, tokenText]
    · next none_ =>
      cases taken
      exact .openComment (commentEnd?_eq_none_iff.mp none_)
  · cases taken

/-- A quoted token of a kind whose quotes these are. -/
theorem quoted?_told {quote : Char} {kind : TokenKind} (inside : kind ≠ .stop)
    (quotes : ∀ body, kind.quote (tokenText kind (quote :: body ++ [quote])).toList =
      quote :: body ++ [quote])
    (taken : quoted? quote kind text = some found) : found.IsTold := by
  unfold quoted? at taken
  split at taken
  · split at taken
    · next same =>
      simp only [Option.map_eq_some_iff, Prod.exists] at taken
      obtain ⟨inner, after, ended, rfl⟩ := taken
      obtain ⟨body, rfl⟩ := quoteEnd?_closes ended
      subst same
      exact .token inside (quotes body)
    · cases taken
  · cases taken

theorem number?_told (taken : number? text = some found) : found.IsTold := by
  simp only [number?, Option.map_eq_some_iff, Prod.exists] at taken
  obtain ⟨whole, rest, _, rfl⟩ := taken
  exact .token (by decide) (by simp [TokenKind.quote, tokenText])

theorem word?_told (taken : word? text = some found) : found.IsTold := by
  unfold word? at taken
  split at taken
  · split at taken
    · cases taken
      exact .token (by decide) (by simp [TokenKind.quote, tokenText])
    · cases taken
  · cases taken

/-- What stands at the front of a text is told by its kind. -/
theorem lexeme_told (c : Char) (rest : List Char) : (lexeme c rest).IsTold := by
  unfold lexeme
  simp only
  split
  · next blank =>
    refine .blanks fun d member => ?_
    rcases List.mem_cons.mp member with rfl | member
    · exact blank
    · exact List.mem_takeWhile_imp member
  · split
    · next chosen =>
      simp only [Option.orElse_eq_orElse, Option.orElse_eq_or, Option.or_eq_some_iff] at chosen
      rcases chosen with h | ⟨-, h | ⟨-, h | ⟨-, h | ⟨-, h⟩⟩⟩⟩
      · exact comment?_told h
      · exact quoted?_told (by decide) (fun body => by simp [TokenKind.quote, tokenText]) h
      · exact quoted?_told (by decide) (fun body => by simp [TokenKind.quote, tokenText]) h
      · exact number?_told h
      · exact word?_told h
    · split
      · exact Lexeme.Told.token (by decide) (by simp [TokenKind.quote, tokenText])
      · exact Lexeme.Told.stray

/-! ## Where a comment that stays open may begin -/

/-- What is taken for a token of the kind may hold what elsewhere begins a comment. -/
def TokenKind.encloses : TokenKind → Bool
  | .name | .string | .comment => true
  | .word | .number | .symbol | .stop => false

def LexemeKind.encloses : LexemeKind → Bool
  | .skipped => true
  | .token kind => kind.encloses
  | .openComment | .stray => false

/-- No comment that stays open begins in what is taken, unless within what encloses it. -/
def Lexeme.Shuts (found : Lexeme) : Prop :=
  ∀ before opening, found.taken = before ++ opening → opening ≠ [] →
    BeginsUnclosed (opening ++ found.rest) → before ≠ [] ∧ found.kind.encloses = true

theorem Lexeme.shuts_of_noSlash (none_ : '/' ∉ found.taken) : found.Shuts := by
  rintro before opening taken some_ ⟨rest, opens, _⟩
  cases opening with
  | nil => exact absurd rfl some_
  | cons c opening =>
    obtain ⟨rfl, _⟩ := List.cons.inj opens
    exact absurd (by simp [taken]) none_

theorem Lexeme.shuts_of_encloses (encloses : found.kind.encloses = true)
    (front : ¬ BeginsUnclosed (found.taken ++ found.rest)) : found.Shuts := by
  rintro before opening taken - opens
  refine ⟨?_, encloses⟩
  rintro rfl
  rw [List.nil_append] at taken
  exact front (taken ▸ opens)

theorem Lexeme.shuts_of_single {c : Char} (single : found.taken = [c])
    (front : ¬ BeginsUnclosed (found.taken ++ found.rest)) : found.Shuts := by
  rintro before opening taken some_ opens
  have whole : before = [] := by
    rw [single, eq_comm, List.append_eq_singleton_iff] at taken
    exact taken.resolve_right (fun both => some_ both.2) |>.1
  rw [whole, List.nil_append] at taken
  exact absurd (taken ▸ opens) front

theorem not_beginsUnclosed_cons {c : Char} (other : c ≠ '/') : ¬ BeginsUnclosed (c :: text) := by
  rintro ⟨rest, same, _⟩
  exact other (List.cons.inj same).1

theorem comment?_shuts (taken : comment? text = some found) (closed : found.kind ≠ .openComment) :
    found.Shuts := by
  unfold comment? at taken
  split at taken
  · cases taken
    apply Lexeme.shuts_of_encloses rfl
    rintro ⟨rest, same, _⟩
    exact absurd (List.cons.inj (List.cons.inj same).2).1 (by decide)
  · split at taken
    · next rest inner behind ended =>
      cases taken
      apply Lexeme.shuts_of_encloses rfl
      rintro ⟨other, same, unclosed⟩
      have isRest : inner ++ behind = other := (List.cons.inj (List.cons.inj same).2).2
      rw [commentEnd?_append ended] at isRest
      rw [← commentEnd?_eq_none_iff, ← isRest, ended] at unclosed
      cases unclosed
    · cases taken
      exact absurd rfl closed
  · cases taken

theorem not_beginsUnclosed_of_comment? (none_ : comment? text = none) : ¬ BeginsUnclosed text := by
  rintro ⟨rest, rfl, _⟩
  rw [comment?] at none_
  split at none_ <;> cases none_

theorem quoted?_shuts {quote : Char} {kind : TokenKind} (encloses : kind.encloses = true)
    (isQuote : quote ≠ '/') (taken : quoted? quote kind text = some found) : found.Shuts := by
  unfold quoted? at taken
  split at taken
  · split at taken
    · next same =>
      simp only [Option.map_eq_some_iff, Prod.exists] at taken
      obtain ⟨inner, behind, _, rfl⟩ := taken
      exact Lexeme.shuts_of_encloses encloses (not_beginsUnclosed_cons (same ▸ isQuote))
    · cases taken
  · cases taken

theorem run?_all {p : Char → Bool} {taken rest : List Char}
    (found : run? p text = some (taken, rest)) : ∀ c ∈ taken, p c = true := by
  unfold run? at found
  split at found
  · cases found
  · cases found
    exact fun c member => List.mem_takeWhile_imp member

theorem run?_noSlash {p : Char → Bool} (notIn : p '/' = false) {taken rest : List Char}
    (found : run? p text = some (taken, rest)) : '/' ∉ taken := by
  intro member
  rw [run?_all found '/' member] at notIn
  cases notIn

theorem fraction_noSlash (text : List Char) : '/' ∉ (fraction text).1 := by
  unfold fraction
  split
  · split
    · next digits rest found => simp [run?_noSlash (by decide) found]
    · exact List.not_mem_nil
  · exact List.not_mem_nil

theorem exponent_noSlash (text : List Char) : '/' ∉ (exponent text).1 := by
  unfold exponent
  split
  · next e rest =>
    split
    · next isExponent =>
      split
      · next digits tail found =>
        have noSign : '/' ∉ (sign rest).1 := by
          unfold sign
          split <;> simp
        have notE : '/' ≠ e := by rcases isExponent with rfl | rfl <;> decide
        simp [notE, noSign, run?_noSlash (by decide) found]
      · exact List.not_mem_nil
    · exact List.not_mem_nil
  · exact List.not_mem_nil

theorem number?_shuts (taken : number? text = some found) : found.Shuts := by
  simp only [number?, Option.map_eq_some_iff, Prod.exists] at taken
  obtain ⟨whole, rest, digits, rfl⟩ := taken
  apply Lexeme.shuts_of_noSlash
  simp [run?_noSlash (by decide) digits, fraction_noSlash, exponent_noSlash]

theorem word?_shuts (taken : word? text = some found) : found.Shuts := by
  unfold word? at taken
  split at taken
  · next c rest =>
    split at taken
    · next start =>
      cases taken
      apply Lexeme.shuts_of_noSlash
      rintro (_ | ⟨_, member⟩)
      · exact absurd start (by decide)
      · exact absurd (List.mem_takeWhile_imp member) (by decide)
    · cases taken
  · cases taken

theorem symbol?_shuts {taken rest : List Char} (found : symbol? text = some (taken, rest))
    (front : ¬ BeginsUnclosed text) : Lexeme.Shuts ⟨.token .symbol, taken, rest⟩ := by
  have whole := symbol?_append found
  unfold symbol? at found
  split at found
  · next pair searched =>
    cases found
    obtain ⟨symbol, member, stripped⟩ := List.exists_of_findSome?_eq_some searched
    obtain ⟨_, _, rfl, rfl⟩ := by
      simpa only [Option.map_eq_some_iff, Prod.mk.injEq] using stripped
    apply Lexeme.shuts_of_noSlash
    exact (by decide : ∀ symbol ∈ longSymbols, '/' ∉ symbol) symbol member
  · split at found
    · split at found
      · cases found
        exact Lexeme.shuts_of_single rfl front
      · cases found
    · cases found

/-- Of the comments that stay open only one that is met as such begins outside of quotes and
comments. -/
theorem lexeme_shuts {c : Char} {rest : List Char} (closed : (lexeme c rest).kind ≠ .openComment) :
    (lexeme c rest).Shuts := by
  unfold lexeme at closed ⊢
  simp only at closed ⊢
  split
  · next blank =>
    apply Lexeme.shuts_of_encloses rfl
    apply not_beginsUnclosed_cons
    rintro rfl
    exact absurd blank (by decide)
  · split
    · next found chosen =>
      rw [if_neg ‹_›, chosen] at closed
      simp only [Option.orElse_eq_orElse, Option.orElse_eq_or, Option.or_eq_some_iff] at chosen
      rcases chosen with h | ⟨-, h | ⟨-, h | ⟨-, h | ⟨-, h⟩⟩⟩⟩
      · exact comment?_shuts h closed
      · exact quoted?_shuts rfl (by decide) h
      · exact quoted?_shuts rfl (by decide) h
      · exact number?_shuts h
      · exact word?_shuts h
    · next none_ =>
      simp only [Option.orElse_eq_orElse, Option.orElse_eq_or, Option.or_eq_none_iff] at none_
      have front := not_beginsUnclosed_of_comment? none_.1
      split
      · next taken rest found => exact symbol?_shuts found front
      · exact Lexeme.shuts_of_single rfl front

/-! ## Pieces of a text -/

def Scanned.written : Scanned → List Char
  | .token found => found.kind.quote found.text.toList
  | .stray c _ => [c]
  | .openComment _ => ['/', '*']

/-- Something that a scan meets, with the range of offsets that it takes up. -/
structure Piece where
  item : Scanned
  start : Nat
  stop : Nat

namespace Piece

def Holds (piece : Piece) (offset : Nat) : Prop :=
  piece.start ≤ offset ∧ offset < piece.stop

/-- The piece is a name, a string or a comment that begins before the offset and ends behind it. -/
def Encloses (piece : Piece) (offset : Nat) : Prop :=
  piece.start < offset ∧ offset < piece.stop ∧
    ∃ token, piece.item = .token token ∧ token.kind.encloses = true

/-- The piece is a token or a character that begins none, its text is what stands in its range, and
its span is that of the range. A block comment that nothing closes may only seem to begin within
it. -/
structure Fits (text : List Char) (piece : Piece) : Prop where
  item : (∃ token, piece.item = .token token ∧ token.kind ≠ .stop) ∨
    ∃ c span, piece.item = .stray c span
  filled : piece.start < piece.stop
  written : text.extract piece.start piece.stop = piece.item.written
  span : piece.item.span =
    ⟨Position.ofOffset text piece.start, Position.ofOffset text piece.stop⟩
  shuts : ∀ offset, piece.Holds offset → BeginsUnclosed (text.drop offset) → piece.Encloses offset

end Piece

/-- In the range stands a line comment up to the end of its line. -/
structure LineComment (text : List Char) (start stop : Nat) : Prop where
  taken : ∃ body, text.extract start stop = '/' :: '/' :: body ∧ '\n' ∉ body
  ends : ∀ c ∈ (text.drop stop).head?, c = '\n'

/-- A range that leaves no token: white space, or a line comment. -/
inductive Skipped (text : List Char) (start stop : Nat) : Prop where
  | blanks (each : ∀ c ∈ text.extract start stop, Text.isBlank c = true)
  | lineComment (comment : LineComment text start stop)

/-- Where a scan ends, and what it meets there: at the end of the text, or at a block comment that
nothing closes. -/
inductive Ending (text : List Char) : Nat → List Scanned → Prop where
  | whole : Ending text text.length []
  | openComment {limit : Nat} (opens : BeginsUnclosed (text.drop limit)) :
      Ending text limit
        [.openComment ⟨Position.ofOffset text limit, Position.ofOffset text (limit + 2)⟩]

/-- From one offset up to another the text consists of the pieces, of white space and of line
comments. -/
inductive Tiles (text : List Char) : Nat → List Piece → Nat → Prop where
  | nil (limit : Nat) : Tiles text limit [] limit
  | piece {piece : Piece} {pieces : List Piece} {limit : Nat} (fits : piece.Fits text)
      (further : Tiles text piece.stop pieces limit) :
      Tiles text piece.start (piece :: pieces) limit
  | skip {start stop limit : Nat} {pieces : List Piece} (filled : start < stop)
      (skipped : Skipped text start stop) (further : Tiles text stop pieces limit) :
      Tiles text start pieces limit

/-- Each offset of a range is in exactly one of the pieces, or it is in white space or in a line
comment which no piece meets. Where in the range a block comment seems to begin that nothing closes,
there it is within a name, a string, a comment or a line comment. -/
structure Covered (text : List Char) (start : Nat) (pieces : List Piece) (limit : Nat) : Prop where
  fits : ∀ piece ∈ pieces, piece.Fits text
  bounds : ∀ piece ∈ pieces, start ≤ piece.start ∧ piece.stop ≤ limit
  ordered : pieces.Pairwise fun piece later => piece.stop ≤ later.start
  covers : ∀ offset, start ≤ offset → offset < limit →
    (∃! piece, piece ∈ pieces ∧ piece.Holds offset) ∨
      ∃ first last, start ≤ first ∧ first ≤ offset ∧ offset < last ∧ last ≤ limit ∧
        Skipped text first last ∧ ∀ piece ∈ pieces, piece.stop ≤ first ∨ last ≤ piece.start
  shuts : ∀ offset, start ≤ offset → offset < limit → BeginsUnclosed (text.drop offset) →
    (∃ piece ∈ pieces, piece.Encloses offset) ∨
      ∃ first last, start ≤ first ∧ first < offset ∧ offset < last ∧ LineComment text first last ∧
        ∀ piece ∈ pieces, piece.stop ≤ first ∨ last ≤ piece.start

/-- In a range that leaves no token a block comment only seems to begin within a line comment. -/
theorem Skipped.shuts {start stop offset : Nat} (skipped : Skipped text start stop)
    (from_ : start ≤ offset) (upTo : offset < stop) (begins : BeginsUnclosed (text.drop offset)) :
    start < offset ∧ LineComment text start stop := by
  obtain ⟨rest, opens, _⟩ := begins
  have listed : (text.extract start stop)[offset - start]? = some '/' := by
    rw [List.extract_eq_take_drop, List.getElem?_take_of_lt (by omega), List.getElem?_drop,
      Nat.add_sub_cancel' from_, ← List.head?_drop, opens]
    rfl
  cases skipped with
  | blanks each => exact absurd (each '/' (List.mem_of_getElem? listed)) (by decide)
  | lineComment comment =>
    refine ⟨Nat.lt_of_le_of_ne from_ ?_, comment⟩
    rintro rfl
    obtain ⟨body, taken, _⟩ := comment.taken
    rw [List.extract_eq_take_drop, opens] at taken
    generalize stop - start = count at taken
    rcases count with _ | _ | count <;> cases taken

namespace Tiles

variable {start limit : Nat} {pieces : List Piece}

theorem start_le (tiles : Tiles text start pieces limit) : start ≤ limit := by
  induction tiles with
  | nil => exact Nat.le_refl _
  | piece fits _ ih => exact Nat.le_trans (Nat.le_of_lt fits.filled) ih
  | skip filled _ _ ih => exact Nat.le_trans (Nat.le_of_lt filled) ih

theorem covered (tiles : Tiles text start pieces limit) : Covered text start pieces limit := by
  induction tiles with
  | nil limit =>
    exact ⟨fun _ member => (by cases member), fun _ member => (by cases member), .nil,
      fun offset from_ upTo => absurd upTo (Nat.not_lt.mpr from_),
      fun offset from_ upTo => absurd upTo (Nat.not_lt.mpr from_)⟩
  | @piece piece pieces limit fits further ih =>
    have filled := fits.filled
    refine ⟨?_, ?_, ?_, fun offset from_ upTo => ?_, fun offset from_ upTo begins => ?_⟩
    · exact List.forall_mem_cons.mpr ⟨fits, ih.fits⟩
    · refine List.forall_mem_cons.mpr ⟨⟨Nat.le_refl _, further.start_le⟩, fun later member => ?_⟩
      have bounds := ih.bounds later member
      omega
    · exact .cons (fun later member => (ih.bounds later member).1) ih.ordered
    · by_cases inside : offset < piece.stop
      · refine .inl ⟨piece, ⟨List.mem_cons_self, from_, inside⟩, fun other ⟨member, holds⟩ => ?_⟩
        rcases List.mem_cons.mp member with rfl | member
        · rfl
        · have bounds := ih.bounds other member
          exact absurd (Nat.lt_of_lt_of_le inside bounds.1) (Nat.not_lt.mpr holds.1)
      · have behind : piece.stop ≤ offset := Nat.not_lt.mp inside
        rcases ih.covers offset behind upTo with ⟨one, ⟨member, holds⟩, unique⟩ | skipped
        · refine .inl ⟨one, ⟨List.mem_cons_of_mem _ member, holds⟩, fun other ⟨listed, also⟩ => ?_⟩
          rcases List.mem_cons.mp listed with rfl | listed
          · exact absurd also.2 inside
          · exact unique other ⟨listed, also⟩
        · obtain ⟨first, last, low, before, after, high, skipped, apart⟩ := skipped
          exact .inr ⟨first, last, by omega, before, after, high, skipped,
            List.forall_mem_cons.mpr ⟨.inl low, apart⟩⟩
    · by_cases inside : offset < piece.stop
      · exact .inl ⟨piece, List.mem_cons_self, fits.shuts offset ⟨from_, inside⟩ begins⟩
      · rcases ih.shuts offset (Nat.not_lt.mp inside) upTo begins with ⟨one, member, encloses⟩ | line
        · exact .inl ⟨one, List.mem_cons_of_mem _ member, encloses⟩
        · obtain ⟨first, last, low, before, after, comment, apart⟩ := line
          exact .inr ⟨first, last, by omega, before, after, comment,
            List.forall_mem_cons.mpr ⟨.inl low, apart⟩⟩
  | @skip start stop limit pieces filled skipped further ih =>
    refine ⟨ih.fits, fun piece member => ?_, ih.ordered, fun offset from_ upTo => ?_,
      fun offset from_ upTo begins => ?_⟩
    · have bounds := ih.bounds piece member
      omega
    · by_cases inside : offset < stop
      · exact .inr ⟨start, stop, Nat.le_refl _, from_, inside, further.start_le, skipped,
          fun piece member => .inr (ih.bounds piece member).1⟩
      · rcases ih.covers offset (Nat.not_lt.mp inside) upTo with one | beside
        · exact .inl one
        · obtain ⟨first, last, low, rest⟩ := beside
          exact .inr ⟨first, last, by omega, rest⟩
    · by_cases inside : offset < stop
      · obtain ⟨behind, comment⟩ := skipped.shuts from_ inside begins
        exact .inr ⟨start, stop, Nat.le_refl _, behind, inside, comment,
          fun piece member => .inr (ih.bounds piece member).1⟩
      · rcases ih.shuts offset (Nat.not_lt.mp inside) upTo begins with one | line
        · exact .inl one
        · obtain ⟨first, last, low, rest⟩ := line
          exact .inr ⟨first, last, by omega, rest⟩

end Tiles

/-! ## Scans -/

section Fronts

variable (front taken rest : List Char)

theorem extract_front :
    (front ++ taken ++ rest).extract front.length (front ++ taken).length = taken := by
  rw [List.extract, List.append_assoc, List.drop_left' rfl, List.length_append,
    Nat.add_sub_cancel_left, List.take_left' rfl]

theorem ofOffset_front :
    Position.ofOffset (front ++ rest) front.length = Position.after {} front := by
  rw [← Position.after_take, List.take_left' rfl]

variable {taken rest}

theorem skipped_front (told : Lexeme.Told .skipped taken rest) :
    Skipped (front ++ taken ++ rest) front.length (front ++ taken).length := by
  cases told with
  | blanks each =>
    refine .blanks ?_
    rwa [extract_front]
  | @lineComment body _ onLine ends =>
    refine .lineComment ⟨⟨body, extract_front .., onLine⟩, ?_⟩
    rwa [List.drop_left' rfl]

/-- What is taken behind a front is a piece of the text. -/
theorem fits_front {item : Scanned} (inside : (∃ token, item = .token token ∧ token.kind ≠ .stop) ∨
      ∃ c span, item = .stray c span) (filled : taken ≠ []) (written : item.written = taken)
    (span : item.span = ⟨Position.after {} front, (Position.after {} front).after taken⟩)
    (shuts : ∀ before opening, taken = before ++ opening → opening ≠ [] →
      BeginsUnclosed (opening ++ rest) → before ≠ [] ∧
        ∃ token, item = .token token ∧ token.kind.encloses = true) :
    Piece.Fits (front ++ taken ++ rest) ⟨item, front.length, (front ++ taken).length⟩ where
  item := inside
  filled := by
    have := List.length_pos_iff.mpr filled
    change front.length < (front ++ taken).length
    rw [List.length_append]
    omega
  written := by rw [extract_front, written]
  span := by
    rw [ofOffset_front, List.append_assoc, ofOffset_front, Position.after_append]
    exact span
  shuts := by
    rintro offset ⟨from_, upTo⟩ begins
    obtain ⟨n, rfl⟩ := Nat.exists_eq_add_of_le from_
    have short : n < taken.length := by
      change front.length + n < (front ++ taken).length at upTo
      rw [List.length_append] at upTo
      omega
    have opening : (front ++ taken ++ rest).drop (front.length + n) = taken.drop n ++ rest := by
      rw [List.append_assoc, List.drop_length_add_append,
        List.drop_append_of_le_length (Nat.le_of_lt short)]
    rw [opening] at begins
    obtain ⟨before, encloses⟩ := shuts (taken.take n) (taken.drop n) (List.take_append_drop ..).symm
      (by simpa using short) begins
    refine ⟨?_, upTo, encloses⟩
    have some_ : n ≠ 0 := by
      rintro rfl
      exact before rfl
    change front.length < front.length + n
    omega

variable {place : Position} {c : Char} {tail : List Char}
  (stands : place = Position.after {} front)

include stands

/-- What is cut out as a token fits where it stands. -/
theorem token_fits {kind : TokenKind} (isToken : (lexeme c tail).kind = .token kind) :
    Piece.Fits (front ++ (lexeme c tail).taken ++ (lexeme c tail).rest)
      ⟨.token ⟨kind, tokenText kind (lexeme c tail).taken,
          ⟨place, place.after (lexeme c tail).taken⟩⟩,
        front.length, (front ++ (lexeme c tail).taken).length⟩ := by
  have told := lexeme_told c tail
  rw [Lexeme.IsTold, isToken] at told
  obtain ⟨inside, quoted⟩ := told.of_token
  have shuts : (lexeme c tail).Shuts :=
    lexeme_shuts (fun opens => (by cases isToken.symm.trans opens))
  refine fits_front front (.inl ⟨_, rfl, inside⟩) (lexeme_cuts c tail).2 quoted
    (by rw [← stands]; rfl) fun before opening taken some_ begins => ?_
  obtain ⟨behind, encloses⟩ := shuts before opening taken some_ begins
  rw [isToken] at encloses
  exact ⟨behind, _, rfl, encloses⟩

/-- So does a character that begins no token. -/
theorem stray_fits (stray : (lexeme c tail).kind = .stray) :
    Piece.Fits (front ++ (lexeme c tail).taken ++ (lexeme c tail).rest)
      ⟨.stray c ⟨place, place.after (lexeme c tail).taken⟩, front.length,
        (front ++ (lexeme c tail).taken).length⟩ := by
  have told := lexeme_told c tail
  have cut := lexeme_append c tail
  rw [Lexeme.IsTold, stray] at told
  obtain ⟨d, taken⟩ := told.of_stray
  rw [taken] at cut
  have written : [c] = (lexeme c tail).taken := by
    rw [(List.cons.inj cut).1] at taken
    exact taken.symm
  have shuts : (lexeme c tail).Shuts :=
    lexeme_shuts (fun opens => (by cases stray.symm.trans opens))
  refine fits_front front (.inr ⟨_, _, rfl⟩) (lexeme_cuts c tail).2 written
    (by rw [← stands]; rfl) fun before opening taken some_ begins => ?_
  have encloses := (shuts before opening taken some_ begins).2
  rw [stray] at encloses
  cases encloses

/-- A comment that nothing closes ends the scan where it begins. -/
theorem openComment_ends (opens : (lexeme c tail).kind = .openComment) :
    Ending (front ++ c :: tail) front.length
      [.openComment ⟨place, place.after (lexeme c tail).taken⟩] := by
  have told := lexeme_told c tail
  rw [Lexeme.IsTold, opens] at told
  obtain ⟨taken, unclosed⟩ := told.of_openComment
  have cut := lexeme_append c tail
  rw [taken] at cut
  have begins : BeginsUnclosed ((front ++ c :: tail).drop front.length) := by
    rw [List.drop_left' rfl]
    exact ⟨(lexeme c tail).rest, cut.symm, unclosed⟩
  have before : (front ++ c :: tail).take (front.length + 2) = front ++ ['/', '*'] := by
    rw [← cut, ← List.append_assoc, List.take_left' (by rw [List.length_append]; rfl)]
  have span_ : (⟨place, place.after (lexeme c tail).taken⟩ : Span) =
      ⟨Position.ofOffset (front ++ c :: tail) front.length,
        Position.ofOffset (front ++ c :: tail) (front.length + 2)⟩ := by
    rw [ofOffset_front, ← Position.after_take, before, Position.after_append, ← stands]
    exact congrArg (fun taken => (⟨place, place.after taken⟩ : Span)) taken
  exact span_ ▸ .openComment begins

end Fronts

/-- What a scan meets behind the front of a text, with the range of each. -/
theorem scanFrom_tiles (front : List Char) (place : Position) (rest : List Char)
    (stands : place = Position.after {} front) :
    ∃ pieces limit ending, scanFrom place rest = pieces.map (·.item) ++ ending ∧
      Ending (front ++ rest) limit ending ∧ Tiles (front ++ rest) front.length pieces limit := by
  fun_induction scanFrom place rest generalizing front with
  | case1 =>
    refine ⟨[], front.length, [], rfl, ?_, .nil _⟩
    simpa using @Ending.whole front
  | case2 place c tail found next skipped ih =>
    have told := lexeme_told c tail
    obtain ⟨pieces, limit, ending, scanned, ends, tiles⟩ :=
      ih (front ++ found.taken) (by rw [Position.after_append, ← stands])
    rw [← lexeme_append c tail, ← List.append_assoc]
    rw [Lexeme.IsTold, skipped] at told
    have filled := List.length_pos_iff.mpr (lexeme_cuts c tail).2
    refine ⟨pieces, limit, ending, scanned, ends, .skip ?_ (skipped_front front told) tiles⟩
    rw [List.length_append]
    omega
  | case3 place c tail found next span kind isToken ih =>
    obtain ⟨pieces, limit, ending, scanned, ends, tiles⟩ :=
      ih (front ++ found.taken) (by rw [Position.after_append, ← stands])
    rw [← lexeme_append c tail, ← List.append_assoc]
    exact ⟨_ :: pieces, limit, ending, by rw [scanned]; rfl, ends,
      .piece (token_fits front stands isToken) tiles⟩
  | case4 place c tail found next span opens =>
    exact ⟨[], front.length, [.openComment span], rfl, openComment_ends front stands opens, .nil _⟩
  | case5 place c tail found next span stray ih =>
    obtain ⟨pieces, limit, ending, scanned, ends, tiles⟩ :=
      ih (front ++ found.taken) (by rw [Position.after_append, ← stands])
    rw [← lexeme_append c tail, ← List.append_assoc]
    exact ⟨_ :: pieces, limit, ending, by rw [scanned]; rfl, ends,
      .piece (stray_fits front stands stray) tiles⟩

/-- A scan takes a text apart. What it meets, up to a block comment that nothing closes if there is
one, takes up ranges of the text, one behind the other; every other offset is in white space or in a
line comment. In the range of each piece stands its text, with quotes around names and strings, and
places are counted from the line feeds. Behind the tokens stands the one that marks the end. -/
theorem scan_tiles (text : String) :
    (∃ pieces limit ending, (scan text).found = pieces.map (·.item) ++ ending ∧
      Ending text.toList limit ending ∧ Covered text.toList 0 pieces limit) ∧
      (scan text).stop = ⟨.stop, "", ⟨Position.ofOffset text.toList text.toList.length,
        Position.ofOffset text.toList text.toList.length⟩⟩ := by
  obtain ⟨pieces, limit, ending, scanned, ends, tiles⟩ := scanFrom_tiles [] {} text.toList rfl
  refine ⟨⟨pieces, limit, ending, scanned, ends, tiles.covered⟩, ?_⟩
  rw [← Position.after_take, List.take_length]
  rfl

end Notation

end Sysml
