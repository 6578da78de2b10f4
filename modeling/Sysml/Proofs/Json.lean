import Mathlib.Data.List.Forall2
import Sysml.Json.Printer
import Sysml.Json.Reader

/-!
# JSON as it is written

The reader gives back a value that the printer wrote (`read_render`), whatever the level of
indentation and whether or not characters beyond ASCII are escaped. This holds of the values
that JSON has a form of its own for: doubles aside, what is made of texts, integers, truth
values and null by lists and by mappings with different texts as keys.
-/

set_option autoImplicit false

namespace Sysml.Json

/-! ## Strings -/

theorem hexValue?_hexDigit {d : Nat} (small : d < 16) :
    hexValue? (Text.hexDigit d) = some d := by
  have all : ∀ d < 16, hexValue? (Text.hexDigit d) = some d := by decide
  exact all d small

theorem unit?_hexDigits {n : Nat} (small : n < 0x10000) (rest : List Char) :
    unit? (Text.hexDigits 4 n ++ rest) = some (n, rest) := by
  have digits : Text.hexDigits 4 n ++ rest =
      Text.hexDigit (n / 16 / 16 / 16 % 16) :: Text.hexDigit (n / 16 / 16 % 16) ::
        Text.hexDigit (n / 16 % 16) :: Text.hexDigit (n % 16) :: rest := rfl
  rw [digits, unit?, hexValue?_hexDigit (Nat.mod_lt _ (by decide)),
    hexValue?_hexDigit (Nat.mod_lt _ (by decide)), hexValue?_hexDigit (Nat.mod_lt _ (by decide)),
    hexValue?_hexDigit (Nat.mod_lt _ (by decide))]
  change some (_, rest) = _
  congr 2
  omega

/-- The code of a character is no half of a pair. -/
theorem not_surrogate (c : Char) : ¬ (0xd800 ≤ c.toNat ∧ c.toNat < 0xe000) := by
  have valid : c.toNat < 0xd800 ∨ (0xdfff < c.toNat ∧ c.toNat < 0x110000) := c.valid
  omega

/-- The escapes of a character, after the first backslash and `u`, are read as that character. -/
theorem charEscape_read (c : Char) (rest : List Char) :
    ∃ units, charEscape c = '\\' :: 'u' :: units ∧
      ∃ unit more, unit? (units ++ rest) = some (unit, more) ∧
        escapedChar unit more = (c, rest) := by
  have valid := not_surrogate c
  have bound : c.toNat < 0x110000 := by
    have valid : c.toNat < 0xd800 ∨ (0xdfff < c.toNat ∧ c.toNat < 0x110000) := c.valid
    omega
  by_cases plane : c.toNat < 0x10000
  · refine ⟨Text.hexDigits 4 c.toNat, by simp [charEscape, plane, unitEscape], c.toNat, rest,
      unit?_hexDigits plane rest, ?_⟩
    unfold escapedChar
    rw [if_neg (by omega), if_neg (by omega), Char.ofNat_toNat]
  · have high : 0xd800 + (c.toNat - 0x10000) / 0x400 < 0x10000 := by omega
    have low : 0xdc00 + (c.toNat - 0x10000) % 0x400 < 0x10000 := by omega
    refine ⟨Text.hexDigits 4 (0xd800 + (c.toNat - 0x10000) / 0x400) ++
        unitEscape (0xdc00 + (c.toNat - 0x10000) % 0x400),
      by simp [charEscape, plane, unitEscape], _,
      unitEscape (0xdc00 + (c.toNat - 0x10000) % 0x400) ++ rest,
      by rw [List.append_assoc]; exact unit?_hexDigits high _, ?_⟩
    have isLow : unit? (Text.hexDigits 4 (0xdc00 + (c.toNat - 0x10000) % 0x400) ++ rest) =
        some (0xdc00 + (c.toNat - 0x10000) % 0x400, rest) := unit?_hexDigits low rest
    have whole : 0x10000 + (0xd800 + (c.toNat - 0x10000) / 0x400 - 0xd800) * 0x400 +
        (0xdc00 + (c.toNat - 0x10000) % 0x400 - 0xdc00) = c.toNat := by omega
    unfold escapedChar
    simp only [unitEscape, List.cons_append, isLow, whole, Char.ofNat_toNat]
    rw [if_pos (by omega), if_pos (by omega)]

/-- One character of a string is read as that character, in one step. -/
theorem stringBody_char (ascii : Bool) (c : Char) (fuel : Nat) (read rest : List Char) :
    stringBody (fuel + 1) read (stringChar ascii c ++ rest) = stringBody fuel (c :: read) rest := by
  have escaped : stringBody (fuel + 1) read (charEscape c ++ rest) =
      stringBody fuel (c :: read) rest := by
    obtain ⟨units, isEscape, unit, more, isUnit, isRead⟩ := charEscape_read c rest
    rw [isEscape]
    simp only [List.cons_append, stringBody, isUnit]
    change stringBody fuel ((escapedChar unit more).1 :: read) (escapedChar unit more).2 = _
    rw [isRead]
  unfold stringChar
  split
  · next isQuote => subst isQuote; rfl
  split
  · next isBackslash => subst isBackslash; rfl
  split
  · next isFeed => subst isFeed; rfl
  split
  · next isReturn => subst isReturn; rfl
  split
  · next isTab => subst isTab; rfl
  split
  · next code => rw [← Char.ofNat_toNat c, code]; rfl
  split
  · next code => rw [← Char.ofNat_toNat c, code]; rfl
  split
  · exact escaped
  split
  · exact escaped
  · next notQuote notBackslash _ _ _ _ _ printable _ =>
    simp only [List.cons_append, List.nil_append, stringBody, notQuote, notBackslash, printable,
      ↓reduceIte]

theorem stringBody_spelled (ascii : Bool) (chars : List Char) {fuel : Nat} (read rest : List Char)
    (enough : chars.length < fuel) :
    stringBody fuel read (chars.flatMap (stringChar ascii) ++ '"' :: rest) =
      some (String.ofList (read.reverse ++ chars), rest) := by
  induction chars generalizing fuel read with
  | nil =>
    obtain ⟨fuel, rfl⟩ : ∃ less, fuel = less + 1 := ⟨fuel - 1, by simp at enough; omega⟩
    simp [stringBody]
  | cons c chars ih =>
    obtain ⟨fuel, rfl⟩ : ∃ less, fuel = less + 1 := ⟨fuel - 1, by simp at enough; omega⟩
    rw [List.flatMap_cons, List.append_assoc, stringBody_char,
      ih (c :: read) (by simpa using enough)]
    simp

theorem stringChar_ne_nil (ascii : Bool) (c : Char) : stringChar ascii c ≠ [] := by
  obtain ⟨units, isEscape, -⟩ := charEscape_read c []
  unfold stringChar
  rw [isEscape]
  repeat' split
  all_goals simp

theorem length_le_flatMap (ascii : Bool) (chars : List Char) :
    chars.length ≤ (chars.flatMap (stringChar ascii)).length := by
  induction chars with
  | nil => simp
  | cons c chars ih =>
    have some_ := List.length_pos_iff.mpr (stringChar_ne_nil ascii c)
    rw [List.flatMap_cons, List.length_append, List.length_cons]
    omega

/-- A string is read up to its closing quote. -/
theorem stringBody_stringText (ascii : Bool) (s : String) (rest : List Char) :
    ∃ body, (stringText ascii s).toList = '"' :: body ∧
      stringBody ((body ++ rest).length + 1) [] (body ++ rest) = some (s, rest) := by
  refine ⟨s.toList.flatMap (stringChar ascii) ++ ['"'], by simp [stringText], ?_⟩
  have fits := length_le_flatMap ascii s.toList
  rw [List.append_assoc]
  change stringBody _ [] (_ ++ '"' :: rest) = _
  rw [stringBody_spelled ascii s.toList [] rest (by simp; simp at fits; omega)]
  simp

/-! ## Numbers -/

/-- A rest of a text that does not go on with a number. -/
def Stops (rest : List Char) : Prop :=
  ∀ c ∈ rest.head?, isDigit c = false ∧ c ≠ '.' ∧ c ≠ 'e' ∧ c ≠ 'E'

theorem isDigit_toDigits {n : Nat} {c : Char} (listed : c ∈ Nat.toDigits 10 n) :
    isDigit c = true := by
  have digit := Nat.isDigit_of_mem_toDigits (by decide) (by decide) listed
  simpa [Char.isDigit, isDigit, Char.le_def] using digit

theorem natOfDigits_toDigits (n : Nat) : natOfDigits (Nat.toDigits 10 n) = n :=
  Nat.ofDigitChars_ten_toDigits

/-- Only the digits of zero begin with a zero. -/
theorem toDigits_head {n : Nat} {rest : List Char} (digits : Nat.toDigits 10 n = '0' :: rest) :
    n = 0 := by
  induction n using Nat.strongRecOn generalizing rest with
  | ind n ih =>
    by_cases small : n < 10
    · have all : ∀ n < 10, n.digitChar = '0' → n = 0 := by decide
      rw [Nat.toDigits_of_lt_base small] at digits
      exact all n small (List.cons.inj digits).1
    · rw [Nat.toDigits_of_base_le (by decide) (by omega)] at digits
      cases front : Nat.toDigits 10 (n / 10) with
      | nil => exact absurd front Nat.toDigits_ne_nil
      | cons c more =>
        rw [front, List.cons_append] at digits
        obtain rfl : c = '0' := (List.cons.inj digits).1
        have := ih (n / 10) (by omega) front
        omega

theorem takeWhile_digits {digits rest : List Char} (all : ∀ c ∈ digits, isDigit c = true)
    (stops : Stops rest) :
    (digits ++ rest).takeWhile isDigit = digits ∧ (digits ++ rest).dropWhile isDigit = rest := by
  have stop : rest.takeWhile isDigit = [] ∧ rest.dropWhile isDigit = rest := by
    cases rest with
    | nil => exact ⟨rfl, rfl⟩
    | cons c rest => simp [(stops c rfl).1]
  rw [List.takeWhile_append_of_pos all, List.dropWhile_append_of_pos all, stop.1, stop.2]
  exact ⟨List.append_nil _, rfl⟩

/-- The digits of a number are its whole part. -/
theorem whole?_toDigits (negative : Bool) (n : Nat) {rest : List Char} (stops : Stops rest) :
    whole? ((if negative then ['-'] else []) ++ (Nat.toDigits 10 n ++ rest)) =
      some (negative, Nat.toDigits 10 n, rest) := by
  by_cases zero : n = 0
  · subst zero
    cases negative <;> rfl
  have all : ∀ c ∈ Nat.toDigits 10 n, isDigit c = true := fun c => isDigit_toDigits
  have run := takeWhile_digits all stops
  cases digits : Nat.toDigits 10 n with
  | nil => exact absurd digits Nat.toDigits_ne_nil
  | cons c others =>
    have notZero : c ≠ '0' := by
      rintro rfl
      exact zero (toDigits_head digits)
    have notMinus : c ≠ '-' := by
      rintro rfl
      exact absurd (all '-' (digits ▸ List.mem_cons_self)) (by decide)
    rw [digits, List.cons_append] at run
    cases negative <;> simp [whole?, notMinus, notZero, run.1, run.2]

theorem number_spelled {n : Int} (hasText : Decimal.hasText n = true) {rest : List Char}
    (stops : Stops rest) : number ((toString n).toList ++ rest) = .ok (.int n, rest) := by
  have short : ∀ m : Nat, m = n.natAbs → ¬ Decimal.digitLimit < (Nat.toDigits 10 m).length := by
    rintro m rfl
    have within : ∀ k, 0 < k → n.natAbs < Nat.pow 10 k → (Nat.toDigits 10 n.natAbs).length ≤ k :=
      fun k some_ fits => (Nat.length_toDigits_le_iff (by decide) some_).mpr fits
    exact Nat.not_lt.mpr (within Decimal.digitLimit (by decide) (of_decide_eq_true hasText))
  have plain : fraction? rest = none ∧ exponent? rest = none := by
    cases rest with
    | nil => exact ⟨rfl, rfl⟩
    | cons c rest =>
      obtain ⟨-, notPoint, notE, notBigE⟩ := stops c rfl
      simp [fraction?, exponent?, notPoint, notE, notBigE]
  cases n with
  | ofNat n =>
    have whole := whole?_toDigits false n stops
    have spelled : (toString (Int.ofNat n)).toList = Nat.toDigits 10 n := by
      change (toString n).toList = _
      simp
    simp only [Bool.false_eq_true, ↓reduceIte, List.nil_append] at whole
    rw [spelled]
    simp only [number, whole, required, bind, Except.bind, plain.1, plain.2,
      if_neg (short n rfl), natOfDigits_toDigits, Bool.false_eq_true, ↓reduceIte]
    rfl
  | negSucc n =>
    have whole := whole?_toDigits true (n + 1) stops
    have spelled : (toString (Int.negSucc n)).toList = ['-'] ++ Nat.toDigits 10 (n + 1) := by
      change ("-" ++ toString (n + 1)).toList = _
      simp
    simp only [↓reduceIte] at whole
    rw [spelled, List.append_assoc]
    simp only [number, whole, required, bind, Except.bind, plain.1, plain.2,
      if_neg (short (n + 1) rfl), natOfDigits_toDigits, ↓reduceIte]
    rfl

/-! ## Values -/

/-- The text begins with what begins no list's end, and is read as the value before whatever
does not go on with a number, by as many steps as there are characters twice. -/
structure Spells (text : String) (held : Value) : Prop where
  begins : ∃ c rest, text.toList = c :: rest ∧ isSpace c = false ∧ c ≠ ']'
  read : ∀ fuel rest, 2 * text.toList.length ≤ fuel → Stops rest →
    value fuel (text.toList ++ rest) = .ok (held, rest)

/-- What begins with none of the brackets is a word or a number. -/
theorem value_scalar {c : Char} (notQuote : c ≠ '"') (notList : c ≠ '[') (notMap : c ≠ '\x7b')
    (fuel : Nat) (rest : List Char) : value (fuel + 1) (c :: rest) = scalar (c :: rest) := by
  simp [value, notQuote, notList, notMap]

theorem spells_scalar {text : String} {held : Value} {c : Char} {others : List Char}
    (chars : text.toList = c :: others) (notSpace : isSpace c = false)
    (plain : c ≠ '"' ∧ c ≠ '[' ∧ c ≠ '\x7b' ∧ c ≠ ']')
    (read : ∀ rest, Stops rest → scalar (text.toList ++ rest) = .ok (held, rest)) :
    Spells text held where
  begins := ⟨c, others, chars, notSpace, plain.2.2.2⟩
  read fuel rest enough stops := by
    obtain ⟨fuel, rfl⟩ : ∃ less, fuel = less + 1 := ⟨fuel - 1, by simp [chars] at enough; omega⟩
    rw [← read rest stops, chars]
    exact value_scalar plain.1 plain.2.1 plain.2.2.1 fuel _

theorem spells_null : Spells "null" .null :=
  spells_scalar (c := 'n') rfl rfl (by decide) fun _ _ => rfl

theorem spells_bool (b : Bool) : Spells (if b then "true" else "false") (.bool b) := by
  cases b with
  | true => exact spells_scalar (c := 't') rfl rfl (by decide) fun _ _ => rfl
  | false => exact spells_scalar (c := 'f') rfl rfl (by decide) fun _ _ => rfl

theorem ne_of_digit {c d : Char} (digit : isDigit c = true) (noDigit : isDigit d = false) :
    c ≠ d := by
  rintro rfl
  rw [digit] at noDigit
  cases noDigit

/-- A digit begins no word. -/
theorem scalar_digit {c : Char} (digit : isDigit c = true) (rest : List Char) :
    scalar (c :: rest) = number (c :: rest) := by
  have apart := fun d noDigit => (ne_of_digit digit (d := d) noDigit).symm
  simp [scalar, after?, apart 'n' rfl, apart 't' rfl, apart 'f' rfl, apart 'N' rfl, apart 'I' rfl,
    apart '-' rfl]

theorem scalar_minus {c : Char} (digit : isDigit c = true) (rest : List Char) :
    scalar ('-' :: c :: rest) = number ('-' :: c :: rest) := by
  simp [scalar, after?, (ne_of_digit digit (d := 'I') rfl).symm]

theorem spells_int {n : Int} (hasText : Decimal.hasText n = true) :
    Spells (toString n) (.int n) := by
  have digit : ∀ {m c others}, Nat.toDigits 10 m = c :: others → isDigit c = true :=
    fun digits => isDigit_toDigits (digits ▸ List.mem_cons_self)
  cases n with
  | ofNat n =>
    obtain ⟨c, others, digits⟩ :=
      List.exists_cons_of_ne_nil (Nat.toDigits_ne_nil (n := n) (b := 10))
    have spelled : (toString (Int.ofNat n)).toList = c :: others := by
      change (toString n).toList = _
      simpa using digits
    have isDigit_ := digit digits
    have apart := fun d noDigit => ne_of_digit isDigit_ (d := d) noDigit
    have notSpace : isSpace c = false := by
      simp [isSpace, apart ' ' rfl, apart '\t' rfl, apart '\n' rfl, apart '\r' rfl]
    refine spells_scalar spelled notSpace
      ⟨apart _ rfl, apart _ rfl, apart _ rfl, apart _ rfl⟩ fun rest stops => ?_
    rw [← number_spelled hasText stops, spelled]
    exact scalar_digit isDigit_ _
  | negSucc n =>
    obtain ⟨c, others, digits⟩ :=
      List.exists_cons_of_ne_nil (Nat.toDigits_ne_nil (n := n + 1) (b := 10))
    have spelled : (toString (Int.negSucc n)).toList = '-' :: c :: others := by
      change ("-" ++ toString (n + 1)).toList = _
      simpa using digits
    refine spells_scalar spelled rfl (by decide) fun rest stops => ?_
    rw [← number_spelled hasText stops, spelled]
    exact scalar_minus (digit digits) _

theorem spells_text (ascii : Bool) (s : String) : Spells (stringText ascii s) (.text s) where
  begins := by
    obtain ⟨body, isBody, -⟩ := stringBody_stringText ascii s []
    exact ⟨'"', body, isBody, by decide, by decide⟩
  read fuel rest enough _ := by
    obtain ⟨body, isBody, isRead⟩ := stringBody_stringText ascii s rest
    obtain ⟨fuel, rfl⟩ : ∃ less, fuel = less + 1 := ⟨fuel - 1, by simp [isBody] at enough; omega⟩
    rw [isBody, List.cons_append, value, isRead]
    rfl

/-! ## Containers -/

theorem skipSpace_start {c : Char} (notSpace : isSpace c = false) (rest : List Char) :
    skipSpace (c :: rest) = c :: rest := by
  simp [skipSpace, notSpace]

theorem skipSpace_spaces (n : Nat) (rest : List Char) :
    skipSpace (List.replicate n ' ' ++ rest) = skipSpace rest := by
  induction n with
  | zero => rfl
  | succ n ih => exact ih

/-- A line's start is white space. -/
theorem skipSpace_line (depth : Nat) (rest : List Char) :
    skipSpace ('\n' :: ((indentation depth).toList ++ rest)) = skipSpace rest := by
  rw [indentation, String.toList_ofList]
  exact skipSpace_spaces (2 * depth) rest

/-- The parts of a container, one a line, from the first one up to its closing bracket. -/
def rows (depth : Nat) (closing : Char) (part : String) : List String → List Char
  | [] => part.toList ++ '\n' :: ((indentation depth).toList ++ [closing])
  | next :: parts =>
      part.toList ++ ',' :: '\n' :: ((indentation (depth + 1)).toList ++
        rows depth closing next parts)

theorem toList_block (opening closing : Char) (depth : Nat) (part : String) (parts : List String) :
    (block (String.singleton opening) (String.singleton closing) depth (part :: parts)).toList =
      opening :: '\n' :: ((indentation (depth + 1)).toList ++ rows depth closing part parts) := by
  have joined : (",\n".intercalate ((part :: parts).map (indentation (depth + 1) ++ ·))).toList ++
        '\n' :: ((indentation depth).toList ++ [closing]) =
      (indentation (depth + 1)).toList ++ rows depth closing part parts := by
    induction parts generalizing part with
    | nil => simp [rows]
    | cons next parts ih =>
      have rest := ih next
      simp only [String.toList_intercalate, List.map_cons, List.intercalate_cons_cons,
        String.toList_append, List.append_assoc] at rest ⊢
      rw [rest]
      rfl
  rw [block, if_neg (by simp)]
  simp only [String.toList_append, List.append_assoc, String.toList_singleton]
  rw [← joined]
  simp

/-- The rows begin with their first part, and white space before them does not count. -/
theorem skipSpace_rows (depth : Nat) (closing : Char) {part : String} {c : Char} {more : List Char}
    (begins : part.toList = c :: more) (notSpace : isSpace c = false) (parts : List String)
    (rest : List Char) :
    ∃ more, rows depth closing part parts ++ rest = c :: more ∧
      skipSpace ('\n' :: ((indentation (depth + 1)).toList ++
        (rows depth closing part parts ++ rest))) = c :: more := by
  have start : ∃ more, rows depth closing part parts ++ rest = c :: more := by
    cases parts <;> exact ⟨_, by rw [rows, begins]; rfl⟩
  obtain ⟨more, start⟩ := start
  exact ⟨more, start, by rw [skipSpace_line, start, skipSpace_start notSpace]⟩

/-- Text that a part of a container is followed by. -/
theorem stops_of {c : Char} (isEnd : c = ',' ∨ c = '\n') (rest : List Char) :
    Stops (c :: rest) := by
  rintro d ⟨⟩
  rcases isEnd with rfl | rfl <;> decide

theorem items_rows (depth : Nat) {part : String} {held : Value} (first : Spells part held)
    {parts : List String} {others : List Value} (spelled : List.Forall₂ Spells parts others)
    {fuel : Nat} (read : List Value) (rest : List Char)
    (enough : 2 * (rows depth ']' part parts).length ≤ fuel) :
    items fuel read (rows depth ']' part parts ++ rest) =
      .ok (.list (read.reverse ++ held :: others), rest) := by
  induction spelled generalizing part held fuel read with
  | nil =>
    obtain ⟨fuel, rfl⟩ : ∃ less, fuel = less + 1 := ⟨fuel - 1, by simp [rows] at enough; omega⟩
    have isRead := first.read fuel ('\n' :: ((indentation depth).toList ++ ']' :: rest))
      (by simp [rows] at enough ⊢; omega) (stops_of (.inr rfl) _)
    simp only [rows, List.append_assoc, List.cons_append, List.nil_append, items, isRead,
      bind, Except.bind, skipSpace_line, skipSpace_start (c := ']') rfl, List.reverse_cons]
  | @cons next nextHeld parts others second _ ih =>
    obtain ⟨fuel, rfl⟩ : ∃ less, fuel = less + 1 := ⟨fuel - 1, by simp [rows] at enough; omega⟩
    have isRead := first.read fuel (',' :: '\n' :: ((indentation (depth + 1)).toList ++
      (rows depth ']' next parts ++ rest))) (by simp [rows] at enough ⊢; omega)
        (stops_of (.inl rfl) _)
    obtain ⟨c, more, begins, notSpace, -⟩ := second.begins
    obtain ⟨_, start, skipped⟩ := skipSpace_rows depth ']' begins notSpace parts rest
    have rested : items fuel (held :: read) (rows depth ']' next parts ++ rest) =
        .ok (.list (read.reverse ++ held :: nextHeld :: others), rest) :=
      (ih second (held :: read) (by simp [rows] at enough ⊢; omega)).trans (by simp)
    rw [start] at rested
    simp only [rows, List.append_assoc, List.cons_append, items, isRead, bind, Except.bind,
      skipSpace_start (c := ',') rfl, skipped, rested]

/-- The part spells an entry: its key as a string, and its value. -/
def SpellsEntry (ascii : Bool) (part : String) (entry : Value × Value) : Prop :=
  ∃ key text, entry.1 = .text key ∧ part = stringText ascii key ++ ": " ++ text ∧
    Spells text entry.2

theorem SpellsEntry.begins {ascii : Bool} {part : String} {entry : Value × Value}
    (spelled : SpellsEntry ascii part entry) : ∃ more, part.toList = '"' :: more := by
  obtain ⟨key, text, -, rfl, -⟩ := spelled
  obtain ⟨body, isBody, -⟩ := stringBody_stringText ascii key []
  exact ⟨body ++ (": " ++ text).toList, by simp [isBody]⟩

/-- One entry is read, and what follows it decides how to go on. -/
theorem members_entry (ascii : Bool) (key : String) {text : String} {held : Value}
    (spelled : Spells text held) (fuel : Nat) (read : List (Value × Value)) (rest : List Char)
    (stops : Stops rest) (enough : 2 * text.toList.length ≤ fuel) :
    members (fuel + 1) read ((stringText ascii key ++ ": " ++ text).toList ++ rest) =
      match skipSpace rest with
      | ',' :: rest => members fuel (Entries.put (.text key) held read) (skipSpace rest)
      | '\x7d' :: rest => .ok (.map (Entries.put (.text key) held read), rest)
      | _ => .error .malformed := by
  obtain ⟨body, isBody, isKey⟩ :=
    stringBody_stringText ascii key (':' :: ' ' :: (text.toList ++ rest))
  obtain ⟨c, more, begins, notSpace, -⟩ := spelled.begins
  have isHeld := spelled.read fuel rest enough stops
  have start : skipSpace (' ' :: (text.toList ++ rest)) = text.toList ++ rest := by
    rw [begins]
    exact skipSpace_start notSpace _
  have chars : (stringText ascii key ++ ": " ++ text).toList ++ rest =
      '"' :: (body ++ ':' :: ' ' :: (text.toList ++ rest)) := by
    simp [isBody]
  have step := members.eq_def (fuel + 1) read ('"' :: (body ++ ':' :: ' ' :: (text.toList ++ rest)))
  simp only [isKey, required, bind, Except.bind, skipSpace_start (c := ':') rfl, start, isHeld]
    at step
  rw [chars]
  exact step

theorem members_rows {ascii : Bool} (depth : Nat) {part : String} {entry : Value × Value}
    (first : SpellsEntry ascii part entry) {parts : List String} {others : List (Value × Value)}
    (spelled : List.Forall₂ (SpellsEntry ascii) parts others) {fuel : Nat}
    {read : List (Value × Value)} (rest : List Char)
    (apart : (read ++ entry :: others).Pairwise fun one other => (one.1 == other.1) = false)
    (enough : 2 * (rows depth '\x7d' part parts).length ≤ fuel) :
    members fuel read (rows depth '\x7d' part parts ++ rest) =
      .ok (.map (read ++ entry :: others), rest) := by
  induction spelled generalizing part entry fuel read with
  | nil =>
    obtain ⟨name, held⟩ := entry
    obtain ⟨key, text, rfl, rfl, isHeld⟩ := first
    have new : Entries.put (.text key) held read = read ++ [(.text key, held)] :=
      Entries.put_new _ fun other listed =>
        (List.pairwise_append.mp apart).2.2 other listed _ List.mem_cons_self
    obtain ⟨fuel, rfl⟩ : ∃ less, fuel = less + 1 := ⟨fuel - 1, by simp [rows] at enough; omega⟩
    have step := members_entry ascii key isHeld fuel read
      ('\n' :: ((indentation depth).toList ++ '\x7d' :: rest)) (stops_of (.inr rfl) _)
      (by simp [rows] at enough ⊢; omega)
    rw [skipSpace_line, skipSpace_start (c := '\x7d') rfl, new] at step
    rw [rows, List.append_assoc, List.cons_append, List.append_assoc]
    exact step
  | @cons next nextEntry parts others second _ ih =>
    obtain ⟨name, held⟩ := entry
    obtain ⟨key, text, rfl, rfl, isHeld⟩ := first
    have new : Entries.put (.text key) held read = read ++ [(.text key, held)] :=
      Entries.put_new _ fun other listed =>
        (List.pairwise_append.mp apart).2.2 other listed _ List.mem_cons_self
    obtain ⟨fuel, rfl⟩ : ∃ less, fuel = less + 1 := ⟨fuel - 1, by simp [rows] at enough; omega⟩
    obtain ⟨_, begins⟩ := second.begins
    obtain ⟨_, start, skipped⟩ := skipSpace_rows depth '\x7d' begins (by decide) parts rest
    have step := members_entry ascii key isHeld fuel read
      (',' :: '\n' :: ((indentation (depth + 1)).toList ++ (rows depth '\x7d' next parts ++ rest)))
      (stops_of (.inl rfl) _) (by simp [rows] at enough ⊢; omega)
    have rested : members fuel (read ++ [(.text key, held)])
        (rows depth '\x7d' next parts ++ rest) =
          .ok (.map (read ++ [(.text key, held)] ++ nextEntry :: others), rest) :=
      ih second (by simpa using apart) (by simp [rows] at enough ⊢; omega)
    simp only [skipSpace_start (c := ',') rfl, skipped, new] at step
    rw [rows, List.append_assoc, List.cons_append, List.cons_append, List.append_assoc, step,
      ← start, rested, List.append_assoc]
    rfl

theorem spells_list (depth : Nat) {texts : List String} {held : List Value}
    (spelled : List.Forall₂ Spells texts held) :
    Spells (block "[" "]" depth texts) (.list held) := by
  cases spelled with
  | nil =>
    have chars : (block "[" "]" depth []).toList = ['[', ']'] := by simp [block]
    refine ⟨⟨'[', [']'], chars, by decide, by decide⟩, fun fuel rest enough _ => ?_⟩
    rw [chars] at enough ⊢
    obtain ⟨fuel, rfl⟩ : ∃ less, fuel = less + 1 := ⟨fuel - 1, by simp at enough; omega⟩
    rfl
  | @cons text item texts others first spelled =>
    have chars : (block "[" "]" depth (text :: texts)).toList = _ :=
      toList_block '[' ']' depth text texts
    refine ⟨⟨'[', _, chars, by decide, by decide⟩, fun fuel rest enough _ => ?_⟩
    rw [chars] at enough ⊢
    obtain ⟨fuel, rfl⟩ : ∃ less, fuel = less + 1 := ⟨fuel - 1, by simp at enough; omega⟩
    obtain ⟨c, _, begins, notSpace, notEnd⟩ := first.begins
    obtain ⟨_, start, skipped⟩ := skipSpace_rows depth ']' begins notSpace texts rest
    have rested : items fuel [] (rows depth ']' text texts ++ rest) =
        .ok (.list (item :: others), rest) :=
      items_rows depth first spelled [] rest (by simp at enough ⊢; omega)
    rw [start] at rested
    simp only [List.cons_append, List.append_assoc, value, skipped]
    split
    · next front => exact absurd (List.cons.inj front).1 notEnd
    · exact rested

theorem spells_map {ascii : Bool} (depth : Nat) {parts : List String}
    {held : List (Value × Value)}
    (apart : held.Pairwise fun one other => (one.1 == other.1) = false)
    (spelled : List.Forall₂ (SpellsEntry ascii) parts held) :
    Spells (block "\x7b" "\x7d" depth parts) (.map held) := by
  cases spelled with
  | nil =>
    have chars : (block "\x7b" "\x7d" depth []).toList = ['\x7b', '\x7d'] := by simp [block]
    refine ⟨⟨'\x7b', ['\x7d'], chars, by decide, by decide⟩, fun fuel rest enough _ => ?_⟩
    rw [chars] at enough ⊢
    obtain ⟨fuel, rfl⟩ : ∃ less, fuel = less + 1 := ⟨fuel - 1, by simp at enough; omega⟩
    rfl
  | @cons part entry parts others first spelled =>
    have chars : (block "\x7b" "\x7d" depth (part :: parts)).toList = _ :=
      toList_block '\x7b' '\x7d' depth part parts
    refine ⟨⟨'\x7b', _, chars, by decide, by decide⟩, fun fuel rest enough _ => ?_⟩
    rw [chars] at enough ⊢
    obtain ⟨fuel, rfl⟩ : ∃ less, fuel = less + 1 := ⟨fuel - 1, by simp at enough; omega⟩
    obtain ⟨_, begins⟩ := first.begins
    obtain ⟨_, start, skipped⟩ := skipSpace_rows depth '\x7d' begins (by decide) parts rest
    have rested : members fuel [] (rows depth '\x7d' part parts ++ rest) =
        .ok (.map (entry :: others), rest) :=
      members_rows depth first spelled rest apart (by simp at enough ⊢; omega)
    rw [start] at rested
    simp only [List.cons_append, List.append_assoc, value, skipped]
    exact rested

/-! ## Rendering -/

mutual

def isPlain : Value → Bool
  | .null | .bool _ | .text _ => true
  | .int n => Decimal.hasText n
  | .list items => arePlain items
  | .map entries => areKept entries
  | _ => false

def arePlain : List Value → Bool
  | [] => true
  | item :: rest => isPlain item && arePlain rest

def areKept : List (Value × Value) → Bool
  | [] => true
  | (key, held) :: rest =>
      key.text?.isSome && isPlain held && areKept rest &&
        rest.all fun other => other.1.text? != key.text?

end

theorem text_of_isSome {key : Value} (isText : key.text?.isSome = true) :
    ∃ name, key = .text name := by
  cases key <;> simp [Value.text?] at isText ⊢

theorem areKept_texts {entries : List (Value × Value)} (kept : areKept entries = true) :
    ∀ entry ∈ entries, ∃ name, entry.1 = .text name := by
  induction entries with
  | nil => nofun
  | cons entry rest ih =>
    simp only [areKept, Bool.and_eq_true] at kept
    exact List.forall_mem_cons.mpr ⟨text_of_isSome kept.1.1.1, ih kept.1.2⟩

theorem areKept_apart {entries : List (Value × Value)} (kept : areKept entries = true) :
    entries.Pairwise fun one other => (one.1 == other.1) = false := by
  induction entries with
  | nil => exact List.Pairwise.nil
  | cons entry rest ih =>
    have texts := areKept_texts kept
    simp only [areKept, Bool.and_eq_true, List.all_eq_true] at kept
    refine List.Pairwise.cons (fun other listed => ?_) (ih kept.1.2)
    obtain ⟨name, isName⟩ := texts entry List.mem_cons_self
    obtain ⟨held, isHeld⟩ := texts other (List.mem_cons_of_mem _ listed)
    have apart := kept.2 other listed
    rw [isName, isHeld] at apart
    have different : held ≠ name := by simpa [Value.text?] using apart
    rw [isName, isHeld, Value.text_beq]
    exact beq_false_of_ne different.symm

variable (ascii : Bool)

mutual

/-- A plain value is written as a text that spells it. -/
theorem renderAt_spells : ∀ (around : List Nat) (depth : Nat) (held : Value),
    isPlain held = true → ∃ text, renderAt ascii around depth held = .ok text ∧ Spells text held
  | _, _, .null => fun _ => ⟨_, rfl, spells_null⟩
  | _, _, .bool b => fun _ => ⟨_, rfl, spells_bool b⟩
  | _, _, .text s => fun _ => ⟨_, rfl, spells_text ascii s⟩
  | _, _, .int n => fun plain =>
    have hasText : Decimal.hasText n = true := by rwa [isPlain] at plain
    ⟨toString n, by rw [renderAt, integerText, if_pos hasText], spells_int hasText⟩
  | around, depth, .list items => fun plain => by
    rw [isPlain] at plain
    obtain ⟨texts, areTexts, spelled⟩ := renderItems_spells around (depth + 1) items plain
    exact ⟨block "[" "]" depth texts, by rw [renderAt, areTexts]; rfl, spells_list depth spelled⟩
  | around, depth, .map entries => fun plain => by
    rw [isPlain] at plain
    obtain ⟨parts, areParts, spelled⟩ := renderEntries_spells around (depth + 1) entries plain
    exact ⟨block "\x7b" "\x7d" depth parts, by rw [renderAt, areParts]; rfl,
      spells_map depth (areKept_apart plain) spelled⟩
  | _, _, .double _ | _, _, .bytes _ | _, _, .date _ | _, _, .time _ | _, _, .set _
  | _, _, .pair _ _ | _, _, .shared _ _ | _, _, .again _ => fun plain => by simp [isPlain] at plain

theorem renderItems_spells : ∀ (around : List Nat) (depth : Nat) (held : List Value),
    arePlain held = true →
      ∃ texts, renderItems ascii around depth held = .ok texts ∧ List.Forall₂ Spells texts held
  | _, _, [], _ => ⟨[], rfl, .nil⟩
  | around, depth, item :: rest, plain => by
    rw [arePlain, Bool.and_eq_true] at plain
    obtain ⟨text, isText, spelled⟩ := renderAt_spells around depth item plain.1
    obtain ⟨texts, areTexts, others⟩ := renderItems_spells around depth rest plain.2
    exact ⟨text :: texts, by rw [renderItems, isText, areTexts]; rfl, .cons spelled others⟩

theorem renderEntries_spells : ∀ (around : List Nat) (depth : Nat) (held : List (Value × Value)),
    areKept held = true →
      ∃ parts, renderEntries ascii around depth held = .ok parts ∧
        List.Forall₂ (SpellsEntry ascii) parts held
  | _, _, [], _ => ⟨[], rfl, .nil⟩
  | around, depth, (key, held) :: rest, plain => by
    simp only [areKept, Bool.and_eq_true] at plain
    obtain ⟨text, isText, spelled⟩ := renderAt_spells around depth held plain.1.1.2
    obtain ⟨parts, areParts, others⟩ := renderEntries_spells around depth rest plain.1.2
    obtain ⟨name, rfl⟩ := text_of_isSome plain.1.1.1
    exact ⟨_ :: parts, by rw [renderEntries, isText, areParts]; rfl,
      .cons ⟨name, text, rfl, rfl, spelled⟩ others⟩

end

/-- A plain value is read back from the text that it is written as, and white space after the text
does not matter. -/
theorem read_render {held : Value} (plain : isPlain held = true) :
    ∃ text, render ascii held = .ok text ∧ read text = .ok held ∧
      read (text ++ "\n") = .ok held := by
  obtain ⟨text, isText, spelled⟩ := renderAt_spells ascii [] 0 held plain
  obtain ⟨c, more, begins, notSpace, -⟩ := spelled.begins
  have whole : ∀ after : List Char, Stops after → skipSpace after = [] →
      ∀ whole : String, whole.toList = text.toList ++ after → read whole = .ok held := by
    intro after stops isEnd whole chars
    have isRead := spelled.read (2 * whole.toList.length + 2) after (by simp [chars]; omega) stops
    have start : skipSpace whole.toList = whole.toList := by
      rw [chars, begins]
      exact skipSpace_start notSpace _
    rw [← chars] at isRead
    simp only [Json.read, start, isRead, bind, Except.bind, isEnd]
    rfl
  exact ⟨text, isText, whole [] nofun rfl text (by simp),
    whole ['\n'] (stops_of (.inr rfl) []) rfl (text ++ "\n") (by simp)⟩

end Sysml.Json
