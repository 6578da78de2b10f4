import Sysml.Notation.Quoting
import Sysml.Notation.Token

/-!
# How tokens are written

A text spells tokens if the scan cuts it into them wherever it stands, as long as what
follows is not taken along. Spellings are put together from those of single tokens
(`Spells.append`). A name or path without a line feed spells what stands between its quotes
(`quoteName_spells`, `quotePath_spells`); where nothing is to escape, that is the name itself
(`escaped_eq_self`).
-/

set_option autoImplicit false

namespace Sysml.Notation

namespace Token

def bare (token : Token) : Token :=
  { token with span := {} }

def word (text : String) : Token :=
  ⟨.word, text, {}⟩

def mark (text : String) : Token :=
  ⟨.symbol, text, {}⟩

/-- A name, as it is written: a word if it can be one. -/
def named (name : String) : Token :=
  ⟨if isPlainName name then .word else .name, name, {}⟩

def remark (text : String) : Token :=
  ⟨.comment, text, {}⟩

end Token

/-- The text is cut into these tokens wherever it stands, if nothing follows it or a
character that `next` allows. -/
def Spells (next : Char → Prop) (text : List Char) (tokens : List Token) : Prop :=
  ∀ place rest, (∀ c ∈ rest.head?, next c) →
    ∃ found : List Token, found.map Token.bare = tokens ∧
      scanFrom place (text ++ rest) = found.map .token ++ scanFrom (place.after text) rest

def anyNext (_ : Char) : Prop :=
  True

def endsWord (c : Char) : Prop :=
  isNamePart c = false

instance : DecidablePred endsWord :=
  fun c => inferInstanceAs (Decidable (isNamePart c = false))

/-- The character does not go on with a symbol other than a star. -/
def endsMark (c : Char) : Prop :=
  c ∉ [':', '>', '=']

instance : DecidablePred endsMark :=
  fun c => inferInstanceAs (Decidable (c ∉ [':', '>', '=']))

def endsToken (c : Char) : Prop :=
  endsWord c ∧ endsMark c

instance : DecidablePred endsToken :=
  fun _ => inferInstanceAs (Decidable (_ ∧ _))

namespace Spells

variable {next later : Char → Prop} {text more : List Char} {tokens others : List Token}

theorem nil : Spells next [] [] :=
  fun _ _ _ => ⟨[], rfl, rfl⟩

theorem mono (spells : Spells next text tokens) (allows : ∀ c, later c → next c) :
    Spells later text tokens :=
  fun place rest follows => spells place rest fun c head => allows c (follows c head)

theorem append (first : Spells next text tokens) (second : Spells later more others)
    (meets : ∀ rest : List Char, (∀ c ∈ rest.head?, later c) → ∀ c ∈ (more ++ rest).head?, next c) :
    Spells later (text ++ more) (tokens ++ others) := by
  intro place rest follows
  obtain ⟨found, isFirst, cut⟩ := first place (more ++ rest) (meets rest follows)
  obtain ⟨further, isSecond, cutFurther⟩ := second (place.after text) rest follows
  refine ⟨found ++ further, by rw [List.map_append, isFirst, isSecond], ?_⟩
  rw [List.append_assoc, cut, cutFurther, Position.after_append, List.map_append,
    List.append_assoc]

/-- What follows is not empty, so that only its first character matters. -/
theorem append_cons {c : Char} (first : Spells next text tokens)
    (second : Spells later (c :: more) others) (meets : next c) :
    Spells later (text ++ c :: more) (tokens ++ others) :=
  first.append second fun _ _ d head => by cases Option.mem_some.mp head; exact meets

theorem append_any (first : Spells anyNext text tokens) (second : Spells later more others) :
    Spells later (text ++ more) (tokens ++ others) :=
  first.append second fun _ _ _ _ => trivial

end Spells

theorem scanFrom_cons {place : Position} {c : Char} {tail taken rest : List Char}
    {kind : TokenKind} (cut : lexeme c tail = ⟨.token kind, taken, rest⟩) :
    scanFrom place (c :: tail) =
      .token ⟨kind, tokenText kind taken, ⟨place, place.after taken⟩⟩ ::
        scanFrom (place.after taken) rest := by
  rw [scanFrom_step]
  simp only [cut]

theorem spells_token {next : Char → Prop} {c : Char} {tail : List Char} {kind : TokenKind}
    (cut : ∀ rest : List Char, (∀ d ∈ rest.head?, next d) →
      lexeme c (tail ++ rest) = ⟨.token kind, c :: tail, rest⟩) :
    Spells next (c :: tail) [⟨kind, tokenText kind (c :: tail), {}⟩] :=
  fun place rest follows =>
    ⟨[⟨kind, tokenText kind (c :: tail), ⟨place, place.after (c :: tail)⟩⟩], rfl,
      scanFrom_cons (cut rest follows)⟩

theorem scanFrom_blank {place : Position} {c : Char} (blank : Text.isBlank c = true)
    (rest : List Char) :
    scanFrom place (c :: rest) =
      scanFrom (place.after (c :: rest.takeWhile Text.isBlank)) (rest.dropWhile Text.isBlank) := by
  rw [scanFrom_step]
  simp only [lexeme, blank, ↓reduceIte]

/-- A blank leaves no token, also if more blanks stand behind it. -/
theorem spells_blank {c : Char} (blank : Text.isBlank c = true) : Spells anyNext [c] [] := by
  intro place rest _
  refine ⟨[], rfl, ?_⟩
  change scanFrom place (c :: rest) = scanFrom (place.after [c]) rest
  rw [scanFrom_blank blank]
  cases rest with
  | nil => rfl
  | cons d tail =>
    by_cases further : Text.isBlank d = true
    · rw [scanFrom_blank further]
      simp only [List.takeWhile_cons, List.dropWhile_cons, further, ↓reduceIte]
      rfl
    · simp only [List.takeWhile_cons, List.dropWhile_cons, further, Bool.false_eq_true,
        ↓reduceIte]

theorem spells_blanks {text : List Char} (blank : ∀ c ∈ text, Text.isBlank c = true) :
    Spells anyNext text [] := by
  induction text with
  | nil => exact .nil
  | cons c tail ih =>
    exact (spells_blank (blank c List.mem_cons_self)).append_any
      (ih fun d member => blank d (List.mem_cons_of_mem c member))

/-! ## Words and quoted names -/

/-- What begins a name begins no blank, no number, no comment and no quotes. -/
theorem isNameStart_only {c : Char} (start : isNameStart c = true) :
    Text.isBlank c = false ∧ Text.isDecimalDigit c = false ∧ c ≠ '/' ∧ c ≠ '\'' ∧ c ≠ '"' := by
  have bounds : 65 ≤ c.toNat ∧ c.toNat ≤ 122 := by
    simp only [isNameStart, Bool.or_eq_true, Bool.and_eq_true, decide_eq_true_eq, beq_iff_eq,
      Char.le_def, UInt32.le_iff_toNat_le] at start
    rcases start with (⟨low, high⟩ | ⟨low, high⟩) | rfl
    · exact ⟨low, Nat.le_trans high (by decide)⟩
    · exact ⟨Nat.le_trans (by decide) low, high⟩
    · decide
  have noBlank : Text.isBlank c = false := by
    simp only [Text.isBlank, Bool.or_eq_false_iff, Bool.and_eq_false_iff, decide_eq_false_iff_not,
      beq_eq_false_iff_ne]
    omega
  have noDigit : Text.isDecimalDigit c = false := by
    have high : ¬ c ≤ '9' := by
      rw [Char.le_def, UInt32.le_iff_toNat_le]
      exact fun low => absurd (Nat.le_trans bounds.1 low) (by decide)
    rw [Text.isDecimalDigit, if_pos (by omega)]
    simp [high]
  refine ⟨noBlank, noDigit, ?_, ?_, ?_⟩ <;>
    (rintro rfl; exact absurd bounds.1 (by decide))

theorem lexeme_word {c : Char} (start : isNameStart c = true) (tail : List Char) :
    lexeme c tail =
      ⟨.token .word, c :: tail.takeWhile isNamePart, tail.dropWhile isNamePart⟩ := by
  obtain ⟨notBlank, notDigit, notSlash, notQuote, notDouble⟩ := isNameStart_only start
  have noComment : comment? (c :: tail) = none := by
    unfold comment?
    split <;> simp_all
  have noNumber : number? (c :: tail) = none := by
    simp [number?, run?, notDigit]
  simp [lexeme, notBlank, noComment, noNumber, quoted?, notQuote, notDouble, word?, start]

theorem takeWhile_of_ends {p : Char → Bool} {rest : List Char}
    (ends : ∀ c ∈ rest.head?, p c = false) : rest.takeWhile p = [] ∧ rest.dropWhile p = rest := by
  cases rest with
  | nil => exact ⟨rfl, rfl⟩
  | cons c tail =>
    have stops := ends c rfl
    exact ⟨List.takeWhile_cons_of_neg (by simp [stops]),
      List.dropWhile_cons_of_neg (by simp [stops])⟩

/-- A word spells itself up to where no word goes on. -/
theorem spells_word {text : String} (start : ∃ c tail, text.toList = c :: tail ∧
      isNameStart c = true ∧ tail.all isNamePart = true) :
    Spells endsWord text.toList [.word text] := by
  obtain ⟨c, tail, isText, first, further⟩ := start
  have spelled : Spells endsWord (c :: tail) [⟨.word, tokenText .word (c :: tail), {}⟩] := by
    refine spells_token fun rest follows => ?_
    have parts : ∀ d ∈ tail, isNamePart d = true := List.all_eq_true.mp further
    obtain ⟨taken, dropped⟩ := takeWhile_of_ends follows
    rw [lexeme_word first, List.takeWhile_append_of_pos parts, List.dropWhile_append_of_pos parts,
      taken, dropped, List.append_nil]
  rw [← isText] at spelled
  simpa [tokenText, Token.word] using spelled

def standsInQuotes (c : Char) : Prop :=
  c ≠ '\'' ∧ c ≠ '\\' ∧ c ≠ '\n'

/-- What stands for a name between its quotes. -/
def escaped (name : String) : String :=
  String.ofList (name.toList.flatMap quotedNameChar)

def IsUnbroken (text : String) : Prop :=
  '\n' ∉ text.toList

instance (text : String) : Decidable (IsUnbroken text) :=
  inferInstanceAs (Decidable ('\n' ∉ text.toList))

theorem quoteEnd?_escaped {name : List Char} (unbroken : '\n' ∉ name) (rest : List Char) :
    quoteEnd? '\'' (name.flatMap quotedNameChar ++ '\'' :: rest) =
      some (name.flatMap quotedNameChar ++ ['\''], rest) := by
  induction name with
  | nil => simp [quoteEnd?]
  | cons c tail ih =>
    obtain ⟨noFeed, further⟩ := not_or.mp (mt List.mem_cons.mpr unbroken)
    have inner := ih further
    by_cases escapes : c = '\\' ∨ c = '\''
    · rw [List.flatMap_cons, quotedNameChar, if_pos escapes]
      simp [quoteEnd?, inner]
    · have stands : c ≠ '\\' ∧ c ≠ '\'' := not_or.mp escapes
      rw [List.flatMap_cons, quotedNameChar, if_neg escapes]
      simp [quoteEnd?, stands, Ne.symm noFeed, inner]

/-- No quote ends behind a line feed. -/
theorem quoteEnd?_broken {name : List Char} (feed : '\n' ∈ name) (rest : List Char) :
    quoteEnd? '\'' (name.flatMap quotedNameChar ++ rest) = none := by
  induction name with
  | nil => cases feed
  | cons c tail ih =>
    by_cases escapes : c = '\\' ∨ c = '\''
    · have later : '\n' ∈ tail := by
        refine (List.mem_cons.mp feed).resolve_left ?_
        rintro rfl
        exact absurd escapes (by decide)
      rw [List.flatMap_cons, quotedNameChar, if_pos escapes]
      simp [quoteEnd?, ih later]
    · have stands : c ≠ '\\' ∧ c ≠ '\'' := not_or.mp escapes
      rw [List.flatMap_cons, quotedNameChar, if_neg escapes]
      by_cases here : c = '\n'
      · simp [here, quoteEnd?]
      · have later : '\n' ∈ tail := (List.mem_cons.mp feed).resolve_left (Ne.symm here)
        simp [quoteEnd?, stands, here, ih later]

/-- A name between quotes spells what stands there, whatever follows. -/
theorem spells_quoted {name : String} (unbroken : IsUnbroken name) :
    Spells anyNext ('\'' :: (escaped name).toList ++ ['\'']) [⟨.name, escaped name, {}⟩] := by
  have spelled : Spells anyNext ('\'' :: ((escaped name).toList ++ ['\'']))
      [⟨.name, tokenText .name ('\'' :: ((escaped name).toList ++ ['\''])), {}⟩] := by
    refine spells_token fun rest _ => ?_
    have noBlank : Text.isBlank '\'' = false := by decide
    simp [lexeme, noBlank, comment?, quoted?, escaped, quoteEnd?_escaped unbroken]
  simpa [tokenText] using spelled

/-! ## Symbols and comments -/

theorem longSymbols_eq : longSymbols =
    [[':', ':', '>'], [':', '>', '>'], [':', ':'], [':', '>'], [':', '='], ['*', '*'], ['.', '.'],
      ['-', '>'], ['=', '='], ['!', '='], ['<', '='], ['>', '='], ['=', '>']] := rfl

/-- The symbols that declarations are written with, but for the star. -/
def plainMarks : List (List Char) :=
  [[';'], ['\x7b'], ['\x7d'], [','], ['<'], ['>'], [':'], [':', ':'], [':', '>'],
    [':', '>', '>'], ['*', '*']]

def markStarts : List Char :=
  [';', '\x7b', '\x7d', ',', '<', '>', ':', '*']

theorem markStarts_short : ∀ c ∈ markStarts, c ∈ shortSymbols := by
  have each : markStarts.all (shortSymbols.contains ·) = true := by decide
  simpa only [List.all_eq_true, List.contains_iff_mem] using each

theorem markStarts_only : ∀ c ∈ markStarts, Text.isBlank c = false ∧
    Text.isDecimalDigit c = false ∧ isNameStart c = false ∧ c ≠ '/' ∧ c ≠ '\'' ∧ c ≠ '"' := by
  have each : markStarts.all (fun c => decide (Text.isBlank c = false ∧
      Text.isDecimalDigit c = false ∧ isNameStart c = false ∧
        c ≠ '/' ∧ c ≠ '\'' ∧ c ≠ '"')) = true := by decide
  simpa only [List.all_eq_true, decide_eq_true_eq] using each

theorem lexeme_symbol {c : Char} {tail taken rest : List Char} (starts : c ∈ markStarts)
    (cut : symbol? (c :: tail) = some (taken, rest)) :
    lexeme c tail = ⟨.token .symbol, taken, rest⟩ := by
  obtain ⟨noBlank, noDigit, noStart, noSlash, noQuote, noDouble⟩ := markStarts_only c starts
  have noComment : comment? (c :: tail) = none := by
    unfold comment?
    split <;> simp_all
  simp [lexeme, noBlank, noComment, quoted?, noQuote, noDouble, number?, run?, noDigit, word?,
    noStart, cut]

/-- A character that begins no symbol. -/
theorem symbol?_none {c : Char} (apart : c ∉ shortSymbols) (tail : List Char) :
    symbol? (c :: tail) = none := by
  have first : ∀ symbol ∈ longSymbols, symbol.head?.any (shortSymbols.contains ·) = true := by
    decide
  have long : (longSymbols.findSome? fun symbol =>
      (afterSymbol? symbol (c :: tail)).map (symbol, ·)) = none := by
    refine List.findSome?_eq_none_iff.mpr fun symbol listed => ?_
    obtain ⟨s, head, short⟩ := (Option.any_eq_true ..).mp (first symbol listed)
    obtain ⟨rest, rfl⟩ := List.head?_eq_some_iff.mp head
    have other : s ≠ c := by
      rintro rfl
      exact apart (List.contains_iff_mem.mp short)
    rw [afterSymbol?, if_neg other]
    rfl
  unfold symbol?
  rw [long]
  simp [apart]

/-- A quote begins nothing but what it quotes. -/
theorem lexeme_quote {quote : Char} {tail : List Char} (isQuote : quote = '\'' ∨ quote = '"')
    (open_ : quoteEnd? quote tail = none) : (lexeme quote tail).kind = .stray := by
  have inked : Text.isBlank quote = false := by
    rcases isQuote with rfl | rfl <;> decide
  have noSymbol : symbol? (quote :: tail) = none := by
    refine symbol?_none ?_ tail
    rcases isQuote with rfl | rfl <;> decide
  have noDigit : Text.isDecimalDigit quote = false := by
    rcases isQuote with rfl | rfl <;> decide
  have noStart : isNameStart quote = false := by
    rcases isQuote with rfl | rfl <;> decide
  have noComment : comment? (quote :: tail) = none := by
    unfold comment?
    split <;> rcases isQuote with rfl | rfl <;> simp_all
  have unquoted (other : Char) (kind : TokenKind) : quoted? other kind (quote :: tail) = none := by
    rw [quoted?]
    split
    · next same =>
      rw [← same, open_]
      rfl
    · rfl
  simp [lexeme, inked, noSymbol, noComment, unquoted, number?, run?, noDigit, word?, noStart]

/-- The longest symbol is taken, and none goes on here. -/
theorem symbol?_plain {symbol rest : List Char} (listed : symbol ∈ plainMarks)
    (follows : ∀ d ∈ rest.head?, endsMark d) : symbol? (symbol ++ rest) = some (symbol, rest) := by
  simp only [plainMarks, List.mem_cons, List.not_mem_nil, or_false] at listed
  have short := markStarts_short
  simp only [markStarts, List.forall_mem_cons] at short
  unfold symbol?
  rw [longSymbols_eq]
  rcases listed with rfl | rfl | rfl | rfl | rfl | rfl | rfl | rfl | rfl | rfl | rfl
  all_goals
    cases rest with
    | nil => rfl
    | cons d tail =>
      have ends := follows d rfl
      simp only [endsMark, List.mem_cons, List.not_mem_nil, or_false, not_or] at ends
      simp [afterSymbol?, ends, Ne.symm, short]

/-- A symbol spells itself up to where no symbol goes on. -/
theorem spells_mark {symbol : List Char} (listed : symbol ∈ plainMarks) :
    Spells endsMark symbol [.mark (String.ofList symbol)] := by
  have starts : ∀ symbol ∈ plainMarks, ∃ c tail, symbol = c :: tail ∧ c ∈ markStarts := by
    simp [plainMarks, markStarts]
  obtain ⟨c, tail, rfl, start⟩ := starts symbol listed
  exact spells_token fun rest follows => lexeme_symbol start (symbol?_plain listed follows)

/-- A star spells itself unless another star follows. -/
theorem spells_star : Spells (· ≠ '*') ['*'] [.mark "*"] := by
  refine spells_token fun rest follows => lexeme_symbol (by decide) ?_
  cases rest with
  | nil => rfl
  | cons d tail =>
    have ends : d ≠ '*' := follows d rfl
    simp [symbol?, longSymbols_eq, afterSymbol?, ends.symm,
      markStarts_short '*' (by decide)]

/-- A comment spells itself if its end is the first one in it. -/
theorem spells_comment {body : List Char}
    (closes : ∀ rest : List Char,
      commentEnd? (body ++ '*' :: '/' :: rest) = some (body ++ ['*', '/'], rest)) :
    Spells anyNext ('/' :: '*' :: (body ++ ['*', '/']))
      [.remark (String.ofList ('/' :: '*' :: (body ++ ['*', '/'])))] := by
  refine spells_token fun rest _ => ?_
  have noBlank : Text.isBlank '/' = false := by decide
  simp [lexeme, noBlank, comment?, closes]

/-- A note leaves no token, up to the end of its line. -/
theorem spells_note {body : List Char} (unbroken : '\n' ∉ body) :
    Spells (· = '\n') ('/' :: '/' :: body) [] := by
  intro place rest follows
  have inLine : ∀ c ∈ body, (c != '\n') = true := by
    rintro c member
    simpa using fun feed : c = '\n' => unbroken (feed ▸ member)
  obtain ⟨taken, left⟩ := @takeWhile_of_ends (· != '\n') rest fun c head => by simp [follows c head]
  have cut : lexeme '/' ('/' :: (body ++ rest)) = ⟨.skipped, '/' :: '/' :: body, rest⟩ := by
    have noBlank : Text.isBlank '/' = false := by decide
    simp [lexeme, noBlank, comment?, List.takeWhile_append_of_pos inLine,
      List.dropWhile_append_of_pos inLine, taken, left]
  refine ⟨[], rfl, ?_⟩
  change scanFrom place ('/' :: '/' :: (body ++ rest)) = _
  rw [scanFrom_step]
  simp only [cut, List.map_nil, List.nil_append]

/-! ## Names and paths -/

/-- A name without a character to escape. -/
def IsPlain (name : String) : Prop :=
  ∀ c ∈ name.toList, standsInQuotes c

instance (c : Char) : Decidable (standsInQuotes c) :=
  inferInstanceAs (Decidable (_ ∧ _ ∧ _))

instance (name : String) : Decidable (IsPlain name) :=
  List.decidableBAll standsInQuotes name.toList

theorem quoteName_of_isPlainName {name : String} (plain : isPlainName name = true) :
    quoteName name = name := by
  rw [quoteName, if_pos plain]

theorem quoteName_toList {name : String} (quoted : ¬ isPlainName name = true) :
    (quoteName name).toList = '\'' :: (escaped name).toList ++ ['\''] := by
  rw [quoteName, if_neg quoted, escaped, String.toList_ofList, String.toList_ofList]

theorem flatMap_quotedNameChar {name : List Char} (free : ∀ c ∈ name, c ≠ '\'' ∧ c ≠ '\\') :
    name.flatMap quotedNameChar = name := by
  induction name with
  | nil => rfl
  | cons c tail ih =>
    obtain ⟨noQuote, noEscape⟩ := free c List.mem_cons_self
    rw [List.flatMap_cons, ih fun d member => free d (List.mem_cons_of_mem c member),
      quotedNameChar, if_neg (by simp [noQuote, noEscape]), List.singleton_append]

theorem escaped_of_free {name : String} (free : ∀ c ∈ name.toList, c ≠ '\'' ∧ c ≠ '\\') :
    escaped name = name := by
  rw [escaped, flatMap_quotedNameChar free, String.ofList_toList]

/-- What is escaped is longer where anything is to escape. -/
theorem flatMap_quotedNameChar_length (name : List Char) :
    name.length ≤ (name.flatMap quotedNameChar).length := by
  induction name with
  | nil => exact Nat.le_refl _
  | cons c tail ih =>
    have some_ : 1 ≤ (quotedNameChar c).length := by
      unfold quotedNameChar
      split <;> simp
    rw [List.flatMap_cons, List.length_append, List.length_cons]
    omega

theorem free_of_flatMap_quotedNameChar {name : List Char} (same : name.flatMap quotedNameChar = name) :
    ∀ c ∈ name, c ≠ '\'' ∧ c ≠ '\\' := by
  induction name with
  | nil => exact fun _ member => (by cases member)
  | cons c tail ih =>
    rw [List.flatMap_cons, quotedNameChar] at same
    split at same
    · have lengths : (c :: tail.flatMap quotedNameChar).length = tail.length :=
        congrArg List.length (List.cons.inj same).2
      have grows := flatMap_quotedNameChar_length tail
      rw [List.length_cons] at lengths
      omega
    · next stands =>
      obtain ⟨noEscape, noQuote⟩ := not_or.mp stands
      exact List.forall_mem_cons.mpr ⟨⟨noQuote, noEscape⟩, ih (List.cons.inj same).2⟩

theorem escaped_eq_self_iff {name : String} :
    escaped name = name ↔ ∀ c ∈ name.toList, c ≠ '\'' ∧ c ≠ '\\' := by
  refine ⟨fun same => free_of_flatMap_quotedNameChar ?_, escaped_of_free⟩
  rw [← String.toList_ofList (l := name.toList.flatMap _)]
  exact congrArg String.toList same

theorem escaped_eq_self {name : String} (plain : IsPlain name) : escaped name = name :=
  escaped_of_free fun c member => ⟨(plain c member).1, (plain c member).2.1⟩

theorem IsPlain.isUnbroken {name : String} (plain : IsPlain name) : IsUnbroken name :=
  fun member => (plain _ member).2.2 rfl

theorem escaped_eq_empty {name : String} : escaped name = "" ↔ name = "" := by
  constructor
  · intro none_
    rw [escaped, ← String.toList_inj, String.toList_ofList] at none_
    cases isName : name.toList with
    | nil => exact String.toList_inj.mp isName
    | cons c tail =>
      rw [isName, List.flatMap_cons, quotedNameChar] at none_
      split at none_ <;> cases none_
  · rintro rfl
    rfl

theorem mem_escaped {name : String} {c : Char} (member : c ∈ name.toList) :
    c ∈ (escaped name).toList := by
  rw [escaped, String.toList_ofList]
  refine List.mem_flatMap.mpr ⟨c, member, ?_⟩
  rw [quotedNameChar]
  split <;> simp

theorem isPlainName_start {name : String} (plain : isPlainName name = true) :
    (∃ c tail, name.toList = c :: tail ∧ isNameStart c = true ∧ tail.all isNamePart = true) ∧
      isReserved name = false := by
  unfold isPlainName at plain
  split at plain
  · cases plain
  · next c tail isText =>
    simp only [Bool.and_eq_true, Bool.not_eq_true'] at plain
    exact ⟨⟨c, tail, isText, plain.1⟩, plain.2⟩

theorem isPlainName_free {name : String} (plain : isPlainName name = true) :
    ∀ c ∈ name.toList, c ≠ '\'' ∧ c ≠ '\\' := by
  obtain ⟨⟨c, tail, isText, start, further⟩, -⟩ := isPlainName_start plain
  intro d member
  rw [isText] at member
  rcases List.mem_cons.mp member with rfl | member
  · exact ⟨by rintro rfl; exact absurd start (by decide), by rintro rfl; exact absurd start (by decide)⟩
  · have part := List.all_eq_true.mp further d member
    exact ⟨by rintro rfl; exact absurd part (by decide), by rintro rfl; exact absurd part (by decide)⟩

/-- A name that needs quotes needs them also once it is escaped. -/
theorem isPlainName_escaped (name : String) : isPlainName (escaped name) = isPlainName name := by
  cases plain : isPlainName name with
  | true => rw [escaped_of_free (isPlainName_free plain), plain]
  | false =>
    rw [← Bool.not_eq_true]
    intro plainEscaped
    have free := escaped_of_free fun c member =>
      isPlainName_free plainEscaped c (mem_escaped member)
    rw [free, plain] at plainEscaped
    cases plainEscaped

/-- A name as it is written spells what stands between its quotes. -/
theorem quoteName_spells {name : String} (unbroken : IsUnbroken name) :
    Spells endsWord (quoteName name).toList [.named (escaped name)] := by
  rw [Token.named, isPlainName_escaped]
  by_cases quoted : isPlainName name = true
  · rw [quoteName_of_isPlainName quoted, if_pos quoted,
      escaped_of_free (isPlainName_free quoted)]
    exact spells_word (isPlainName_start quoted).1
  · rw [quoteName_toList quoted, if_neg quoted]
    exact (spells_quoted unbroken).mono fun _ _ => trivial

/-- A name as it is written goes on with no symbol. -/
theorem quoteName_cons (name : String) :
    ∃ c tail, (quoteName name).toList = c :: tail ∧ endsMark c := by
  by_cases plain : isPlainName name = true
  · obtain ⟨c, tail, isText, start, _⟩ := (isPlainName_start plain).1
    refine ⟨c, tail, by rw [quoteName_of_isPlainName plain, isText], ?_⟩
    intro joins
    simp only [List.mem_cons, List.not_mem_nil, or_false] at joins
    rcases joins with rfl | rfl | rfl <;> exact absurd start (by decide)
  · refine ⟨'\'', _, by rw [quoteName, if_neg plain, String.toList_ofList]; rfl, by decide⟩

/-- A name with a line feed begins with a quote that quotes nothing. -/
theorem scanFrom_broken {name : String} (feed : '\n' ∈ name.toList) (place : Position)
    (rest : List Char) :
    ∃ c span, Scanned.stray c span ∈ scanFrom place ((quoteName name).toList ++ rest) := by
  have quoted : ¬ isPlainName name = true := by
    intro plain
    obtain ⟨⟨c, tail, isText, start, further⟩, -⟩ := isPlainName_start plain
    rw [isText] at feed
    rcases List.mem_cons.mp feed with rfl | member
    · exact absurd start (by decide)
    · exact absurd (List.all_eq_true.mp further _ member) (by decide)
  have text : (quoteName name).toList ++ rest =
      '\'' :: (name.toList.flatMap quotedNameChar ++ '\'' :: rest) := by
    rw [quoteName_toList quoted, escaped, String.toList_ofList, List.append_assoc]
    rfl
  have stray := lexeme_quote (.inl rfl) (quoteEnd?_broken feed ('\'' :: rest))
  rw [text, scanFrom_step]
  simp only [stray]
  exact ⟨_, _, List.mem_cons_self⟩

/-- Items that spell their tokens spell them with separators between them too. -/
theorem spells_intercalate {α : Type} {next later : Char → Prop} {separator : List Char}
    {between : List Token} (text : α → List Char) (tokens : α → List Token)
    (separates : Spells later separator between)
    (opens : ∃ c tail, separator = c :: tail ∧ next c) :
    ∀ items : List α, (∀ item ∈ items, Spells next (text item) (tokens item) ∧
        ∃ c tail, text item = c :: tail ∧ later c) →
      Spells next (separator.intercalate (items.map text))
        (between.intercalate (items.map tokens))
  | [], _ => .nil
  | [item], each => by
    simpa using (each item List.mem_cons_self).1
  | item :: second :: rest, each => by
    have inner := spells_intercalate text tokens separates opens (second :: rest) fun other member =>
      each other (List.mem_cons_of_mem item member)
    obtain ⟨c, tail, isSeparator, follows⟩ := opens
    obtain ⟨d, further, isSecond, starts⟩ :=
      (each second (List.mem_cons_of_mem item List.mem_cons_self)).2
    have joined : Spells next (separator ++ separator.intercalate ((second :: rest).map text))
        (between ++ between.intercalate ((second :: rest).map tokens)) := by
      rw [List.map_cons, isSecond, List.intercalate_cons_cons_left] at inner ⊢
      exact separates.append_cons inner starts
    rw [List.map_cons, List.map_cons, List.map_cons, List.map_cons, List.intercalate_cons_cons,
      List.intercalate_cons_cons, List.append_assoc, List.append_assoc]
    rw [isSeparator] at joined ⊢
    exact (each item List.mem_cons_self).1.append_cons joined follows

theorem cut_ne_nil (points : Bool) (piece text : List Char) :
    QualifiedName.cut points piece text ≠ [] := by
  fun_induction QualifiedName.cut points piece text <;> simp_all

/-- The pieces make up the text again. -/
theorem intercalate_cut (piece text : List Char) :
    [':', ':'].intercalate (QualifiedName.cut false piece text) = piece.reverse ++ text := by
  generalize isFalse : false = points
  fun_induction QualifiedName.cut points piece text with
  | case1 => simp
  | case2 piece rest ih =>
    rw [List.intercalate_cons_of_ne_nil (cut_ne_nil points [] rest), ih]
    simp
  | case3 piece c rest _ isPoint => simp [← isFalse] at isPoint
  | case4 piece c rest _ _ ih => rw [ih]; simp

/-- The pieces have no other characters than the text. -/
theorem mem_cut {points : Bool} {piece text part : List Char} {c : Char}
    (listed : part ∈ QualifiedName.cut points piece text) (member : c ∈ part) :
    c ∈ piece ∨ c ∈ text := by
  fun_induction QualifiedName.cut points piece text with
  | case1 piece =>
    cases List.mem_singleton.mp listed
    exact .inl (List.mem_reverse.mp member)
  | case2 piece rest ih =>
    rcases List.mem_cons.mp listed with rfl | later
    · exact .inl (List.mem_reverse.mp member)
    · rcases ih later with none_ | inRest
      · cases none_
      · exact .inr (List.mem_cons_of_mem _ (List.mem_cons_of_mem _ inRest))
  | case3 piece d rest _ _ ih =>
    rcases List.mem_cons.mp listed with rfl | later
    · exact .inl (List.mem_reverse.mp member)
    · rcases ih later with none_ | inRest
      · cases none_
      · exact .inr (List.mem_cons_of_mem _ inRest)
  | case4 piece d rest _ _ ih =>
    rcases ih listed with inPiece | inRest
    · rcases List.mem_cons.mp inPiece with rfl | before
      · exact .inr List.mem_cons_self
      · exact .inl before
    · exact .inr (List.mem_cons_of_mem _ inRest)

theorem join_pieces (path : String) : "::".intercalate (QualifiedName.pieces path) = path := by
  have back : String.toList ∘ String.ofList = id := funext fun _ => String.toList_ofList
  rw [← String.toList_inj, String.toList_intercalate, QualifiedName.pieces, List.map_map, back,
    List.map_id]
  exact intercalate_cut [] path.toList

theorem mem_pieces {path piece : String} {c : Char} (listed : piece ∈ QualifiedName.pieces path)
    (member : c ∈ piece.toList) : c ∈ path.toList := by
  obtain ⟨part, inCut, rfl⟩ := List.mem_map.mp listed
  rw [String.toList_ofList] at member
  exact (mem_cut inCut member).resolve_left (List.not_mem_nil)

/-- What is escaped begins with a colon only where the text does. -/
theorem flatMap_quotedNameChar_colon {text rest : List Char}
    (colon : text.flatMap quotedNameChar = ':' :: rest) : ∃ tail, text = ':' :: tail := by
  cases text with
  | nil => cases colon
  | cons c tail =>
    rw [List.flatMap_cons, quotedNameChar] at colon
    split at colon
    · cases (List.cons.inj colon).1
    · cases (List.cons.inj colon).1
      exact ⟨tail, rfl⟩

/-- Escaping moves no separator. -/
theorem cut_escaped (piece text : List Char) :
    QualifiedName.cut false (piece.reverse.flatMap quotedNameChar).reverse
        (text.flatMap quotedNameChar) =
      (QualifiedName.cut false piece text).map (·.flatMap quotedNameChar) := by
  generalize isFalse : false = points
  fun_induction QualifiedName.cut points piece text with
  | case1 => simp [QualifiedName.cut]
  | case2 piece rest ih =>
    have colon : quotedNameChar ':' = [':'] := rfl
    have inner := ih
    simp only [List.reverse_nil, List.flatMap_nil] at inner
    rw [← isFalse] at inner ⊢
    simp [colon, QualifiedName.cut, inner]
  | case3 piece c rest _ isPoint => simp [← isFalse] at isPoint
  | case4 piece c rest apart _ ih =>
    subst isFalse
    have inner := ih
    by_cases escapes : c = '\\' ∨ c = '\''
    · have quoted : quotedNameChar c = ['\\', c] := if_pos escapes
      have noColon : c ≠ ':' := by rintro rfl; exact absurd escapes (by decide)
      rw [List.reverse_cons, List.flatMap_append] at inner
      simp only [List.flatMap_cons, quoted, List.flatMap_nil, List.append_nil] at inner ⊢
      simpa [QualifiedName.cut, noColon] using inner
    · have stands : quotedNameChar c = [c] := if_neg escapes
      rw [List.reverse_cons, List.flatMap_append] at inner
      simp only [List.flatMap_cons, stands, List.flatMap_nil, List.append_nil,
        List.singleton_append, List.reverse_append, List.reverse_singleton] at inner ⊢
      rw [QualifiedName.cut, if_neg (by simp), inner]
      rintro tail rfl colon
      obtain ⟨further, rfl⟩ := flatMap_quotedNameChar_colon colon
      exact apart further rfl rfl

theorem pieces_escaped (path : String) :
    QualifiedName.pieces (escaped path) = (QualifiedName.pieces path).map escaped := by
  have cut := cut_escaped [] path.toList
  rw [List.reverse_nil, List.flatMap_nil, List.reverse_nil] at cut
  rw [QualifiedName.pieces, escaped, String.toList_ofList, cut, QualifiedName.pieces, List.map_map,
    List.map_map]
  exact List.map_congr_left fun part _ => by simp [escaped]

def pathTokens (path : String) : List Token :=
  [Token.mark "::"].intercalate ((QualifiedName.pieces path).map fun piece => [.named piece])

/-- A path as it is written spells what stands between its quotes. -/
theorem quotePath_spells {path : String} (unbroken : IsUnbroken path) :
    Spells endsWord (quotePath path).toList (pathTokens (escaped path)) := by
  have separates : Spells endsMark [':', ':'] [.mark "::"] := spells_mark (by decide)
  have spelled := spells_intercalate (fun piece => (quoteName piece).toList)
    (fun piece => [Token.named (escaped piece)]) separates ⟨':', [':'], rfl, by decide⟩
    (QualifiedName.pieces path) fun piece listed =>
      ⟨quoteName_spells fun feed => unbroken (mem_pieces listed feed), quoteName_cons piece⟩
  rw [quotePath, String.toList_intercalate, List.map_map, pathTokens, pieces_escaped, List.map_map]
  exact spelled

end Sysml.Notation
