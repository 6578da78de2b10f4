import Sysml.Span
import Sysml.Text.Blank
import Sysml.Text.DecimalDigit
import Sysml.Notation.Keyword

/-!
# Tokens

Cutting a text of the notation into tokens. At each place the first rule that
fits takes the longest text it can: white space, a line comment, a block
comment, a quoted name, a string, a number, a word, a symbol. White space and
line comments leave no token. A character that no rule takes is an error of its
own, and an unclosed block comment ends the text. Main statement: cutting loses
nothing (`lexeme_append`).
-/

set_option autoImplicit false

namespace Sysml.Notation

inductive TokenKind where
  /-- A word: a keyword or a plain name. -/
  | word
  /-- A name between single quotes. -/
  | name
  | string
  | number
  | symbol
  | comment
  /-- The end of the text. -/
  | stop
  deriving DecidableEq, Repr, Inhabited

/-- A token with its text, without quotes, and its place. -/
structure Token where
  kind : TokenKind
  text : String
  span : Span
  deriving DecidableEq, Repr, Inhabited

namespace Token

def isSymbol (s : String) (token : Token) : Bool :=
  token.kind == .symbol && token.text == s

def isKeyword (s : String) (token : Token) : Bool :=
  token.kind == .word && token.text == s

/-- The token names something: it is a quoted name or a word that is not reserved. -/
def isName (token : Token) : Bool :=
  token.kind == .name || (token.kind == .word && !isReserved token.text)

end Token

/-- What the text at a place begins with. -/
inductive LexemeKind where
  /-- White space or a line comment. -/
  | skipped
  | token (kind : TokenKind)
  /-- A block comment that is not closed. -/
  | openComment
  /-- A character that begins no token. -/
  | stray
  deriving DecidableEq, Repr, Inhabited

/-- A piece of text at the front, and the text after it. -/
structure Lexeme where
  kind : LexemeKind
  taken : List Char
  rest : List Char
  deriving DecidableEq, Repr, Inhabited

/-- The text up to and with the first `*/`. -/
def commentEnd? : List Char → Option (List Char × List Char)
  | [] => none
  | '*' :: '/' :: rest => some (['*', '/'], rest)
  | c :: rest => (commentEnd? rest).map fun (taken, rest) => (c :: taken, rest)

/-- The text up to and with the closing quote. A backslash takes the next
character along, whatever it is; a line feed is not allowed otherwise. -/
def quoteEnd? (quote : Char) : List Char → Option (List Char × List Char)
  | [] => none
  | ['\\'] => none
  | '\\' :: c :: rest => (quoteEnd? quote rest).map fun (taken, rest) => ('\\' :: c :: taken, rest)
  | c :: rest =>
      if c = quote then some ([c], rest)
      else if c = '\n' then none
      else (quoteEnd? quote rest).map fun (taken, rest) => (c :: taken, rest)

def run? (p : Char → Bool) (text : List Char) : Option (List Char × List Char) :=
  if (text.takeWhile p).isEmpty then none else some (text.takeWhile p, text.dropWhile p)

/-- A point and the digits after it, if both are there. -/
def fraction (text : List Char) : List Char × List Char :=
  match text with
  | '.' :: rest =>
      match run? Text.isDecimalDigit rest with
      | some (digits, rest) => ('.' :: digits, rest)
      | none => ([], text)
  | _ => ([], text)

def sign : List Char → List Char × List Char
  | '+' :: rest => (['+'], rest)
  | '-' :: rest => (['-'], rest)
  | rest => ([], rest)

def exponent (text : List Char) : List Char × List Char :=
  match text with
  | e :: rest =>
      if e = 'e' ∨ e = 'E' then
        match run? Text.isDecimalDigit (sign rest).2 with
        | some (digits, tail) => (e :: (sign rest).1 ++ digits, tail)
        | none => ([], text)
      else ([], text)
  | [] => ([], text)

/-- Symbols of more than one character, those that begin alike longest first. -/
def longSymbols : List (List Char) :=
  ["::>", ":>>", "::", ":>", ":=", "**", "..", "->", "==", "!=", "<=", ">=", "=>"].map String.toList

def shortSymbols : List Char :=
  ":;\x7b\x7d[](),=~.<>*#@+-/%!?&|^$".toList

/-- The text after the given one, if it begins with it. -/
def afterSymbol? : List Char → List Char → Option (List Char)
  | [], rest => some rest
  | _ :: _, [] => none
  | s :: symbol, c :: rest => if s = c then afterSymbol? symbol rest else none

def symbol? (text : List Char) : Option (List Char × List Char) :=
  match longSymbols.findSome? fun symbol => (afterSymbol? symbol text).map (symbol, ·) with
  | some found => some found
  | none =>
      match text with
      | c :: rest => if shortSymbols.contains c then some ([c], rest) else none
      | [] => none

def quoted? (quote : Char) (kind : TokenKind) : List Char → Option Lexeme
  | c :: rest =>
      if c = quote then
        (quoteEnd? quote rest).map fun (taken, rest) => ⟨.token kind, c :: taken, rest⟩
      else none
  | [] => none

def comment? : List Char → Option Lexeme
  | '/' :: '/' :: rest =>
      some ⟨.skipped, '/' :: '/' :: rest.takeWhile (· != '\n'), rest.dropWhile (· != '\n')⟩
  | '/' :: '*' :: rest =>
      match commentEnd? rest with
      | some (taken, rest) => some ⟨.token .comment, '/' :: '*' :: taken, rest⟩
      | none => some ⟨.openComment, ['/', '*'], rest⟩
  | _ => none

def number? (text : List Char) : Option Lexeme :=
  (run? Text.isDecimalDigit text).map fun (whole, rest) =>
    let (places, rest) := fraction rest
    let (power, rest) := exponent rest
    ⟨.token .number, whole ++ places ++ power, rest⟩

def word? : List Char → Option Lexeme
  | c :: rest =>
      if isNameStart c then
        some ⟨.token .word, c :: rest.takeWhile isNamePart, rest.dropWhile isNamePart⟩
      else none
  | [] => none

/-- What a text that is not empty begins with. -/
def lexeme (c : Char) (rest : List Char) : Lexeme :=
  let text := c :: rest
  if Text.isBlank c then
    ⟨.skipped, c :: rest.takeWhile Text.isBlank, rest.dropWhile Text.isBlank⟩
  else
    match comment? text <|> quoted? '\'' .name text <|> quoted? '"' .string text <|>
        number? text <|> word? text with
    | some found => found
    | none =>
        match symbol? text with
        | some (taken, rest) => ⟨.token .symbol, taken, rest⟩
        | none => ⟨.stray, [c], rest⟩

theorem commentEnd?_append {text taken rest : List Char}
    (found : commentEnd? text = some (taken, rest)) : taken ++ rest = text := by
  fun_induction commentEnd? text generalizing taken rest with
  | case1 => simp at found
  | case2 rest' => simp at found; obtain ⟨rfl, rfl⟩ := found; rfl
  | case3 c tail _ ih =>
    simp only [Option.map_eq_some_iff, Prod.exists] at found
    obtain ⟨t, r, inner, same⟩ := found
    cases same
    simp [ih inner]

theorem quoteEnd?_append {quote : Char} {text taken rest : List Char}
    (found : quoteEnd? quote text = some (taken, rest)) : taken ++ rest = text := by
  fun_induction quoteEnd? quote text generalizing taken rest with
  | case1 => simp at found
  | case2 => simp at found
  | case3 c tail ih =>
    simp only [Option.map_eq_some_iff, Prod.exists] at found
    obtain ⟨t, r, inner, same⟩ := found
    cases same
    simp [ih inner]
  | case4 => simp at found; obtain ⟨rfl, rfl⟩ := found; simp
  | case5 => simp at found
  | case6 c tail _ _ _ _ ih =>
    simp only [Option.map_eq_some_iff, Prod.exists] at found
    obtain ⟨t, r, inner, same⟩ := found
    cases same
    simp [ih inner]

theorem run?_append {p : Char → Bool} {text taken rest : List Char}
    (found : run? p text = some (taken, rest)) : taken ++ rest = text ∧ taken ≠ [] := by
  simp only [run?] at found
  split at found
  · simp at found
  · next nonempty =>
    cases found
    exact ⟨List.takeWhile_append_dropWhile, by simpa using nonempty⟩

theorem fraction_append (text : List Char) : (fraction text).1 ++ (fraction text).2 = text := by
  unfold fraction
  split
  · next rest =>
    split
    · next digits tail found => simp [(run?_append found).1]
    · rfl
  · rfl

theorem sign_append (text : List Char) : (sign text).1 ++ (sign text).2 = text := by
  unfold sign
  split <;> simp

theorem exponent_append (text : List Char) : (exponent text).1 ++ (exponent text).2 = text := by
  unfold exponent
  split
  · next e rest =>
    split
    · split
      · next digits tail found => simp [(run?_append found).1, sign_append]
      · rfl
    · rfl
  · rfl

theorem afterSymbol?_append {symbol text rest : List Char}
    (found : afterSymbol? symbol text = some rest) : symbol ++ rest = text := by
  fun_induction afterSymbol? symbol text with
  | case1 => simpa using found.symm
  | case2 => simp at found
  | case3 s symbol rest' ih => simp [ih found]
  | case4 => simp at found

theorem symbol?_append {text taken rest : List Char}
    (found : symbol? text = some (taken, rest)) : taken ++ rest = text := by
  unfold symbol? at found
  split at found
  · next pair searched =>
    cases found
    obtain ⟨symbol, _, stripped⟩ := List.exists_of_findSome?_eq_some searched
    simp only [Option.map_eq_some_iff, Prod.mk.injEq] at stripped
    obtain ⟨tail, cut, rfl, rfl⟩ := stripped
    exact afterSymbol?_append cut
  · split at found
    · split at found
      · cases found; rfl
      · simp at found
    · simp at found

theorem symbol?_ne_nil {text taken rest : List Char}
    (found : symbol? text = some (taken, rest)) : taken ≠ [] := by
  unfold symbol? at found
  split at found
  · next pair searched =>
    cases found
    obtain ⟨symbol, member, stripped⟩ := List.exists_of_findSome?_eq_some searched
    simp only [Option.map_eq_some_iff, Prod.mk.injEq] at stripped
    obtain ⟨_, _, rfl, _⟩ := stripped
    rintro rfl
    exact absurd member (by decide)
  · split at found
    · split at found
      · cases found; simp
      · simp at found
    · simp at found

/-- The parts of a lexeme make up the text, and something is taken. -/
def Lexeme.Cuts (found : Lexeme) (text : List Char) : Prop :=
  found.taken ++ found.rest = text ∧ found.taken ≠ []

theorem comment?_cuts {text : List Char} {found : Lexeme} (taken : comment? text = some found) :
    found.Cuts text := by
  unfold comment? at taken
  split at taken
  · cases taken; simp [Lexeme.Cuts]
  · split at taken
    · next inner => cases taken; simp [Lexeme.Cuts, commentEnd?_append inner]
    · cases taken; simp [Lexeme.Cuts]
  · simp at taken

theorem quoted?_cuts {quote : Char} {kind : TokenKind} {text : List Char} {found : Lexeme}
    (taken : quoted? quote kind text = some found) : found.Cuts text := by
  unfold quoted? at taken
  split at taken
  · split at taken
    · simp only [Option.map_eq_some_iff, Prod.exists] at taken
      obtain ⟨t, r, inner, same⟩ := taken
      cases same
      simp [Lexeme.Cuts, quoteEnd?_append inner]
    · simp at taken
  · simp at taken

theorem number?_cuts {text : List Char} {found : Lexeme} (taken : number? text = some found) :
    found.Cuts text := by
  simp only [number?, Option.map_eq_some_iff, Prod.exists] at taken
  obtain ⟨whole, rest, inner, same⟩ := taken
  obtain ⟨joined, nonempty⟩ := run?_append inner
  cases same
  refine ⟨?_, by simp [nonempty]⟩
  simp only [List.append_assoc, exponent_append, fraction_append, joined]

theorem word?_cuts {text : List Char} {found : Lexeme} (taken : word? text = some found) :
    found.Cuts text := by
  unfold word? at taken
  split at taken
  · split at taken
    · cases taken; simp [Lexeme.Cuts]
    · simp at taken
  · simp at taken

/-- Nothing is lost, and each step takes something. -/
theorem lexeme_cuts (c : Char) (rest : List Char) : (lexeme c rest).Cuts (c :: rest) := by
  unfold lexeme
  simp only
  split
  · simp [Lexeme.Cuts]
  · split
    · next found chosen =>
      simp only [Option.orElse_eq_orElse, Option.orElse_eq_or, Option.or_eq_some_iff] at chosen
      rcases chosen with h | ⟨-, h | ⟨-, h | ⟨-, h | ⟨-, h⟩⟩⟩⟩
      · exact comment?_cuts h
      · exact quoted?_cuts h
      · exact quoted?_cuts h
      · exact number?_cuts h
      · exact word?_cuts h
    · split
      · next taken rest' found => exact ⟨symbol?_append found, symbol?_ne_nil found⟩
      · simp [Lexeme.Cuts]

/-- The parts of a lexeme make up the text. -/
theorem lexeme_append (c : Char) (rest : List Char) :
    (lexeme c rest).taken ++ (lexeme c rest).rest = c :: rest :=
  (lexeme_cuts c rest).1

theorem lexeme_rest_length (c : Char) (rest : List Char) :
    (lexeme c rest).rest.length < (c :: rest).length := by
  have joined := lexeme_cuts c rest
  have lengths := congrArg List.length joined.1
  have taken := List.length_pos_iff.mpr joined.2
  simp only [List.length_append] at lengths
  omega

/-- What a scan meets: tokens, characters that begin none, and possibly a block
comment that is not closed. -/
inductive Scanned where
  | token (token : Token)
  | stray (c : Char) (span : Span)
  | openComment (span : Span)
  deriving DecidableEq, Repr, Inhabited

/-- The value of a token: quotes are taken off names and strings. -/
def tokenText (kind : TokenKind) (taken : List Char) : String :=
  match kind with
  | .name | .string => String.ofList (taken.drop 1).dropLast
  | _ => String.ofList taken

/-- What stands in a text whose first character stands at `place`. -/
def scanFrom (place : Position) (text : List Char) : List Scanned :=
  match text with
  | [] => []
  | c :: tail =>
      let found := lexeme c tail
      let next := place.after found.taken
      let span : Span := ⟨place, next⟩
      match found.kind with
      | .skipped => scanFrom next found.rest
      | .token kind => .token ⟨kind, tokenText kind found.taken, span⟩ :: scanFrom next found.rest
      | .openComment => [.openComment span]
      | .stray => .stray c span :: scanFrom next found.rest
termination_by text.length
decreasing_by all_goals exact lexeme_rest_length c tail

theorem scanFrom_nil (place : Position) : scanFrom place [] = [] :=
  scanFrom.eq_def place []

theorem scanFrom_step (place : Position) (c : Char) (tail : List Char) :
    scanFrom place (c :: tail) =
      let found := lexeme c tail
      let next := place.after found.taken
      let span : Span := ⟨place, next⟩
      match found.kind with
      | .skipped => scanFrom next found.rest
      | .token kind => .token ⟨kind, tokenText kind found.taken, span⟩ :: scanFrom next found.rest
      | .openComment => [.openComment span]
      | .stray => .stray c span :: scanFrom next found.rest :=
  scanFrom.eq_def place (c :: tail)

/-- The scan of a text, with the token that marks its end. -/
structure Scan where
  found : List Scanned
  stop : Token
  deriving DecidableEq, Repr, Inhabited

def scan (text : String) : Scan :=
  let chars := text.toList
  let stop := Position.after {} chars
  ⟨scanFrom {} chars, ⟨.stop, "", ⟨stop, stop⟩⟩⟩

/-- The tokens of a scan, without the one at the end. -/
def Scan.tokens (s : Scan) : List Token :=
  s.found.filterMap fun
    | .token token => some token
    | _ => none

end Sysml.Notation
