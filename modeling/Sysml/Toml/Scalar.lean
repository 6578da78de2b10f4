import Sysml.Decimal.Reader
import Sysml.Toml.Lines
import Sysml.Value.Moment

/-!
# TOML strings, numbers and dates

The values that hold no others. A number is written with care: no zero in front,
and underscores between digits only. Dates and times of day have fixed places
for their digits; what follows the seconds is a fraction, a distance from
universal time, or nothing.
-/

set_option autoImplicit false

namespace Sysml.Toml

def has (mark : String) (text : List Char) : Bool :=
  1 < (pieces mark text).length

/-! ## Strings -/

/-- A backslash at the end of a text stands for itself unless it is the second of
a pair. -/
def endsEscaped (text : List Char) : Bool :=
  Layout.isEscaped text.reverse

/-- Whether something follows the closing quote. `closed` tells whether the string
was closed before, and `empty` how many empty pieces of a long one were passed
since the last piece with characters. -/
def hasTail (long : Bool) : Bool → Nat → List (List Char) → Bool
  | _, _, [] => false
  | closed, empty, piece :: rest =>
      if piece.isEmpty then
        if long then hasTail long closed (empty + 1) rest else hasTail long true empty rest
      else if endsEscaped piece then hasTail long closed empty rest
      else if closed then true
      else if !long || 1 < empty then hasTail long true empty rest
      else hasTail long closed 0 rest

def escapes : List (Char × Char) :=
  [('0', Char.ofNat 0), ('b', Char.ofNat 8), ('f', Char.ofNat 12), ('n', '\n'), ('r', '\r'),
    ('t', '\t'), ('"', '"')]

/-- The pieces of a text after its backslashes begin with characters that may
stand there. `paired` tells of the second backslash of a pair. -/
def allowsEscapes (paired : Bool) : List (List Char) → Bool
  | [] => true
  | [] :: rest => allowsEscapes (!paired) rest
  | (c :: _) :: rest =>
      ((escapes.lookup c).isSome || c == 'u' || c == 'U' || paired) && allowsEscapes false rest

def isHexDigit (c : Char) : Bool :=
  ('0' ≤ c && c ≤ '9') || ('a' ≤ c && c ≤ 'f') || ('A' ≤ c && c ≤ 'F')

/-- The character of a code in hexadecimal digits. A code that begins with a `d`
and a digit above seven is that of no character. -/
def codeCharacter (digits : List Char) : Except Fault Char := do
  if !digits.all isHexDigit then throw .malformed
  match digits with
  | [] => throw .cut
  | [d] => if d = 'd' || d = 'D' then throw .cut
  | d :: next :: _ =>
      if (d = 'd' || d = 'D') && !('0' ≤ next && next ≤ '7') then throw .malformed
  let code := (Decimal.natural? 16 digits).getD 0
  if 0x7fffffff < code then throw .overflow
  else if (Char.ofNat code).toNat = code then return Char.ofNat code
  else throw .malformed

/-- Puts the characters of codes in so many digits after a text: each piece begins
with a code. Where the text before a piece ends in a backslash of its own, the
piece is kept as it is. -/
def addCodes (mark : String) (width : Nat) (read : List Char) (escaped : Bool) :
    List (List Char) → Except Fault (List Char)
  | [] => .ok read
  | piece :: rest =>
      if escaped then
        addCodes mark width (read ++ mark.toList ++ piece) (endsEscaped piece) rest
      else do
        let c ← codeCharacter (piece.take width)
        addCodes mark width (read ++ c :: piece.drop width) false rest

def readCodes (mark : String) (width : Nat) (text : List Char) : Except Fault (List Char) :=
  match pieces mark text with
  | [] => .ok text
  | read :: rest => addCodes mark width read (endsEscaped read) rest

def readEscapes : List Char → Except Fault (List Char)
  | '\\' :: c :: rest =>
      match escapes.lookup c with
      | some c => (c :: ·) <$> readEscapes rest
      | none =>
          if c = '\\' then ('\\' :: ·) <$> readEscapes rest
          else if c = 'u' || c = 'U' then ('\\' :: c :: ·) <$> readEscapes rest
          else .error .malformed
  | c :: rest => (c :: ·) <$> readEscapes rest
  | [] => .ok []

/-- The inner characters of a string, without the quotes at either end: three of
them if it begins with three, or is empty. -/
def withoutQuotes (quote : Char) (text : List Char) : List Char :=
  match text with
  | _ :: second :: rest =>
      if second = quote && (rest.isEmpty || rest.head? = some quote) then
        (rest.dropLast.dropLast.drop 1).dropLast
      else (second :: rest).dropLast
  | _ => []

def string (quote : Char) (text : List Char) : Except Fault String := do
  let (long, tail) :=
    match pieces (String.singleton quote) (text.drop 1) with
    | [] :: [] :: tail => (true, tail)
    | tail => (false, tail)
  if hasTail long false 0 tail then throw .malformed
  if quote = '\'' then return String.ofList (withoutQuotes quote text)
  if !allowsEscapes false ((pieces "\\" text).drop 1) then throw .malformed
  let text ← readCodes "\\u" 4 text
  let text ← readCodes "\\U" 8 text
  return String.ofList (withoutQuotes quote (← readEscapes text))

/-! ## Numbers -/

def withoutUnderscores? (afterDigit : Bool) : List Char → Option (List Char)
  | [] => some []
  | '_' :: c :: rest =>
      if afterDigit && Text.isDecimalDigit c then (c :: ·) <$> withoutUnderscores? true rest
      else none
  | c :: rest =>
      if c = '_' then none
      else (c :: ·) <$> withoutUnderscores? (Text.isDecimalDigit c) rest

def digits? (text : List Char) : Option Int :=
  (withoutUnderscores? false text).bind (Decimal.integer? 10)

def isNumber (text : List Char) : Bool :=
  ((withoutUnderscores? false text).bind Decimal.double?).isSome

/-- A number has no zero in front, and its underscores stand between digits. -/
def isStrict (text : List Char) : Bool :=
  match Text.trim text with
  | [] => false
  | [c] => c != '_'
  | first :: second :: rest =>
      let text := first :: second :: rest
      let isSigned := first == '+' || first == '-'
      let plain := if isSigned then second :: rest else text
      first != '_' && text.getLast? != some '_' && !has "_." text && !has "._" text &&
        !(first == '0' && !".obx".toList.contains second) &&
        !(isSigned && second == '0' && !rest.isEmpty && rest.head? != some '.') &&
        !has "__" plain

/-- The whole number of digits in the base that their front tells: a zero and a
letter, or ten. -/
def whole? (text : List Char) : Option Int :=
  let (negative, digits) := Decimal.sign (Text.trim text)
  let number :=
    match digits with
    | '0' :: c :: _ =>
        if c = 'x' || c = 'X' then Decimal.integer? 16 digits
        else if c = 'o' || c = 'O' then Decimal.integer? 8 digits
        else if c = 'b' || c = 'B' then Decimal.integer? 2 digits
        else if digits.all (· == '0') then some 0
        else none
    | c :: _ => if Text.isDecimalDigit c then Decimal.integer? 10 digits else none
    | [] => none
  number.map fun n => if negative then -n else n

/-- A double with its sign changed; zero has none. -/
def negated (bits : UInt64) : UInt64 :=
  if bits = 0 || Decimal.isNaN bits then bits else bits ^^^ 0x8000000000000000

/-- A number: whole unless it has a point or an exponent. -/
def number? (text : List Char) : Option Value := do
  let (negative, rest) := Decimal.sign text
  let digits := rest.filter (· != '_')
  let isWord := ["inf", "nan"].contains (String.ofList (digits.map Char.toLower))
  let hasPoint := digits.contains '.'
  if hasPoint || (!digits.contains 'x' && (digits.contains 'e' || digits.contains 'E')) then
    if hasPoint && ((digits.dropWhile (· != '.')).drop 1).isEmpty then none
    else if !digits.head?.any Char.isDigit then none
    else
      let bits ← Decimal.double? digits
      return .double (if negative then negated bits else bits)
  else if isWord then
    let bits ← Decimal.double? digits
    return .double (if negative then negated bits else bits)
  else
    let n ← whole? digits
    return .int (if negative then -n else n)

/-! ## Dates -/

def numberAt (first width : Nat) (text : List Char) : Option Nat := do
  let n ← digits? ((text.drop first).take width)
  if n < 0 then none else some n.toNat

/-- The distance from universal time in seconds: a `Z`, or a sign, two digits for
the hours, any character, and two for the minutes. -/
def zone? (text : List Char) : Option Int := do
  if text = ['Z'] then return 0
  let hours ← digits? ((text.drop 1).take 2)
  let minutes ← digits? ((text.drop 4).take 2)
  let seconds := hours * 3600 + minutes * 60
  return if text.head? = some '-' then -seconds else seconds

def fraction? (text : List Char) : Option Int := do
  let n ← digits? text
  if text.length ≤ 6 then return n * ((Nat.pow 10 (6 - text.length) : Nat) : Int)
  else return n.tdiv ((Nat.pow 10 (text.length - 6) : Nat) : Int)

def splitZone (text : List Char) : List Char × Option (List Char) :=
  if text.getLast?.any fun c => c == 'Z' || c == 'z' then (text.dropLast, some ['Z'])
  else
    let sign := if text.contains '+' then '+' else '-'
    let fraction := text.takeWhile (· != sign)
    if text.contains sign then (fraction, some (text.drop fraction.length)) else (text, none)

/-- The microseconds and the zone after the seconds; what is neither counts as
nothing. -/
def afterSeconds (text : List Char) : Int × Option Int :=
  match text with
  | [] => (0, none)
  | '.' :: rest =>
      let (fraction, zone) := splitZone rest
      match zone.mapM zone?, fraction? fraction with
      | some zone, some microseconds => (microseconds, zone)
      | _, _ => (0, none)
  | rest => (0, zone? rest)

def moment? (text : List Char) : Option Moment := do
  if !(text.drop 1).contains '-' then none
  let year ← numberAt 0 4 text
  let month ← numberAt 5 2 text
  let day ← numberAt 8 2 text
  let time ←
    if text.length = 10 then pure none
    else do
      let hour ← numberAt 11 2 text
      let minute ← numberAt 14 2 text
      let second ← numberAt 17 2 text
      let (microseconds, offset) := afterSeconds (text.drop 19)
      if hour < 24 ∧ minute < 60 ∧ second < 60 ∧ 0 ≤ microseconds ∧ microseconds < 1000000 then
        pure (some
          ({ hour, minute, second, microsecond := microseconds.toNat, offset } : ClockTime))
      else none
  if 1 ≤ year ∧ 1 ≤ month ∧ month ≤ 12 ∧ 1 ≤ day ∧ day ≤ Moment.daysOfMonth year month then
    some { year, month, day, time }
  else none

/-- The hour, minute, second and microsecond at the front of a text, if a time of
day is written there. -/
def clockAt? (text : List Char) : Option (Nat × Nat × Nat × Nat) :=
  match text with
  | a :: b :: ':' :: c :: d :: ':' :: e :: f :: rest =>
      if [a, b, c, d, e, f].all Char.isDigit then
        let fraction :=
          match rest with
          | '.' :: digits => (digits.takeWhile Char.isDigit).take 6
          | _ => []
        some (Moment.number [a, b], Moment.number [c, d], Moment.number [e, f],
          if fraction.length < 3 then 0 else Moment.number fraction)
      else none
  | _ => none

/-- The value of a word: a time of day, a date or a number. -/
def word (isStrict : Bool) (text : List Char) : Except Fault Value :=
  match clockAt? text with
  | some (hour, minute, second, microsecond) =>
      if hour < 24 ∧ minute < 60 ∧ second < 60 then
        .ok (.time { hour, minute, second, microsecond, offset := none })
      else .error .malformed
  | none =>
      match moment? text with
      | some moment => .ok (.date moment)
      | none =>
          match if isStrict then number? text else none with
          | some value => .ok value
          | none => .error .malformed

end Sysml.Toml
