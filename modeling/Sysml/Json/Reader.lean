import Sysml.Value

/-!
# Reading JSON

JSON text to values. Besides the standard, `NaN`, `Infinity` and `-Infinity`
are read. Of several entries with one key the last wins, in the first one's
place.
-/

set_option autoImplicit false

namespace Sysml.Json

inductive Fault where
  /-- The text is no JSON. -/
  | malformed
  /-- An integer has too many digits. -/
  | longNumber
  deriving DecidableEq, Repr, Inhabited

/-- What has to be there, or else the text is malformed. -/
def required {α : Type} : Option α → Except Fault α
  | none => .error .malformed
  | some value => .ok value

def isSpace (c : Char) : Bool :=
  c == ' ' || c == '\t' || c == '\n' || c == '\r'

def skipSpace (text : List Char) : List Char :=
  text.dropWhile isSpace

/-- The text after a word it begins with. -/
def after? : List Char → List Char → Option (List Char)
  | [], rest => some rest
  | _ :: _, [] => none
  | w :: word, c :: rest => if w = c then after? word rest else none

def hexValue? (c : Char) : Option Nat :=
  if '0' ≤ c ∧ c ≤ '9' then some (c.toNat - 48)
  else if 'a' ≤ c ∧ c ≤ 'f' then some (c.toNat - 87)
  else if 'A' ≤ c ∧ c ≤ 'F' then some (c.toNat - 55)
  else none

def unit? : List Char → Option (Nat × List Char)
  | a :: b :: c :: d :: rest => do
      let a ← hexValue? a
      let b ← hexValue? b
      let c ← hexValue? c
      let d ← hexValue? d
      return (((a * 16 + b) * 16 + c) * 16 + d, rest)
  | _ => none

/-- The character of an escape's code unit, joined with a second one when both
halves of a pair are there; half a pair alone becomes the replacement
character. -/
def escapedChar (unit : Nat) (rest : List Char) : Char × List Char :=
  if 0xd800 ≤ unit ∧ unit < 0xdc00 then
    match rest with
    | '\\' :: 'u' :: more =>
        match unit? more with
        | some (low, more) =>
            if 0xdc00 ≤ low ∧ low < 0xe000 then
              (Char.ofNat (0x10000 + (unit - 0xd800) * 0x400 + (low - 0xdc00)), more)
            else (Char.ofNat 0xfffd, rest)
        | none => (Char.ofNat 0xfffd, rest)
    | _ => (Char.ofNat 0xfffd, rest)
  else if 0xdc00 ≤ unit ∧ unit < 0xe000 then (Char.ofNat 0xfffd, rest)
  else (Char.ofNat unit, rest)

/-- A character that a backslash stands before, but for `u`. -/
def simpleEscape? (c : Char) : Option Char :=
  match c with
  | '"' => some '"'
  | '\\' => some '\\'
  | '/' => some '/'
  | 'b' => some (Char.ofNat 8)
  | 'f' => some (Char.ofNat 12)
  | 'n' => some '\n'
  | 'r' => some '\r'
  | 't' => some '\t'
  | _ => none

/-- The characters of a string after its opening quote; `read` holds those
already read, last first. -/
def stringBody : Nat → List Char → List Char → Option (String × List Char)
  | 0, _, _ => none
  | _ + 1, _, [] => none
  | fuel + 1, read, c :: rest =>
      if c = '"' then some (String.ofList read.reverse, rest)
      else if c = '\\' then
        match rest with
        | 'u' :: more => do
            let (unit, more) ← unit? more
            let (escaped, more) := escapedChar unit more
            stringBody fuel (escaped :: read) more
        | e :: more => do
            let escaped ← simpleEscape? e
            stringBody fuel (escaped :: read) more
        | [] => none
      else if c.toNat < 0x20 then none
      else stringBody fuel (c :: read) rest

def isDigit (c : Char) : Bool :=
  '0' ≤ c && c ≤ '9'

def natOfDigits (digits : List Char) : Nat :=
  digits.foldl (fun n c => 10 * n + (c.toNat - 48)) 0

/-- An exponent part, if the text begins with one. -/
def exponent? : List Char → Option (Int × List Char)
  | e :: rest =>
      if e = 'e' ∨ e = 'E' then
        let (negative, digits) :=
          match rest with
          | '-' :: more => (true, more)
          | '+' :: more => (false, more)
          | _ => (false, rest)
        let run := digits.takeWhile isDigit
        if run.isEmpty then none
        else
          let n : Int := natOfDigits run
          some (if negative then -n else n, digits.dropWhile isDigit)
      else none
  | [] => none

/-- A fraction part, if the text begins with one. -/
def fraction? : List Char → Option (List Char × List Char)
  | '.' :: rest =>
      let run := rest.takeWhile isDigit
      if run.isEmpty then none else some (run, rest.dropWhile isDigit)
  | _ => none

/-- The sign and the digits of a number's whole part, and what follows them; a zero
in front stands alone. -/
def whole? (text : List Char) : Option (Bool × List Char × List Char) :=
  let (negative, rest) :=
    match text with
    | '-' :: rest => (true, rest)
    | _ => (false, text)
  match rest with
  | '0' :: more => some (negative, ['0'], more)
  | _ =>
      let run := rest.takeWhile isDigit
      if run.isEmpty then none else some (negative, run, rest.dropWhile isDigit)

/-- A number: an integer unless it has a fraction or an exponent. -/
def number (text : List Char) : Except Fault (Value × List Char) := do
  let (negative, digits, rest) ← required (whole? text)
  match fraction? rest, exponent? rest with
  | none, none =>
      if Decimal.digitLimit < digits.length then .error .longNumber
      else
        let n : Int := natOfDigits digits
        .ok (.int (if negative then -n else n), rest)
  | none, some (e, rest) =>
      .ok (.double (Decimal.nearestDouble negative ⟨natOfDigits digits, e⟩), rest)
  | some (places, rest), _ =>
      let (e, rest) := (exponent? rest).getD (0, rest)
      .ok (.double (Decimal.nearestDouble negative
        ⟨natOfDigits (digits ++ places), e - places.length⟩), rest)

def infinity : UInt64 :=
  0x7ff0000000000000

/-- A word that stands for a value, or a number. -/
def scalar (text : List Char) : Except Fault (Value × List Char) :=
  let words : List (String × Value) :=
    [("null", .null), ("true", .bool true), ("false", .bool false),
      ("NaN", .double 0x7ff8000000000000), ("Infinity", .double infinity),
      ("-Infinity", .double 0xfff0000000000000)]
  match words.findSome? fun word => (after? word.1.toList text).map (word.2, ·) with
  | some found => .ok found
  | none => number text

mutual

/-- A value at the front of a text that has no leading white space. -/
def value : Nat → List Char → Except Fault (Value × List Char)
  | 0, _ => .error .malformed
  | fuel + 1, text =>
      match text with
      | '"' :: rest => do
          let (read, rest) ← required (stringBody (rest.length + 1) [] rest)
          return (.text read, rest)
      | '[' :: rest =>
          match skipSpace rest with
          | ']' :: rest => .ok (.list [], rest)
          | rest => items fuel [] rest
      | '{' :: rest =>
          match skipSpace rest with
          | '}' :: rest => .ok (.map [], rest)
          | rest => members fuel [] rest
      | _ => scalar text

/-- The items of a list that has at least one more. -/
def items : Nat → List Value → List Char → Except Fault (Value × List Char)
  | 0, _, _ => .error .malformed
  | fuel + 1, read, text => do
      let (item, rest) ← value fuel text
      match skipSpace rest with
      | ',' :: rest => items fuel (item :: read) (skipSpace rest)
      | ']' :: rest => .ok (.list (item :: read).reverse, rest)
      | _ => .error .malformed

/-- The members of an object that has at least one more. -/
def members : Nat → List (Value × Value) → List Char → Except Fault (Value × List Char)
  | 0, _, _ => .error .malformed
  | fuel + 1, read, text =>
      match text with
      | '"' :: rest => do
          let (key, rest) ← required (stringBody (rest.length + 1) [] rest)
          match skipSpace rest with
          | ':' :: rest =>
              let (held, rest) ← value fuel (skipSpace rest)
              let read := Entries.put (.text key) held read
              match skipSpace rest with
              | ',' :: rest => members fuel read (skipSpace rest)
              | '}' :: rest => .ok (.map read, rest)
              | _ => .error .malformed
          | _ => .error .malformed
      | _ => .error .malformed

end

def read (text : String) : Except Fault Value := do
  let chars := text.toList
  let (read, rest) ← value (2 * chars.length + 2) (skipSpace chars)
  if (skipSpace rest).isEmpty then .ok read else .error .malformed

end Sysml.Json
