import Sysml.Decimal.Layout
import Sysml.Text.Blank
import Sysml.Text.DecimalDigit

/-!
# Reading numbers

Integers in a base and doubles, with blanks around them, a sign, and digits of
any script.
-/

set_option autoImplicit false

namespace Sysml.Decimal

def natOfDigits (digits : List Nat) : Nat :=
  digits.foldl (fun n digit => 10 * n + digit) 0

/-- The value of a digit in a base of at most sixteen. -/
def baseDigit? (base : Nat) (c : Char) : Option Nat :=
  let value :=
    if 'a' ≤ c && c ≤ 'f' then some (c.toNat - 87)
    else if 'A' ≤ c && c ≤ 'F' then some (c.toNat - 55)
    else Text.digitValue? c
  value.filter (· < base)

def baseMark (base : Nat) : Option Char :=
  match base with
  | 2 => some 'b'
  | 8 => some 'o'
  | 16 => some 'x'
  | _ => none

/-- The text after a base's mark, if it begins with it. -/
def afterMark (base : Nat) : List Char → List Char
  | '0' :: c :: rest =>
      match baseMark base with
      | some mark => if c == mark || c == mark.toUpper then rest else '0' :: c :: rest
      | none => '0' :: c :: rest
  | text => text

/-- A sign and the text after it; true for minus. -/
def sign : List Char → Bool × List Char
  | '-' :: rest => (true, rest)
  | '+' :: rest => (false, rest)
  | text => (false, text)

/-- The natural number that digits of a base spell; there must be one at least. -/
def natural? (base : Nat) (digits : List Char) : Option Nat := do
  let values ← digits.mapM (baseDigit? base)
  if values.isEmpty then none else some (values.foldl (fun n digit => base * n + digit) 0)

/-- An integer in a base; in base ten the number of its digits is limited. -/
def integer? (base : Nat) (text : List Char) : Option Int := do
  let (negative, rest) := sign (Text.trim text)
  if base = 10 ∧ digitLimit < rest.length then none
  else
    let magnitude ← natural? base (afterMark base rest)
    return if negative then -(magnitude : Int) else magnitude

def digitRun (text : List Char) : List Nat × List Char :=
  ((text.takeWhile Text.isDecimalDigit).filterMap Text.digitValue?,
    text.dropWhile Text.isDecimalDigit)

/-- The exponent that a text consists of; none is zero. -/
def exponent? : List Char → Option Int
  | [] => some 0
  | c :: rest =>
      if c = 'e' || c = 'E' then do
        let (negative, rest) := sign rest
        let magnitude ← natural? 10 rest
        return if negative then -(magnitude : Int) else magnitude
      else none

/-- The digits of a magnitude: whole part, places after the point, exponent. -/
def scientific? (text : List Char) : Option Scientific := do
  let (whole, rest) := digitRun text
  let (places, rest) :=
    match rest with
    | '.' :: rest => digitRun rest
    | _ => ([], rest)
  if whole.isEmpty && places.isEmpty then none
  else
    let exponent ← exponent? rest
    return ⟨natOfDigits (whole ++ places), exponent - places.length⟩

/-- A double: digits with a point or an exponent, or the word for an infinity or
for what is not a number. -/
def double? (text : List Char) : Option UInt64 :=
  let (negative, rest) := sign (Text.trim text)
  let word := rest.map Char.toLower
  if word = "inf".toList || word = "infinity".toList then
    some (if negative then 0xfff0000000000000 else 0x7ff0000000000000)
  else if word = "nan".toList then some 0x7ff8000000000000
  else (scientific? rest).map (nearestDouble negative)

end Sysml.Decimal
