import Sysml.Decimal.Shortest

/-!
# Layout of decimals

How a double is written: which magnitudes are written positionally, how the
exponent looks, and the spellings of the values that are no finite numbers.
-/

set_option autoImplicit false

namespace Sysml.Decimal

/-- The choices a format makes when it writes a double. -/
structure Layout where
  /-- Written in front of an exponent when the digits have no point. -/
  pointBeforeExponent : String
  infinity : String
  minusInfinity : String
  notANumber : String

def digitLimit : Nat :=
  4300

def hasText (n : Int) : Bool :=
  n.natAbs < Nat.pow 10 digitLimit

def zeros (n : Nat) : List Char :=
  List.replicate n '0'

/-- The digits of a decimal and the place of its point: the value is
`0.d₁d₂… * 10 ^ place`. Trailing zeros of the digits are dropped. -/
def digitsAndPlace (s : Scientific) : List Char × Int :=
  let digits := Nat.toDigits 10 s.digits
  let kept := (digits.reverse.dropWhile (· == '0')).reverse
  (if kept.isEmpty then ['0'] else kept, s.exponent + digits.length)

/-- An exponent with a sign and at least two digits. -/
def exponentText (e : Int) : List Char :=
  let digits := Nat.toDigits 10 e.natAbs
  (if e < 0 then '-' else '+') :: zeros (2 - digits.length) ++ digits

/-- A decimal, positional when its point lies between four places before and
sixteen places after its first digit. -/
def Layout.magnitude (layout : Layout) (s : Scientific) : List Char :=
  let (digits, place) := digitsAndPlace s
  if s.digits = 0 then "0.0".toList
  else if place ≤ -4 ∨ 16 < place then
    let head := digits.take 1
    let tail := digits.drop 1
    head ++ (if tail.isEmpty then layout.pointBeforeExponent.toList else '.' :: tail) ++
      'e' :: exponentText (place - 1)
  else if place ≤ 0 then '0' :: '.' :: zeros (-place).toNat ++ digits
  else if digits.length ≤ place.toNat then
    digits ++ zeros (place.toNat - digits.length) ++ ['.', '0']
  else digits.take place.toNat ++ '.' :: digits.drop place.toNat

def Layout.text (layout : Layout) (bits : UInt64) : String :=
  if isNaN bits then layout.notANumber
  else if isFinite bits then
    String.ofList ((if isNegative bits then ['-'] else []) ++ layout.magnitude (shortest bits))
  else if isNegative bits then layout.minusInfinity
  else layout.infinity

/-- The plain layout: `1e-05`, `1e+16`, `inf`, `nan`. -/
def Layout.plain : Layout :=
  ⟨"", "inf", "-inf", "nan"⟩

/-- The double nearest to `digits * 10 ^ exponent`; a magnitude beyond every
double is infinite and one far below is zero. -/
def nearestDouble (negative : Bool) (s : Scientific) : UInt64 :=
  let scale := (digitCount s.digits : Int) + s.exponent
  let magnitude : Float :=
    if s.digits = 0 ∨ scale < -400 then 0.0
    else if 400 < scale then 1.0 / 0.0
    else if s.exponent < 0 then Float.ofScientific s.digits true s.exponent.natAbs
    else Float.ofScientific s.digits false s.exponent.natAbs
  (if negative then -magnitude else magnitude).toBits

end Sysml.Decimal
