/-!
# Shortest decimals

The decimal with the fewest digits that reads back as a given double. A finite
double is `m * 2 ^ q`; the reals that round to it form an interval, closed
exactly when `m` is even. For one digit, two digits and so on, the two
neighbours of the value on that decimal grid are tried; the first grid with a
neighbour inside the interval wins, and of two the nearer.
-/

set_option autoImplicit false

namespace Sysml.Decimal

/-- The number `digits * 10 ^ exponent`. -/
structure Scientific where
  digits : Nat
  exponent : Int
  deriving DecidableEq, Repr

/-- The leading bit of a significand, which is not stored: 2 to the 52nd. -/
def hiddenBit : Nat :=
  0x10000000000000

def decode (bits : UInt64) : Nat × Int :=
  let field : Nat := bits.toNat / hiddenBit % 2048
  let fraction : Nat := bits.toNat % hiddenBit
  if field = 0 then (fraction, -1074) else (fraction + hiddenBit, (field : Int) - 1075)

def isNegative (bits : UInt64) : Bool :=
  bits.toNat / 0x8000000000000000 == 1

/-- The exponent field of infinities and of values that are no numbers is full. -/
def isFinite (bits : UInt64) : Bool :=
  bits.toNat / hiddenBit % 2048 != 2047

def isNaN (bits : UInt64) : Bool :=
  !isFinite bits && bits.toNat % hiddenBit != 0

/-- The interval of reals that round to a double, as quarter units of its last
binary place: the two ends, the value between them, and whether the ends belong
to it. -/
structure Interval where
  low : Nat
  value : Nat
  high : Nat
  closed : Bool

/-- Below a power of two the neighbouring double is half as far away. -/
def interval (m : Nat) (q : Int) : Interval :=
  { low := 4 * m - (if m = hiddenBit ∧ q ≠ -1074 then 1 else 2)
    value := 4 * m
    high := 4 * m + 2
    closed := m % 2 == 0 }

/-- The number of decimal digits of `n`, at least one. -/
def digitCount (n : Nat) : Nat :=
  (Nat.toDigits 10 n).length

/-- A value of the interval on the grid `10 ^ e`, when the quarter unit is `num / den`. -/
def Interval.onGrid? (i : Interval) (num den : Nat) (e : Int) : Option Nat :=
  let up := num * Nat.pow 10 (-e).toNat
  let down := den * Nat.pow 10 e.toNat
  let floor := i.value * up / down
  let fits (k : Nat) : Bool :=
    if i.closed then i.low * up ≤ k * down && k * down ≤ i.high * up
    else i.low * up < k * down && k * down < i.high * up
  match fits floor, fits (floor + 1) with
  | true, false => some floor
  | false, true => some (floor + 1)
  | false, false => none
  | true, true =>
      let below := i.value * up - floor * down
      let above := (floor + 1) * down - i.value * up
      if below < above then some floor
      else if above < below then some (floor + 1)
      else some (if floor % 2 = 0 then floor else floor + 1)

/-- The first grid that holds a value of the interval, from exponent `e` down. -/
def Interval.firstGrid (i : Interval) (num den : Nat) : Nat → Int → Scientific
  | 0, e => ⟨i.value * num * Nat.pow 10 (-e).toNat / (den * Nat.pow 10 e.toNat), e⟩
  | tries + 1, e =>
      match i.onGrid? num den e with
      | some digits => ⟨digits, e⟩
      | none => i.firstGrid num den tries (e - 1)

/-- The shortest decimal that reads back as the magnitude of a finite double. -/
def shortest (bits : UInt64) : Scientific :=
  let (m, q) := decode bits
  if m = 0 then ⟨0, 0⟩
  else
    let i := interval m q
    let num := Nat.pow 2 (q - 2).toNat
    let den := Nat.pow 2 (2 - q).toNat
    let top : Int := (digitCount (i.value * num) : Int) - digitCount den
    i.firstGrid num den 18 top

end Sysml.Decimal
