import Sysml.Value

/-!
# The order of a set

A set shows its members in the order of the slots that they are kept in. There are
more than twice as many slots as members, and a number's value tells its slot; where
that one is taken, another one is tried. Members that are no numbers have no order of
their own: a set with one of them shows its members as they were put in.
-/

set_option autoImplicit false

namespace Sysml.Slots

/-- The prime by which the values of numbers are reduced. -/
def modulus : Nat :=
  Nat.pow 2 61 - 1

/-- The remainder of a fraction by the modulus: powers of two repeat after 61 of them. -/
def remainder (n : Int) (exponent : Int) : Nat :=
  n.natAbs % modulus * Nat.pow 2 (exponent.emod 61).toNat % modulus

/-- A remainder with its sign as a word; minus one is told from all others. -/
def word (isNegative : Bool) (remainder : Nat) : Nat :=
  if isNegative && remainder != 0 then
    Nat.pow 2 64 - (if remainder = 1 then 2 else remainder)
  else remainder

def wordOf? : Value → Option Nat
  | .bool b => some b.toNat
  | .int n => some (word (n < 0) (remainder n 0))
  | .double bits =>
      let isNegative := Decimal.isNegative bits
      if Decimal.isFinite bits then
        let (m, q) := Decimal.decode bits
        some (word isNegative (remainder m q))
      else if Decimal.isNaN bits then none
      else some (word isNegative 314159)
  | _ => none

/-- The number of slots for so many members: a power of two. -/
def count (members : Nat) : Nat :=
  if members < 5 then 8 else Nat.pow 2 ((2 * members).log2 + 1)

/-- The slots that are tried from one on: the next nine as well, if they are there. -/
def near (count slot : Nat) : List Nat :=
  if slot + 9 < count then (List.range 10).map (slot + ·) else [slot]

/-- The slot for a word: the first free one near that of its lowest bits, else near
others that its higher bits lead to. -/
def free? (slots : Array (Option Value)) : Nat → Nat → Nat → Option Nat
  | 0, _, _ => none
  | fuel + 1, slot, word =>
      match (near slots.size slot).find? fun slot => ((slots[slot]?).join).isNone with
      | some slot => some slot
      | none =>
          let word := word / 32
          free? slots fuel ((5 * slot + 1 + word) % slots.size) word

def put? (slots : Array (Option Value)) (member : Value) : Option (Array (Option Value)) := do
  let word ← wordOf? member
  let slot ← free? slots (slots.size + 64) (word % slots.size) word
  return slots.setIfInBounds slot (some member)

/-- The members in the order in which a set shows them. -/
def inOrder (members : List Value) : List Value :=
  match members.foldlM put? (Array.replicate (count members.length) none) with
  | some slots => slots.toList.filterMap id
  | none => members

end Sysml.Slots
