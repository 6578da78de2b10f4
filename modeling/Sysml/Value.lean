import Sysml.Entries
import Sysml.Decimal.Layout

/-!
# Values

The values of the data formats. A document keeps what it does not interpret as
a value and writes it again; mappings keep the order of their entries and may
have any scalar as a key.
-/

set_option autoImplicit false

namespace Sysml

/-- The time of day of a timestamp; `offset` is the distance from universal time
in seconds. -/
structure ClockTime where
  hour : Nat
  minute : Nat
  second : Nat
  microsecond : Nat
  offset : Option Int
  deriving DecidableEq, Repr, Inhabited

/-- A calendar date, with a time of day when it is a timestamp. -/
structure Moment where
  year : Nat
  month : Nat
  day : Nat
  time : Option ClockTime
  deriving DecidableEq, Repr, Inhabited

/-- A value of a data format. A value that stands in several places is one value,
known by its label; inside of itself it stands as its label alone. -/
inductive Value where
  | null
  | bool (b : Bool)
  | int (n : Int)
  /-- A double, by its bits. -/
  | double (bits : UInt64)
  | text (s : String)
  | bytes (octets : List UInt8)
  | date (moment : Moment)
  /-- A time of day. -/
  | time (clock : ClockTime)
  | list (items : List Value)
  | map (entries : List (Value × Value))
  | set (members : List Value)
  | pair (first second : Value)
  /-- A value that stands in several places. -/
  | shared (label : Nat) (held : Value)
  /-- A place inside of a shared value where that value stands again. -/
  | again (label : Nat)
  deriving Repr, Inhabited

/-- The days before a day in the calendar that is extended to the first year. -/
def Moment.dayNumber (moment : Moment) : Nat :=
  let before := moment.year - 1
  let isLeap := moment.year % 4 = 0 ∧ (moment.year % 100 ≠ 0 ∨ moment.year % 400 = 0)
  let months := [0, 31, 59, 90, 120, 151, 181, 212, 243, 273, 304, 334]
  365 * before + before / 4 - before / 100 + before / 400 + months.getD (moment.month - 1) 0 +
    (if isLeap ∧ 2 < moment.month then 1 else 0) + moment.day

/-- The microsecond in universal time, for a timestamp that tells its distance
from it. -/
def Moment.instant? (moment : Moment) : Option Int := do
  let time ← moment.time
  let offset ← time.offset
  let seconds := ((moment.dayNumber * 24 + time.hour) * 60 + time.minute) * 60 + time.second
  return ((seconds : Int) - offset) * 1000000 + time.microsecond

/-- Dates are the same when they are written the same; timestamps in universal
time when they are the same instant. -/
def Moment.same (a b : Moment) : Bool :=
  a == b || (a.instant?.isSome && a.instant? == b.instant?)

namespace Value

def bare : Value → Value
  | .shared _ held => held.bare
  | value => value

mutual

/-- The value with `whole` in the places where the value of the label stands
again. -/
def fill (label : Nat) (whole : Value) : Value → Value
  | .again other => if other == label then whole else .again other
  | .shared other held => .shared other (fill label whole held)
  | .list items => .list (fillItems label whole items)
  | .map entries => .map (fillEntries label whole entries)
  | .set members => .set (fillItems label whole members)
  | .pair first second => .pair (fill label whole first) (fill label whole second)
  | value => value

def fillItems (label : Nat) (whole : Value) : List Value → List Value
  | [] => []
  | item :: rest => fill label whole item :: fillItems label whole rest

def fillEntries (label : Nat) (whole : Value) : List (Value × Value) → List (Value × Value)
  | [] => []
  | (key, held) :: rest =>
      (fill label whole key, fill label whole held) :: fillEntries label whole rest

end

/-- The value without its label, for taking it apart: what is inside of it and
refers to it holds it whole. -/
def opened : Value → Value
  | .shared label held => fill label (.shared label held) held
  | value => value

def object (entries : List (String × Value)) : Value :=
  .map (entries.map fun entry => (.text entry.1, entry.2))

/-- An exact fraction or an infinity, for comparing numbers of different kinds. -/
def number? : Value → Option (Option Int × Nat)
  | .bool b => some (some (if b then 1 else 0), 1)
  | .int n => some (some n, 1)
  | .double bits =>
      if Decimal.isNaN bits then none
      else if Decimal.isFinite bits then
        let (m, q) := Decimal.decode bits
        let scaled : Int := m * Nat.pow 2 q.toNat
        some (some (if Decimal.isNegative bits then -scaled else scaled), Nat.pow 2 (-q).toNat)
      else some (none, if Decimal.isNegative bits then 0 else 1)
  | _ => none

/-- Two numbers are the same when their values are, whatever their kinds. -/
def sameNumber : Option Int × Nat → Option Int × Nat → Bool
  | (some a, m), (some b, n) => a * n == b * m
  | (none, m), (none, n) => m == n
  | _, _ => false

def isNaN : Value → Bool
  | .double bits => Decimal.isNaN bits
  | _ => false

/-- Equality of values that hold no others. What is no number is the same as
itself. -/
def sameScalar : Value → Value → Bool
  | .null, .null => true
  | .text a, .text b => a == b
  | .bytes a, .bytes b => a == b
  | .date a, .date b => a.same b
  | .time a, .time b => a == b
  | .again a, .again b => a == b
  | a, b =>
      match number? a, number? b with
      | some x, some y => sameNumber x y
      | _, _ => isNaN a && isNaN b

mutual

/-- Equality of values: numbers by value, texts by their characters, containers
by their contents; the order of a mapping's entries does not matter. -/
def same : Value → Value → Bool
  | .shared _ a, b => same a b
  | .list a, other =>
      match other.bare with
      | .list b => sameItems a b
      | _ => false
  | .map a, other =>
      match other.bare with
      | .map b => a.length == b.length && sameEntries a b
      | _ => false
  | .set a, other =>
      match other.bare with
      | .set b => a.length == b.length && sameMembers a b
      | _ => false
  | .pair a b, other =>
      match other.bare with
      | .pair c d => same a c && same b d
      | _ => false
  | a, other => sameScalar a other.bare

def sameItems : List Value → List Value → Bool
  | [], [] => true
  | a :: as, b :: bs => same a b && sameItems as bs
  | _, _ => false

def sameEntries : List (Value × Value) → List (Value × Value) → Bool
  | [], _ => true
  | (key, value) :: rest, others =>
      others.any (fun other => same key other.1 && same value other.2) && sameEntries rest others

/-- Each member of the first set has an equal member in the second. -/
def sameMembers : List Value → List Value → Bool
  | [], _ => true
  | a :: rest, others => others.any (fun other => same a other) && sameMembers rest others

end

instance : BEq Value := ⟨same⟩

/-- Texts are equal by their characters. -/
theorem text_beq (s t : String) : (Value.text s == .text t) = (s == t) := by
  change same (.text s) (.text t) = _
  simp [same, sameScalar, bare]

def entries? (value : Value) : Option (List (Value × Value)) :=
  match value.opened with
  | .map entries => some entries
  | _ => none

def items? (value : Value) : Option (List Value) :=
  match value.opened with
  | .list items => some items
  | _ => none

def field? (key : String) (value : Value) : Option Value :=
  value.entries?.bind fun entries => entries.lookup (.text key)

def isText (s : String) : Value → Bool
  | .text t => t == s
  | _ => false

def text? : Value → Option String
  | .text s => some s
  | _ => none

/-- Null, false, zero and whatever is empty count as absent. -/
def isAbsent : Value → Bool
  | .null => true
  | .bool b => !b
  | .int n => n == 0
  | .double bits => bits.toNat % 0x8000000000000000 == 0
  | .text s => s.isEmpty
  | .bytes octets => octets.isEmpty
  | .date _ | .time _ => false
  | .list items => items.isEmpty
  | .map entries => entries.isEmpty
  | .set members => members.isEmpty
  | .pair _ _ => false
  | .shared _ held => held.isAbsent
  | .again _ => false

def kindName : Value → String
  | .null => "NoneType"
  | .bool _ => "bool"
  | .int _ => "int"
  | .double _ => "float"
  | .text _ => "str"
  | .bytes _ => "bytes"
  | .date moment => if moment.time.isSome then "datetime" else "date"
  | .time _ => "time"
  | .list _ => "list"
  | .map _ => "dict"
  | .set _ => "set"
  | .pair _ _ => "tuple"
  | .shared _ held => held.kindName
  | .again _ => "object"

/-- Whether the value can be a mapping's key: scalars can, containers that may
change cannot. -/
def isKey : Value → Bool
  | .list _ | .map _ | .set _ | .again _ => false
  | .pair first second => isKey first && isKey second
  | .shared _ held => isKey held
  | _ => true

mutual

/-- Whether the value can be written: no integer in it is too long for a text, and
no time of day stands without its date. -/
def isWritable : Value → Bool
  | .int n => Decimal.hasText n
  | .time _ => false
  | .list items => areWritable items
  | .map entries => entriesWritable entries
  | .set members => areWritable members
  | .pair first second => isWritable first && isWritable second
  | .shared _ held => isWritable held
  | _ => true

def areWritable : List Value → Bool
  | [] => true
  | item :: rest => isWritable item && areWritable rest

def entriesWritable : List (Value × Value) → Bool
  | [] => true
  | (key, held) :: rest => isWritable key && isWritable held && entriesWritable rest

end

end Value

end Sysml
