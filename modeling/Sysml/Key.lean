import Sysml.Value.Text

/-!
# Keys

What elements are known by and referred to: names and ids. Nearly all are texts.
Data may give another value in their place; it is kept, means whatever has an
equal one, and is written again as it was. Equal keys have one code
(`Key.beq_eq_code`), so comparing keys is an equivalence.
-/

set_option autoImplicit false

namespace Sysml

structure Key where
  value : Value
  deriving Repr, Inhabited

inductive Key.Code where
  | null
  | text (s : String)
  | bytes (octets : List UInt8)
  /-- A number, of whatever kind. -/
  | number (q : Rat)
  | infinity (isNegative : Bool)
  | notNumber
  /-- A timestamp that tells its distance from universal time, in microseconds. -/
  | instant (t : Int)
  | date (moment : Moment)
  | time (clock : ClockTime)
  | container (shown : String)
  deriving DecidableEq, Repr, Inhabited

namespace Key

@[match_pattern]
def text (s : String) : Key :=
  ⟨.text s⟩

instance : Coe String Key := ⟨text⟩

/-- The code of a key: its text, or its value where that may be given in several ways. -/
def code (key : Key) : Code :=
  match key.value.bare with
  | .null => .null
  | .text s => .text s
  | .bytes octets => .bytes octets
  | .date moment =>
      match moment.instant? with
      | some t => .instant t
      | none => .date moment
  | .time clock => .time clock
  | value =>
      match value.number? with
      | some (some n, d) => .number (mkRat n d)
      | some (none, d) => .infinity (d == 0)
      | none => if value.isNaN then .notNumber else .container value.inspect

/-- Whether two keys are equal: texts by their characters, numbers by their value. -/
def same (a b : Key) : Bool :=
  match a.value, b.value with
  | .text s, .text t => s == t
  | _, _ => a.code == b.code

instance : BEq Key := ⟨same⟩

theorem beq_eq_code (a b : Key) : (a == b) = (a.code == b.code) := by
  change a.same b = _
  unfold same
  split
  · next s t isFirst isSecond =>
    rw [Bool.eq_iff_iff]
    simp [code, isFirst, isSecond, Value.bare]
  · rfl

theorem beq_iff (a b : Key) : a == b ↔ a.code = b.code := by
  simp [beq_eq_code]

theorem text_inj {one other : String} (same : text one = text other) : one = other :=
  Value.text.inj (mk.inj same)

theorem text_beq (one other : String) : (text one == text other) = (one == other) := rfl

instance : EquivBEq Key where
  rfl := by simp [beq_eq_code]
  symm := by simp only [beq_iff]; exact Eq.symm
  trans := by simp only [beq_iff]; exact Eq.trans

def text? (key : Key) : Option String :=
  key.value.text?

theorem eq_text_of_text? {key : Key} {name : String} (isText : key.text? = some name) :
    key = text name := by
  obtain ⟨value⟩ := key
  cases value with
  | text s => exact congrArg text (Option.some.inj isText)
  | _ => cases isText

def isText (s : String) (key : Key) : Bool :=
  key.value.isText s

/-- An empty text, and what else counts as absent, is no key to go by. -/
def isAbsent (key : Key) : Bool :=
  key.value.isAbsent

def display (key : Key) : String :=
  key.value.display

/-- Whether something may be known by the key: a container may be held as one, and
nothing more. -/
def isProper (key : Key) : Bool :=
  key.value.isKey

def proper (key : Key) : Except Failure Key :=
  if key.isProper then .ok key else .error .wrongKind

def given? (key : Option Key) : Option Key :=
  key.filter fun key => !key.isAbsent

end Key

end Sysml
