import Sysml.Failure
import Sysml.Text.Quoted
import Sysml.Value

/-!
# The text of a value

How values appear inside messages and where a format wants text: a text on its
own is written as it is, inside a container it is quoted.
-/

set_option autoImplicit false

namespace Sysml

/-- A number with at least `width` digits. -/
def paddedNat (width n : Nat) : String :=
  let digits := Nat.toDigits 10 n
  String.ofList (List.replicate (width - digits.length) '0' ++ digits)

namespace Moment

/-- The offset from universal time: sign, hours, minutes and, if any, seconds. -/
def offsetText (offset : Int) : String :=
  let n := offset.natAbs
  let seconds := n % 60
  (if offset < 0 then "-" else "+") ++ paddedNat 2 (n / 3600) ++ ":" ++ paddedNat 2 (n / 60 % 60) ++
    (if seconds = 0 then "" else ":" ++ paddedNat 2 seconds)

def clockText (time : ClockTime) : String :=
  paddedNat 2 time.hour ++ ":" ++ paddedNat 2 time.minute ++ ":" ++ paddedNat 2 time.second ++
    (if time.microsecond = 0 then "" else "." ++ paddedNat 6 time.microsecond) ++
    (match time.offset with
    | none => ""
    | some offset => offsetText offset)

/-- The written form of a date or timestamp; `between` stands between the date
and the time. -/
def iso (between : String) (moment : Moment) : String :=
  let day := paddedNat 4 moment.year ++ "-" ++ paddedNat 2 moment.month ++ "-" ++
    paddedNat 2 moment.day
  match moment.time with
  | none => day
  | some time => day ++ between ++ clockText time

def zoneCall (offset : Int) : String :=
  if offset = 0 then "datetime.timezone.utc"
  else
    let days := offset / 86400
    let seconds := offset % 86400
    "datetime.timezone(datetime.timedelta(" ++
      (if days = 0 then "" else "days=" ++ toString days ++ ", ") ++
      "seconds=" ++ toString seconds ++ "))"

def clockArguments (time : ClockTime) : String :=
  toString time.hour ++ ", " ++ toString time.minute ++
    (if time.second = 0 ∧ time.microsecond = 0 then "" else ", " ++ toString time.second) ++
    (if time.microsecond = 0 then "" else ", " ++ toString time.microsecond) ++
    (match time.offset with
    | none => ""
    | some offset => ", tzinfo=" ++ zoneCall offset)

def call (moment : Moment) : String :=
  let day := toString moment.year ++ ", " ++ toString moment.month ++ ", " ++ toString moment.day
  match moment.time with
  | none => "datetime.date(" ++ day ++ ")"
  | some time => "datetime.datetime(" ++ day ++ ", " ++ clockArguments time ++ ")"

end Moment

namespace Value

def quotedByte (quote : Char) (byte : UInt8) : List Char :=
  let c := Char.ofNat byte.toNat
  if c = quote || c = '\\' then ['\\', c]
  else if c = '\n' then ['\\', 'n']
  else if c = '\r' then ['\\', 'r']
  else if c = '\t' then ['\\', 't']
  else if 0x20 ≤ byte.toNat && byte.toNat < 0x7f then [c]
  else '\\' :: 'x' :: Text.hexDigits 2 byte.toNat

/-- A byte string between quotes, marked with a `b`. -/
def quotedBytes (octets : List UInt8) : String :=
  let quote := if octets.contains 0x27 && !octets.contains 0x22 then '"' else '\''
  String.ofList ('b' :: quote :: octets.flatMap (quotedByte quote) ++ [quote])

/-- What stands for a container inside of itself. -/
def ellipsis (isMapping : Bool) : String :=
  if isMapping then "\x7b...\x7d" else "[...]"

def isMapping : Value → Bool
  | .map _ => true
  | _ => false

mutual

/-- The value as it appears inside a container. `around` are the labels of the
values that it is inside of, and whether those are mappings. -/
def inspectIn (around : List (Nat × Bool)) : Value → String
  | .null => "None"
  | .bool b => if b then "True" else "False"
  | .int n => toString n
  | .double bits => Decimal.Layout.plain.text bits
  | .text s => Text.quoted s
  | .bytes octets => quotedBytes octets
  | .date moment => moment.call
  | .time clock => "datetime.time(" ++ Moment.clockArguments clock ++ ")"
  | .list items => "[" ++ ", ".intercalate (inspectAll around items) ++ "]"
  | .map entries => "\x7b" ++ ", ".intercalate (inspectEntries around entries) ++ "\x7d"
  | .set members =>
      if members.isEmpty then "set()"
      else "\x7b" ++ ", ".intercalate (inspectAll around members) ++ "\x7d"
  | .pair first second => "(" ++ inspectIn around first ++ ", " ++ inspectIn around second ++ ")"
  | .shared label held =>
      match around.lookup label with
      | some isMapping => ellipsis isMapping
      | none => inspectIn ((label, held.isMapping) :: around) held
  | .again label => ellipsis ((around.lookup label).getD false)

def inspectAll (around : List (Nat × Bool)) : List Value → List String
  | [] => []
  | item :: rest => inspectIn around item :: inspectAll around rest

def inspectEntries (around : List (Nat × Bool)) : List (Value × Value) → List String
  | [] => []
  | (key, held) :: rest =>
      (inspectIn around key ++ ": " ++ inspectIn around held) :: inspectEntries around rest

end

/-- The value as it appears inside a container, with texts in quotes. -/
def inspect (value : Value) : String :=
  inspectIn [] value

def display (value : Value) : String :=
  match value.bare with
  | .text s => s
  | .date moment => moment.iso " "
  | .time clock => Moment.clockText clock
  | _ => value.inspect

def toText (value : Value) : Except Failure String :=
  if value.isWritable then .ok value.display else .error .longNumber

def pathText : Value → Except Failure String
  | .text s => .ok s
  | .bytes _ => .error .wrongKind
  | _ => .error .noFields

def toShown (value : Value) : Except Failure String :=
  if value.isWritable then .ok value.inspect else .error .longNumber

end Value

end Sysml
