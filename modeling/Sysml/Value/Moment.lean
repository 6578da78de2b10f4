import Sysml.Value

/-!
# Reading dates

The written forms of dates and timestamps. A date is year, month and day between
hyphens; a time of day follows a `T` or blanks, and may end in a distance from
universal time.
-/

set_option autoImplicit false

namespace Sysml.Moment

/-- The digits of a date, and of a time of day if there is one. -/
structure Parts where
  year : List Char
  month : List Char
  day : List Char
  /-- Hour, minute, second and the digits of the second's fraction. -/
  time : Option (List Char × List Char × List Char × List Char) := none
  /-- Whether it is before universal time, with hours and minutes. -/
  zone : Option (Bool × List Char × List Char) := none
  deriving Inhabited

def upToTwo? (text : List Char) : Option (List Char × List Char) :=
  match text with
  | a :: b :: rest =>
      if a.isDigit then if b.isDigit then some ([a, b], rest) else some ([a], b :: rest) else none
  | [a] => if a.isDigit then some ([a], []) else none
  | [] => none

def two? : List Char → Option (List Char × List Char)
  | a :: b :: rest => if a.isDigit && b.isDigit then some ([a, b], rest) else none
  | _ => none

def after? (c : Char) : List Char → Option (List Char)
  | head :: rest => if head = c then some rest else none
  | [] => none

def isGap (c : Char) : Bool :=
  c == ' ' || c == '\t'

/-- The zone that a text consists of, with blanks before it; the empty text has
none. -/
def zone? (text : List Char) : Option (Option (Bool × List Char × List Char)) :=
  match text.dropWhile isGap with
  | [] => if text.isEmpty then some none else none
  | ['Z'] => some (some (false, [], []))
  | s :: rest =>
      if s = '-' || s = '+' then do
        let (hours, rest) ← upToTwo? rest
        if rest.isEmpty then return some (s == '-', hours, [])
        let (minutes, rest) ← two? (← after? ':' rest)
        if rest.isEmpty then some (some (s == '-', hours, minutes)) else none
      else none

def afterSeparator? (text : List Char) : Option (List Char) :=
  match text with
  | c :: rest =>
      if c = 'T' || c = 't' then some rest
      else if isGap c then some (rest.dropWhile isGap)
      else none
  | [] => none

def parts? (text : List Char) : Option Parts := do
  let (century, rest) ← two? text
  let (years, rest) ← two? rest
  let (month, rest) ← upToTwo? (← after? '-' rest)
  let (day, rest) ← upToTwo? (← after? '-' rest)
  let date : Parts := { year := century ++ years, month, day }
  if rest.isEmpty then return date
  let (hour, rest) ← upToTwo? (← afterSeparator? rest)
  let (minute, rest) ← two? (← after? ':' rest)
  let (second, rest) ← two? (← after? ':' rest)
  let (fraction, rest) :=
    match rest with
    | '.' :: rest => (rest.takeWhile Char.isDigit, rest.dropWhile Char.isDigit)
    | _ => ([], rest)
  let zone ← zone? rest
  return { date with time := some (hour, minute, second, fraction), zone }

def daysOfMonth (year month : Nat) : Nat :=
  if month = 2 then
    if year % 4 = 0 ∧ (year % 100 ≠ 0 ∨ year % 400 = 0) then 29 else 28
  else if month = 4 ∨ month = 6 ∨ month = 9 ∨ month = 11 then 30
  else 31

def number (digits : List Char) : Nat :=
  digits.foldl (fun n c => 10 * n + (c.toNat - 48)) 0

/-- The distance from universal time in seconds, if it is less than a day. -/
def offset? (zone : Bool × List Char × List Char) : Option Int :=
  let seconds := 3600 * number zone.2.1 + 60 * number zone.2.2
  if seconds < 86400 then some (if zone.1 then -(seconds : Int) else seconds) else none

def clockTime? (time : List Char × List Char × List Char × List Char)
    (zone : Option (Bool × List Char × List Char)) : Option ClockTime := do
  let (hour, minute, second, fraction) := time
  let offset ← zone.mapM offset?
  let digits := fraction.take 6
  let time : ClockTime :=
    { hour := number hour, minute := number minute, second := number second
      microsecond := number (digits ++ List.replicate (6 - digits.length) '0'), offset }
  if time.hour < 24 ∧ time.minute < 60 ∧ time.second < 60 then some time else none

def ofParts? (parts : Parts) : Option Moment := do
  let year := number parts.year
  let month := number parts.month
  let day := number parts.day
  let time ← parts.time.mapM fun time => clockTime? time parts.zone
  if 1 ≤ year ∧ 1 ≤ month ∧ month ≤ 12 ∧ 1 ≤ day ∧ day ≤ daysOfMonth year month then
    some { year, month, day, time }
  else none

end Sysml.Moment
