import Sysml.Yaml.Place

/-!
# YAML scalars

The texts of plain, quoted and block scalars: escapes are replaced, lines are
folded, and the indentation and the line ends of blocks are treated as their
indicators say.
-/

set_option autoImplicit false

namespace Sysml.Yaml

/-- Further line ends inside a quoted scalar, with the blanks around them. A
document marker may not follow a line end. -/
def quotedBreaks : Nat → List Char → Place → Except Fault (List Char × Place)
  | 0, _, _ => .error .malformed
  | fuel + 1, breaks, p =>
      if p.atAnyMarker then .error .malformed
      else
        let p := p.skipWhile fun c => c == ' ' || c == '\t'
        if isBreak p.here then
          let (lineEnd, p) := p.lineBreak
          quotedBreaks fuel (breaks ++ lineEnd) p
        else .ok (breaks, p)

/-- Folds line ends: a single line feed becomes a space; of several the first is
dropped. -/
def foldBreaks (first breaks : List Char) : List Char :=
  (if first != ['\n'] then first else if breaks.isEmpty then [' '] else []) ++ breaks

/-- Blanks and line ends inside a quoted scalar. -/
def quotedSpaces (p : Place) : Except Fault (List Char × Place) :=
  let (blanks, p) := p.takeWhile fun c => c == ' ' || c == '\t'
  if p.here = nul then .error .malformed
  else if isBreak p.here then do
    let (first, p) := p.lineBreak
    let (breaks, p) ← quotedBreaks (p.rest.length + 1) [] p
    return (foldBreaks first breaks, p)
  else .ok (blanks, p)

/-- A character that a backslash stands before. -/
def escape? (c : Char) : Option Char :=
  match c with
  | '0' => some nul
  | 'a' => some (Char.ofNat 7)
  | 'b' => some (Char.ofNat 8)
  | 't' => some '\t'
  | '\t' => some '\t'
  | 'n' => some '\n'
  | 'v' => some (Char.ofNat 11)
  | 'f' => some (Char.ofNat 12)
  | 'r' => some '\r'
  | 'e' => some (Char.ofNat 27)
  | ' ' => some ' '
  | '"' => some '"'
  | '\\' => some '\\'
  | '/' => some '/'
  | 'N' => some (Char.ofNat 0x85)
  | '_' => some (Char.ofNat 0xa0)
  | 'L' => some (Char.ofNat 0x2028)
  | 'P' => some (Char.ofNat 0x2029)
  | _ => none

def escapeWidth? (c : Char) : Option Nat :=
  match c with
  | 'x' => some 2
  | 'u' => some 4
  | 'U' => some 8
  | _ => none

def hexValue (c : Char) : Nat :=
  if isDigit c then c.toNat - 48 else if 'a' ≤ c then c.toNat - 87 else c.toNat - 55

def hexNumber (digits : List Char) : Nat :=
  digits.foldl (fun n c => 16 * n + hexValue c) 0

def charOf (n : Nat) : Except Fault Char :=
  if 0x80000000 ≤ n then .error .overflow
  else if 0x110000 ≤ n then .error .noSuchValue
  else .ok (Char.ofNat n)

def escaped (p : Place) : Except Fault (List Char × Place) :=
  match escape? p.here, escapeWidth? p.here with
  | some c, _ => .ok ([c], p.next)
  | none, some width =>
      let digits := p.next.rest.take width
      if digits.length = width && digits.all isHexDigit then
        (charOf (hexNumber digits)).map fun c => ([c], p.next.skip width)
      else .error .malformed
  | none, none =>
      if isBreak p.here then
        let p := p.lineBreak.2
        quotedBreaks (p.rest.length + 1) [] p
      else .error .malformed

/-- A character that may stand inside a quoted scalar without more ado. -/
def isQuotedPlain (c : Char) : Bool :=
  !(c == '\'' || c == '"' || c == '\\' || isBlankOrEnd c)

def quotedScalar (double : Bool) : Nat → List Char → Place → Except Fault (List Char × Place)
  | 0, _, _ => .error .malformed
  | fuel + 1, read, p =>
      let (plain, p) := p.takeWhile isQuotedPlain
      let read := read ++ plain
      let c := p.here
      if !double && c == '\'' && p.peek 1 == '\'' then
        quotedScalar double fuel (read ++ ['\'']) (p.skip 2)
      else if c == (if double then '"' else '\'') then .ok (read, p.next)
      else if (double && c == '\'') || (!double && (c == '"' || c == '\\')) then
        quotedScalar double fuel (read ++ [c]) p.next
      else if double && c == '\\' then do
        let (found, p) ← escaped p.next
        quotedScalar double fuel (read ++ found) p
      else do
        let (found, p) ← quotedSpaces p
        quotedScalar double fuel (read ++ found) p

/-- The line ends, and the indentation after each, before a line of a block. -/
def blockBreaks (indent : Nat) : Nat → List (List Char) → Place → List (List Char) × Place
  | 0, breaks, p => (breaks, p)
  | fuel + 1, breaks, p =>
      let p := p.skip (min (indent - p.column) (p.rest.takeWhile (· == ' ')).length)
      if isBreak p.here then
        let (lineEnd, p) := p.lineBreak
        blockBreaks indent fuel (breaks ++ [lineEnd]) p
      else (breaks, p)

/-- The line ends before the first line of a block whose indentation is not
given, and the widest indentation among them. -/
def blockIndentation : Nat → List (List Char) → Nat → Place → List (List Char) × Nat × Place
  | 0, breaks, widest, p => (breaks, widest, p)
  | fuel + 1, breaks, widest, p =>
      if p.here = ' ' then
        let p := p.next
        blockIndentation fuel breaks (max widest p.column) p
      else if isBreak p.here then
        let (lineEnd, p) := p.lineBreak
        blockIndentation fuel (breaks ++ [lineEnd]) widest p
      else (breaks, widest, p)

/-- What is done with the line ends at the end of a block. -/
inductive Chomping where
  | clip
  | strip
  | keep
  deriving DecidableEq, Repr, Inhabited

def chomping? (p : Place) : Option Chomping :=
  if p.here = '+' then some .keep else if p.here = '-' then some .strip else none

def blockIndicators (p : Place) : Except Fault ((Chomping × Option Nat) × Place) := do
  let (chomping, p) :=
    match chomping? p with
    | some chomping => (some chomping, p.next)
    | none => (none, p)
  let (increment, p) ←
    if isDigit p.here then
      if p.here = '0' then .error .malformed else pure (some (p.here.toNat - 48), p.next)
    else pure (none, p)
  let (chomping, p) :=
    match chomping, chomping? p with
    | none, some later => (if increment.isSome then some later else none,
        if increment.isSome then p.next else p)
    | chomping, _ => (chomping, p)
  if isSpaceOrEnd p.here then return ((chomping.getD .clip, increment), p)
  else .error .malformed

/-- Passes spaces, a comment and a line end; nothing else may follow. -/
def ignoredLine (p : Place) : Except Fault Place :=
  let p := p.skipWhile (· == ' ')
  let p := if p.here = '#' then p.skipWhile fun c => !isBreakOrEnd c else p
  if isBreakOrEnd p.here then .ok p.lineBreak.2 else .error .malformed

/-- The lines of a block scalar. `lineEnd` is the end of the line before and
`breaks` the line ends after it. -/
def blockLines (folded : Bool) (indent : Nat) :
    Nat → List Char → List Char → List (List Char) → Place →
      (List Char × List Char × List (List Char)) × Place
  | 0, read, lineEnd, breaks, p => ((read, lineEnd, breaks), p)
  | fuel + 1, read, lineEnd, breaks, p =>
      if p.column = indent && p.here != nul then
        let read := read ++ breaks.flatten
        let indented := p.here == ' ' || p.here == '\t'
        let (line, p) := p.takeWhile fun c => !isBreakOrEnd c
        let read := read ++ line
        let (lineEnd, p) := p.lineBreak
        let (breaks, p) := blockBreaks indent (p.rest.length + 1) [] p
        if p.column = indent && p.here != nul then
          let between :=
            if folded && lineEnd == ['\n'] && !indented && !(p.here == ' ' || p.here == '\t') then
              if breaks.isEmpty then [' '] else []
            else lineEnd
          blockLines folded indent fuel (read ++ between) lineEnd breaks p
        else ((read, lineEnd, breaks), p)
      else ((read, lineEnd, breaks), p)

/-- A block scalar from its indicator on; `around` is the indentation around it. -/
def blockScalar (around : Int) (p : Place) : Except Fault (List Char × Place) := do
  let folded := p.here == '>'
  let ((chomping, increment), p) ← blockIndicators p.next
  let p ← ignoredLine p
  let least := max (around + 1).toNat 1
  let (breaks, indent, p) :=
    match increment with
    | none =>
        let (breaks, widest, p) := blockIndentation (p.rest.length + 1) [] 0 p
        (breaks, max least widest, p)
    | some increment =>
        let indent := least + increment - 1
        let (breaks, p) := blockBreaks indent (p.rest.length + 1) [] p
        (breaks, indent, p)
  let ((read, lineEnd, breaks), p) := blockLines folded indent (p.rest.length + 1) [] [] breaks p
  let kept :=
    match chomping with
    | .strip => []
    | .clip => lineEnd
    | .keep => lineEnd ++ breaks.flatten
  return (read ++ kept, p)

/-- The character ends a run of a plain scalar. -/
def endsPlain (inFlow : Bool) (c next : Char) : Bool :=
  isBlankOrEnd c ||
    (c == ':' && (isBlankOrEnd next || (inFlow && ",[]\x7b\x7d".toList.contains next))) ||
    (inFlow && ",?[]\x7b\x7d".toList.contains c)

/-- A run of a plain scalar without blanks. -/
def plainRun (inFlow : Bool) : List Char → List Char
  | [] => []
  | c :: rest => if endsPlain inFlow c (rest.head?.getD nul) then [] else c :: plainRun inFlow rest

/-- Line ends between the lines of a plain scalar, or none if a document marker
follows one of them. -/
def plainBreaks : Nat → List Char → Place → Option (List Char) × Place
  | 0, breaks, p => (some breaks, p)
  | fuel + 1, breaks, p =>
      if p.here = ' ' then plainBreaks fuel breaks p.next
      else if isBreak p.here then
        let (lineEnd, p) := p.lineBreak
        if p.atAnyMarker then (none, p) else plainBreaks fuel (breaks ++ lineEnd) p
      else (some breaks, p)

/-- The blanks between runs of a plain scalar, folded, and whether a line end is
among them. Without blanks the scalar ends. -/
def plainSpaces (p : Place) : List Char × Bool × Place :=
  let (spaces, p) := p.takeWhile (· == ' ')
  if isBreak p.here then
    let (first, p) := p.lineBreak
    if p.atAnyMarker then ([], true, p)
    else
      match plainBreaks (p.rest.length + 1) [] p with
      | (none, p) => ([], true, p)
      | (some breaks, p) => (foldBreaks first breaks, true, p)
  else (spaces, false, p)

/-- A plain scalar; `spaces` are the blanks before its next run. Tells too
whether a line end came last, after which a key may begin. -/
def plainScalar (inFlow : Bool) (indent : Int) :
    Nat → List Char → List Char → Bool → Place → List Char × Bool × Place
  | 0, read, _, broken, p => (read, broken, p)
  | fuel + 1, read, spaces, broken, p =>
      if p.here = '#' then (read, broken, p)
      else
        let run := plainRun inFlow p.rest
        if run.isEmpty then (read, broken, p)
        else
          let read := read ++ spaces ++ run
          let (spaces, broken, p) := plainSpaces (p.skip run.length)
          if spaces.isEmpty || p.here == '#' || (!inFlow && (p.column : Int) < indent) then
            (read, broken, p)
          else plainScalar inFlow indent fuel read spaces broken p

end Sysml.Yaml
