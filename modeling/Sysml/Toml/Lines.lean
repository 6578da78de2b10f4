import Sysml.Text.Alphanumeric
import Sysml.Text.Blank

/-!
# The lines of a TOML document

A document is laid out in lines that hold one statement each. Comments become
blanks, and so do the line ends inside of an array; a long string loses the line
end right after its opening quotes. The keys at the front of the lines are
checked on the way: a key ends at an equals sign on its own line.
-/

set_option autoImplicit false

namespace Sysml.Toml

inductive Fault where
  /-- The text breaks a rule of the notation. -/
  | malformed
  /-- The text ends, or a name or value is empty, where one more character is
  looked at. -/
  | cut
  /-- A name leads through what is no table. -/
  | noTable
  /-- A table is added to what is no array. -/
  | noArray
  /-- A long string has no name. -/
  | unnamed
  /-- A character code is beyond every number of that size. -/
  | overflow
  deriving DecidableEq, Repr, Inhabited

/-- The pieces of a text between the places of a mark; so many characters are
passed over first. -/
def piecesAfter (mark : List Char) : Nat → List Char → List (List Char)
  | _, [] => [[]]
  | skip + 1, _ :: rest => piecesAfter mark skip rest
  | 0, c :: rest =>
      if mark.isPrefixOf (c :: rest) then [] :: piecesAfter mark (mark.length - 1) rest
      else
        match piecesAfter mark 0 rest with
        | [] => [[c]]
        | piece :: others => (c :: piece) :: others

def pieces (mark : String) (text : List Char) : List (List Char) :=
  piecesAfter mark.toList 0 text

/-- How far the key of a line is read. -/
inductive KeyPlace where
  /-- No key is open. -/
  | outside
  /-- Inside of a name. -/
  | inside
  /-- At the blanks after a name. -/
  | after
  deriving DecidableEq, Repr, Inhabited

inductive Header where
  | none
  | table
  | arrayItem
  deriving DecidableEq, Repr, Inhabited

/-- What is known at a place of a document. -/
structure Layout where
  /-- What was passed, as it is laid out, last first; behind it the whole text
  from its end. -/
  passed : List Char
  /-- How many brackets are open. -/
  brackets : Int := 0
  /-- The quote that ends the string that is open. -/
  quote : Option Char := none
  /-- The string that is open is a long one. -/
  isLong : Bool := false
  header : Header := .none
  /-- Only blanks were passed on the line. -/
  atStart : Bool := true
  key : KeyPlace := .outside
  /-- The key has a dot. -/
  isDotted : Bool := false
  inComment : Bool := false
  deriving Inhabited

namespace Layout

def push (layout : Layout) (c : Char) : Layout :=
  { layout with passed := c :: layout.passed }

def run (c : Char) : Nat → List Char → Nat
  | 0, _ => 0
  | bound + 1, text => if text.head? = some c then run c bound text.tail + 1 else 0

/-- An odd number of backslashes stands at the front of a reversed text. -/
def isEscaped (reversed : List Char) : Bool :=
  run '\\' reversed.length reversed % 2 = 1

/-- A quote opens or closes a string; the third in a row does so with a long one.
A double quote after a backslash is no quote. -/
def onQuote (layout : Layout) (c : Char) : Layout :=
  let before := run c 2 layout.passed
  let escaped := c == '"' && before ≠ 1 && isEscaped (layout.passed.drop before)
  if escaped then { layout with quote := if layout.quote.isSome then some c else none }
  else if before = 2 then
    { layout with isLong := !layout.isLong, quote := if layout.isLong then none else some c }
  else { layout with quote := if layout.quote.isSome then none else some c }

/-- A bracket outside of strings opens or closes a header or an array. -/
def onBracket (layout : Layout) (c : Char) (next : Option Char) : Layout :=
  if layout.quote.isSome then layout
  else if c = '[' then
    if layout.header ≠ .none then layout
    else if !layout.atStart then { layout with brackets := layout.brackets + 1 }
    else if next = some '[' then { layout with header := .arrayItem }
    else { layout with header := .table }
  else
    match layout.header with
    | .table => { layout with header := .none }
    | .arrayItem =>
        if layout.passed.head? = some ']' then { layout with header := .none } else layout
    | .none => { layout with brackets := layout.brackets - 1 }

/-- At a line end. Inside of a long string it stays, but for one after the
opening quotes, which takes the place of the last of them. -/
def onLineEnd (layout : Layout) : Except Fault Layout :=
  if layout.quote.isSome || layout.isLong then
    if !layout.isLong then .error .malformed
    else
      match layout.passed with
      | a :: b :: c :: rest =>
          if (a = '\'' || a = '"') && b == a then
            .ok { layout with passed := a :: a :: b :: (if c = a then ' ' else c) :: rest }
          else .ok (layout.push '\n')
      | _ => .ok (layout.push '\n')
  else if layout.brackets ≠ 0 then .ok (layout.push ' ')
  else .ok ({ layout with atStart := true }.push '\n')

/-- Passes a character that is no line end; the first one on a line that is not
blank begins a key, unless it opens a header. -/
def onCharacter (layout : Layout) (c : Char) : Except Fault Layout :=
  if layout.atStart && c != ' ' && c != '\t' then
    if layout.header ≠ .none then .ok ({ layout with atStart := false }.push c)
    else if c = '=' then .error .malformed
    else .ok ({ layout with atStart := false, key := .inside }.push c)
  else .ok (layout.push c)

/-- The layout inside of a key that a dot goes on with, if it does so before the
next blank or dot. -/
def goesOn (layout : Layout) (next : Option Char) : Except Fault Layout :=
  match next with
  | none => .error .cut
  | some next =>
      .ok (if !Text.isBlank next && next ≠ '.' then { layout with key := .inside } else layout)

def inKey (layout : Layout) (c : Char) (next : Option Char) : Except Fault Layout := do
  if c = '\n' then throw .malformed
  else if layout.quote.isSome then
    return { layout with quote := if layout.quote = some c then none else layout.quote }.push c
  else if Text.isBlank c then
    if layout.key = .inside then return { layout with key := .after }.push c
    else if layout.isDotted then return (← layout.goesOn next).push c
    else return layout.push c
  else if c = '.' then
    let layout := { layout with isDotted := true }
    if layout.key = .inside then return layout.push c else return (← layout.goesOn next).push c
  else if c = '=' then return { layout with key := .outside, isDotted := false }.push c
  else if layout.key = .inside && (Text.isAlphanumeric c || c == '_' || c == '-') then
    return layout.push c
  else if layout.key = .inside && layout.isDotted && layout.passed.head? = some '.' &&
      (c == '"' || c == '\'') then
    return { layout with quote := some c }.push c
  else throw .malformed

def outsideKey (layout : Layout) (c : Char) (next : Option Char) : Except Fault Layout :=
  if c = '\n' then { layout with inComment := false }.onLineEnd
  else if layout.inComment then .ok (layout.push ' ')
  else if c = '\'' || c = '"' then
    if layout.quote.any (· != c) then layout.onCharacter c else (layout.onQuote c).onCharacter c
  else if c = '#' && layout.quote.isNone && layout.header = .none then
    .ok ({ layout with inComment := true }.push ' ')
  else if c = '[' || c = ']' then (layout.onBracket c next).onCharacter c
  else layout.onCharacter c

def pass (layout : Layout) : List Char → Except Fault Layout
  | [] => .ok layout
  | c :: rest => do
      let layout ←
        if layout.key = .outside then layout.outsideKey c rest.head?
        else layout.inKey c rest.head?
      pass layout rest

end Layout

/-- The lines of a document whose line ends are line feeds. -/
def lines (text : List Char) : Except Fault (List (List Char)) := do
  let layout ← Layout.pass { passed := text.reverse } text
  if layout.key ≠ .outside || layout.quote.isSome then throw .malformed
  return pieces "\n" (layout.passed.take text.length).reverse

end Sysml.Toml
