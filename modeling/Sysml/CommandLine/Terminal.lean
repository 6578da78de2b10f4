import Sysml.Text.Column

/-!
# Terminal text

How text is made fit for a terminal: colour codes do not reach a stream that is
no terminal, and lines of diagnostics and notes hold no control characters and
no tabs.
-/

set_option autoImplicit false

namespace Sysml.CommandLine

/-- What follows a colour code that has begun, if a letter ends it. -/
def afterColor? : List Char → Option (List Char)
  | [] => none
  | c :: rest =>
      if c.isDigit || c == ';' || c == '?' then afterColor? rest
      else if c.isAlpha then some rest
      else none

/-- The text without colour codes. Each step uses up a character at least, so
`fuel` need not exceed their number. -/
def withoutColors : Nat → List Char → List Char
  | 0, text => text
  | _ + 1, [] => []
  | fuel + 1, c :: rest =>
      match c, rest with
      | '\x1b', '[' :: code =>
          match afterColor? code with
          | some rest => withoutColors fuel rest
          | none => c :: withoutColors fuel rest
      | _, _ => c :: withoutColors fuel rest

def plainText (text : String) : String :=
  String.ofList (withoutColors text.toList.length text.toList)

def isControl (c : Char) : Bool :=
  let n := c.toNat
  n == 7 || n == 8 || (11 ≤ n && n ≤ 13)

/-- The text with spaces for tabs, up to the next of the stops that are eight
columns apart. -/
def expandTabs (column : Nat) : List Char → List Char
  | [] => []
  | '\n' :: rest => '\n' :: expandTabs 0 rest
  | '\t' :: rest =>
      let width := 8 - column % 8
      List.replicate width ' ' ++ expandTabs (column + width) rest
  | c :: rest => c :: expandTabs (column + Text.columns c) rest

/-- The text without the spaces at the ends of its lines; `spaces` counts those
that may turn out to be at an end. -/
def withoutTrailingSpaces (spaces : Nat) : List Char → List Char
  | [] => []
  | '\n' :: rest => '\n' :: withoutTrailingSpaces 0 rest
  | ' ' :: rest => withoutTrailingSpaces (spaces + 1) rest
  | c :: rest => List.replicate spaces ' ' ++ c :: withoutTrailingSpaces 0 rest

def consoleText (text : String) : String :=
  String.ofList
    (withoutTrailingSpaces 0 (expandTabs 0 (text.toList.filter fun c => !isControl c)))

end Sysml.CommandLine
