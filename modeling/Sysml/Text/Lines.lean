/-!
# Lines

Cutting text into lines at every Unicode line boundary, and reading text with
any of the three line ends as if each were a line feed.
-/

set_option autoImplicit false

namespace Sysml.Text

def isLineEnd (c : Char) : Bool :=
  let n := c.toNat
  (0x0a ≤ n && n ≤ 0x0d) || (0x1c ≤ n && n ≤ 0x1e) || n == 0x85 || n == 0x2028 || n == 0x2029

/-- The lines of a text without their ends. `line` holds the characters of the
line under way, last first. A carriage return and a line feed end one line
together, and a line end at the very end of the text opens no further line. -/
def linesFrom (line : List Char) : List Char → List (List Char)
  | [] => if line.isEmpty then [] else [line.reverse]
  | '\r' :: '\n' :: rest => line.reverse :: linesFrom [] rest
  | c :: rest =>
      if isLineEnd c then line.reverse :: linesFrom [] rest else linesFrom (c :: line) rest

/-- The lines of a text, without their ends. -/
def splitLines (text : List Char) : List (List Char) :=
  linesFrom [] text

/-- The text with every line end, `\r\n` or `\r` or `\n`, written as a line feed. -/
def unifyLineEnds : List Char → List Char
  | [] => []
  | '\r' :: '\n' :: rest => '\n' :: unifyLineEnds rest
  | c :: rest => (if c = '\r' then '\n' else c) :: unifyLineEnds rest

end Sysml.Text
