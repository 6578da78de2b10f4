import Sysml.Text.Blank
import Sysml.Text.Lines

/-!
# Comment bodies

The text that a block comment carries: without its delimiters, without the
blanks around each line, and without a star that opens a line.
-/

set_option autoImplicit false

namespace Sysml.Notation

/-- The text between the delimiters of a comment; a text without both of them
is taken as it is. The delimiters may share their star and slash. -/
def commentBody (raw : List Char) : List Char :=
  if ['/', '*'].isPrefixOf raw && ['*', '/'].isSuffixOf raw then
    (raw.drop 2).take (raw.length - 4)
  else raw

/-- One line without the blanks around it and without the star that opens it. -/
def cleanLine (line : List Char) : List Char :=
  match Text.trim line with
  | '*' :: rest => Text.trim rest
  | trimmed => trimmed

def cleanComment (raw : List Char) : List Char :=
  Text.trim (['\n'].intercalate ((Text.splitLines (commentBody raw)).map cleanLine))

end Sysml.Notation
