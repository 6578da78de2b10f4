import Sysml.QualifiedName
import Sysml.Notation.Keyword

/-!
# Quoting names

How names are written in the notation: plain where they can be, else between
single quotes. A backslash stands before a backslash or a quote inside.
-/

set_option autoImplicit false

namespace Sysml.Notation

def isPlainName (name : String) : Bool :=
  match name.toList with
  | [] => false
  | c :: rest => isNameStart c && rest.all isNamePart && !isReserved name

def quotedNameChar (c : Char) : List Char :=
  if c = '\\' ∨ c = '\'' then ['\\', c] else [c]

def quoteName (name : String) : String :=
  if isPlainName name then name
  else String.ofList ('\'' :: name.toList.flatMap quotedNameChar ++ ['\''])

/-- A qualified name as it is written: each of its pieces is quoted on its own. -/
def quotePath (path : String) : String :=
  "::".intercalate ((QualifiedName.pieces path).map quoteName)

end Sysml.Notation
