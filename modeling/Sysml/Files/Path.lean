/-!
# Paths

Paths as a root and the parts between slashes. Empty parts and parts that are a
single dot do not count; two dots stay. A path without parts is written as a
dot.
-/

set_option autoImplicit false

namespace Sysml.Files

/-- A path. The root is empty, a slash, or two slashes. -/
structure Path where
  root : String := ""
  parts : List String := []
  deriving DecidableEq, Repr, Inhabited

namespace Path

/-- The root that a text begins with: two slashes are kept, more are one. -/
def rootOf : List Char → String
  | '/' :: '/' :: '/' :: _ => "/"
  | '/' :: '/' :: _ => "//"
  | '/' :: _ => "/"
  | _ => ""

def ofText (text : String) : Path :=
  { root := rootOf text.toList
    parts := ((text.toList.splitOn '/').map String.ofList).filter fun part =>
      part != "" && part != "." }

def text (path : Path) : String :=
  if path.root.isEmpty && path.parts.isEmpty then "." else path.root ++ "/".intercalate path.parts

/-- The path begins at the root. -/
def isAbsolute (path : Path) : Bool :=
  !path.root.isEmpty

def join (path other : Path) : Path :=
  if other.isAbsolute then other else { path with parts := path.parts ++ other.parts }

def child (path : Path) (name : String) : Path :=
  { path with parts := path.parts ++ [name] }

def name (path : Path) : String :=
  path.parts.getLast?.getD ""

/-- The path without its last part. -/
def parent (path : Path) : Path :=
  { path with parts := path.parts.dropLast }

/-- The name before its last dot, and what follows from the dot on. A dot at
either end of the name does not count. -/
def splitName (name : String) : String × String :=
  let chars := name.toList
  let last := (chars.reverse.takeWhile (· != '.')).reverse
  let before := chars.take (chars.length - last.length - 1)
  if last.isEmpty || before.isEmpty then (name, "")
  else (String.ofList before, String.ofList ('.' :: last))

/-- The last dot of the name and what follows it. -/
def suffix (path : Path) : String :=
  (splitName path.name).2

def stem (path : Path) : String :=
  (splitName path.name).1

/-- The path with another suffix, unless it has no name. -/
def withSuffix? (path : Path) (suffix : String) : Option Path :=
  if path.name.isEmpty then none else some (path.parent.child (path.stem ++ suffix))

end Path

end Sysml.Files
