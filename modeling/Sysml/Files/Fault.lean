import Sysml.Text.Quoted

/-!
# Faults of files

Why a file cannot be read or written.
-/

set_option autoImplicit false

namespace Sysml.Files

/-- Why a path leads to nothing that can be used. -/
inductive Fault where
  | missing
  | alreadyThere
  | notDirectory
  | isDirectory
  /-- Links that lead to links without end. -/
  | tooManyLinks
  deriving DecidableEq, Repr, Inhabited

namespace Fault

def number : Fault → Nat
  | .missing => 2
  | .alreadyThere => 17
  | .notDirectory => 20
  | .isDirectory => 21
  | .tooManyLinks => 40

def text : Fault → String
  | .missing => "No such file or directory"
  | .alreadyThere => "File exists"
  | .notDirectory => "Not a directory"
  | .isDirectory => "Is a directory"
  | .tooManyLinks => "Too many levels of symbolic links"

def message (fault : Fault) (path : String) : String :=
  "[Errno " ++ toString fault.number ++ "] " ++ fault.text ++ ": " ++ Text.quoted path

end Fault

end Sysml.Files
