/-!
# Qualified names

Names joined by `::`. Paths in references may also be joined by a point, which
chains features.
-/

set_option autoImplicit false

namespace Sysml.QualifiedName

/-- The pieces of a text between its separators: `::` and, if `points` says so,
the point. `piece` holds the characters of the piece under way, last first. -/
def cut (points : Bool) (piece : List Char) : List Char → List (List Char)
  | [] => [piece.reverse]
  | ':' :: ':' :: rest => piece.reverse :: cut points [] rest
  | c :: rest =>
      if points && c == '.' then piece.reverse :: cut points [] rest
      else cut points (c :: piece) rest

def pieces (name : String) : List String :=
  (cut false [] name.toList).map String.ofList

def chainPieces (path : String) : List String :=
  (cut true [] path.toList).map String.ofList

/-- The segments of a path: its pieces that are not empty. -/
def segments (path : String) : List String :=
  (chainPieces path).filter fun piece => !piece.isEmpty

/-- The characters before the last `::`, if there is one. -/
def parentChars? : List Char → Option (List Char)
  | [] => none
  | c :: rest =>
      match parentChars? rest with
      | some before => some (c :: before)
      | none => if c = ':' ∧ rest.head? = some ':' then some [] else none

theorem parentChars?_length {name before : List Char}
    (found : parentChars? name = some before) : before.length < name.length := by
  induction name generalizing before with
  | nil => simp [parentChars?] at found
  | cons c rest ih =>
    unfold parentChars? at found
    split at found
    · next inner inside =>
      cases found
      simpa using ih inside
    · split at found
      · cases found; simp
      · simp at found

/-- The name of the namespace around: the text before the last `::`, if there is one. -/
def parent? (name : String) : Option String :=
  (parentChars? name.toList).map String.ofList

/-- The name itself, its parent, the parent's parent and so on. -/
def enclosingChars (name : List Char) : List (List Char) :=
  match _found : parentChars? name with
  | none => [name]
  | some before => name :: enclosingChars before
termination_by name.length
decreasing_by exact parentChars?_length _found

/-- The name itself and the names of the namespaces around it, innermost first. -/
def enclosing (name : String) : List String :=
  (enclosingChars name.toList).map String.ofList

def join (owner name : String) : String :=
  owner ++ "::" ++ name

end Sysml.QualifiedName
