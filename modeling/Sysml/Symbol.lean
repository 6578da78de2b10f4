import Sysml.Key
import Sysml.Span
import Sysml.Symbol.Kind

/-!
# Symbols

Named elements of a model with their outgoing references and owned imports. A
symbol that stands for an element of a document is bound to other elements by
their ids and qualified names; one that was declared in source text names them
as they were written.
-/

set_option autoImplicit false

namespace Sysml

inductive RefKind where
  | typing
  | specialization
  | subsetting
  | redefinition
  deriving DecidableEq, Repr, Inhabited

namespace RefKind

def all : List RefKind :=
  [.typing, .specialization, .subsetting, .redefinition]

def text : RefKind → String
  | .typing => "typing"
  | .specialization => "specialization"
  | .subsetting => "subsetting"
  | .redefinition => "redefinition"

def ofText? (word : String) : Option RefKind :=
  all.find? fun kind => kind.text == word

end RefKind

structure Reference where
  kind : RefKind
  target : Key
  span : Span := {}
  /-- The id of the element that a document binds the reference to. -/
  targetId : Option Key := none
  /-- The qualified name of that element. -/
  targetName : Option Key := none
  elementId : Option Key := none
  deriving Repr, Inhabited

/-- An import of a member, of a namespace's members, or of all that is below a
namespace. -/
structure Import where
  path : Key
  isNamespace : Bool := false
  isRecursive : Bool := false
  visibility : String := "private"
  span : Span := {}
  elementId : Option Key := none
  targetId : Option Key := none
  deriving Repr, Inhabited

def Import.text (i : Import) : Key :=
  if i.isRecursive then .text (i.path.display ++ "::**")
  else if i.isNamespace then .text (i.path.display ++ "::*")
  else i.path

structure Symbol where
  name : Key
  qualifiedName : Key
  kind : SymbolKind
  file : String
  span : Span := {}
  owner : Option Key := none
  shortName : Key := .text ""
  /-- The documentation; `null` stands for none. -/
  doc : Value := .null
  isAbstract : Bool := false
  direction : String := ""
  references : List Reference := []
  imports : List Import := []
  isLibrary : Bool := false
  elementId : Option Key := none
  /-- The number under which a workspace took the symbol in: no two symbols of a
  workspace share it, and it stays with a symbol for good. -/
  serial : Nat := 0
  deriving Repr, Inhabited

namespace Symbol

/-- The targets of a symbol's references, but for redefinitions. -/
def supertypes (symbol : Symbol) : List Key :=
  (symbol.references.filter fun reference => reference.kind != .redefinition).map (·.target)

end Symbol

end Sysml
