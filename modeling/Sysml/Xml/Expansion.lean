import Sysml.Xml.Markup

/-!
# Expansion

How many bytes a text comes to once its references to entities are replaced, found
without replacing them. A document whose references come to far more than the
document itself is refused before any of its text is built.
-/

set_option autoImplicit false

namespace Sysml.Xml

def past (word : String) (text : List Char) : List Char :=
  ((splitAt? word.toList text).map Prod.snd).getD []

/-- The names of the entities that a text refers to, outside of comments,
instructions and plain sections. -/
def references : Nat → List Char → List String
  | 0, _ => []
  | fuel + 1, text =>
      match text with
      | [] => []
      | '<' :: '!' :: '-' :: '-' :: rest => references fuel (past "-->" rest)
      | '<' :: '!' :: rest => references fuel (past "]]>" rest)
      | '<' :: '?' :: rest => references fuel (past "?>" rest)
      | '&' :: rest => String.ofList (rest.takeWhile isNameChar) :: references fuel rest
      | _ :: rest => references fuel rest

def byteCount (text : List Char) : Nat :=
  text.foldl (fun count c => count + c.utf8Size) 0

abbrev Sizes := List (String × Nat)

def Sizes.total (sizes : Sizes) (names : List String) : Nat :=
  names.foldl (fun count name => count + (sizes.lookup name).getD 0) 0

/-- An entity with the bytes of its own text and the entities that it refers to. -/
structure Part where
  name : String
  own : Nat
  references : List String
  deriving Repr, Inhabited

/-- The sizes of entities, when references are followed to a depth. Sizes above
the limit are all one. -/
def sizesWithin (limit : Nat) (parts : List Part) : Nat → Sizes → Sizes
  | 0, sizes => sizes
  | depth + 1, sizes =>
      let next : Sizes := parts.map fun part =>
        (part.name, min limit (part.own + sizes.total part.references))
      if next = sizes then sizes else sizesWithin limit parts depth next

/-- The sizes of the entities; none is above the limit. -/
def Entities.sizes (entities : Entities) (limit : Nat) : Sizes :=
  let parts := entities.texts.map fun (name, text) =>
    let text := text.getD []
    Part.mk name (byteCount text) (references (text.length + 1) text)
  sizesWithin limit parts (parts.length + 1) []

def Entities.cost (entities : Entities) (budget : Nat) (text : List Char) : Except Fault Nat :=
  let cost := (entities.sizes (budget + 1)).total (references (text.length + 1) text)
  if cost ≤ budget then .ok cost else .error .malformed

/-- What the references of a document of so many bytes may come to: with the
document no more than eight megabytes, or than a hundred times the document. -/
def expansionBudget (size : Nat) : Nat :=
  max (8388607 - size) (99 * size)

end Sysml.Xml
