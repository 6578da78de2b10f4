import Sysml.Document
import Sysml.Failure
import Sysml.Workspace.Pins

/-!
# Companion data

What goes with the source text of a document so that its ids are found again:
each record's id by the qualified names that the text declares.
-/

set_option autoImplicit false

namespace Sysml.Document

/-- The name that stands for an id: a qualified name, what the document lists
for it, or the id itself. -/
def nameOf (document : Document) (id : Key) : Value :=
  let listed : Value := ((document.externalRefs.lookup id).getD id).value
  match document.last? id with
  | some record => if record.qualifiedName.isAbsent then listed else record.qualifiedName
  | none => listed

/-- The entry of an element; an element without a qualified name has none. -/
def elementEntry? (record : Record) : Option Value :=
  if record.isRelationship || record.qualifiedName.isAbsent then none
  else
    some (.object [("id", record.id.value), ("kind", .text record.kind),
      ("qualifiedName", record.qualifiedName)])

def relationshipEntry? (document : Document) (record : Record) : Option Value :=
  if record.isRelationship then
    some (.object [("id", record.id.value), ("kind", .text record.kind),
      ("source", document.nameOf record.origin),
      ("target", document.nameOf ((Key.given? record.target).getD (.text "")))])
  else none

/-- The companion data of a document that was read from `source`. -/
def companion (document : Document) (source : String) : Value :=
  .object [("version", .int 1), ("source", .text source),
    ("elements", .list (document.records.filterMap elementEntry?)),
    ("relationships", .list (document.records.filterMap document.relationshipEntry?))]

def itemsOf : Value → Except Failure (List Value)
  | .list items => .ok items
  | .map entries => .ok (entries.map (·.1))
  | .text s => .ok (s.toList.map fun c => .text (String.singleton c))
  | _ => .error .wrongKind

def companionEntries (data : Value) : Except Failure (List Value) := do
  match data with
  | .map _ =>
      let elements ← itemsOf ((data.field? "elements").getD (.list []))
      let relationships ← itemsOf ((data.field? "relationships").getD (.list []))
      return (elements ++ relationships).filter fun entry =>
        match entry with
        | .map _ => true
        | _ => false
  | _ => throw .wrongValue

end Sysml.Document
