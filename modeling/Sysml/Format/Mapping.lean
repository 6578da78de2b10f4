import Sysml.Document
import Sysml.Failure
import Sysml.Value.Text

/-!
# Records as mappings

The form of a record in the formats that write values: a mapping with the
record's fields under fixed keys and its properties beside them. References to
other records are mappings that hold an id.
-/

set_option autoImplicit false

namespace Sysml

/-- Puts an entry with a text key, unless there is no value for it. -/
def putField (key : String) (value : Option Value) (entries : List (Value × Value)) :
    List (Value × Value) :=
  match value with
  | none => entries
  | some value => Entries.put (.text key) value entries

namespace Record

def reference (id : Key) : Value :=
  .object [("@id", id.value)]

def reference? (id : Option Key) : Option Value :=
  (Key.given? id).map reference

/-- The mapping of a record; `owned` are the ids of what it owns. Properties may
replace the fields before them. -/
def toMapping (record : Record) (owned : List Key) : Value :=
  let given (value : Value) : Option Value :=
    match value with
    | .null => none
    | value => some value
  let filled (value : Value) : Option Value := if value.isAbsent then none else some value
  let start : List (Value × Value) :=
    [(.text "@id", record.id.value), (.text "@type", .text record.kind)]
  let entries := start
    |> putField "name" (given record.name)
    |> putField "shortName" (filled record.shortName)
    |> putField "qualifiedName" (given record.qualifiedName)
    |> putField "owner" (reference? record.owner)
    |> putField "source" (reference? record.source)
    |> putField "target" (reference? record.target)
    |> putField "isAbstract" (if record.isAbstract then some (.bool true) else none)
    |> putField "documentation" (filled record.doc)
  let entries := record.properties.foldl (fun entries entry => Entries.put entry.1 entry.2 entries)
    entries
  .map (entries
    |> putField "provenance"
      (if record.provenance.isText modelProvenance then none else some record.provenance)
    |> putField "ownedMember"
      (if owned.isEmpty then none else some (.list (owned.map reference))))

/-- The keys of a mapping that are fields; the others are properties. -/
def fieldKeys : List String :=
  ["@id", "@type", "name", "shortName", "qualifiedName", "owner", "source", "target", "isAbstract",
    "documentation", "provenance", "ownedMember"]

def isFieldKey (key : Value) : Bool :=
  fieldKeys.any fun field => key.isText field

/-- The value that a value refers to: that under the id of a mapping, or the value
itself. -/
def referred (value : Value) : Value :=
  if value.entries?.isSome then (value.field? "@id").getD .null else value

def referenced (value : Value) : Except Failure (Option Key) :=
  if (referred value).isAbsent then .ok none
  else (some ∘ Key.text) <$> (referred value).toText

def ofMapping (mapping : Value) : Except Failure Record := do
  match mapping.entries? with
  | some entries =>
      let field (key : String) : Value := (entries.lookup (.text key)).getD .null
      let id := field "@id"
      let kind := field "@type"
      if id.isAbsent then
        .error (.malformed ("Element without '@id': " ++ (← mapping.toShown)) [])
      if kind.isAbsent then
        .error (.malformed ("Element " ++ (← id.toText) ++ " has no '@type'") [])
      return {
        id := .text (← id.toText)
        kind := ← kind.toText
        name := field "name"
        qualifiedName := field "qualifiedName"
        owner := ← referenced (field "owner")
        source := ← referenced (field "source")
        target := ← referenced (field "target")
        doc := field "documentation"
        shortName := field "shortName"
        isAbstract := !(field "isAbstract").isAbsent
        properties := entries.filter fun entry => !isFieldKey entry.1
        provenance := (entries.lookup (.text "provenance")).getD (.text modelProvenance) }
  | none => .error (.malformed ("Expected an element mapping, got " ++ mapping.kindName) [])

end Record

namespace Document

def ownedBy (document : Document) (id : Key) : List Key :=
  (document.records.filter fun record => !record.isRelationship && record.owner == some id).map
    (·.id)

def mappings (document : Document) : List Value :=
  document.records.map fun record =>
    record.toMapping (if record.id.isAbsent then [] else document.ownedBy record.id)

def externalMappings (document : Document) : List Value :=
  document.externalRefs.map fun (id, name) =>
    .object [("@id", id.value), ("qualifiedName", name.value)]

/-- The id and the name of one entry of a list of external references. -/
def externalEntry (entry : Value) : Except Failure (Key × Key) := do
  let id := (entry.field? "@id").getD .null
  if id.isAbsent then
    .error (.malformed ("Malformed external reference: " ++ (← entry.toShown)) [])
  let name := (entry.field? "qualifiedName").getD (.text "")
  return (.text (← id.toText), .text (← name.toText))

/-- The id and the name of one entry of a mapping from ids to names. -/
def externalPair (entry : Value × Value) : Except Failure (Key × Key) := do
  return (.text (← entry.1.toText), .text (← entry.2.toText))

/-- The external references that a value gives: a mapping from ids to names, or a
list of entries. -/
def externalsOf (value : Value) : Except Failure (List (Key × Key)) :=
  if value.isAbsent then .ok []
  else
    match value.opened with
    | .map entries => Entries.ofPairs <$> entries.mapM externalPair
    | .list entries => Entries.ofPairs <$> entries.mapM externalEntry
    | _ => .error (.malformed "externalReferences must be a list" [])

def partsOf? (value : Value) : Option (List Value) :=
  match value.opened with
  | .list items => some items
  | .map entries => some (entries.map (·.1))
  | .set members => some members
  | .text s => some (s.toList.map fun c => .text (String.singleton c))
  | .bytes octets => some (octets.map fun octet => .int octet.toNat)
  | .pair first second => some [first, second]
  | _ => none

def metadataEntry (pair : Value) : Except Failure (Value × Value) :=
  match partsOf? pair with
  | none => .error .wrongKind
  | some [key, value] => if key.isKey then .ok (key, value) else .error .wrongKind
  | some _ => .error .wrongValue

/-- The metadata that a value gives: a mapping, or pairs of keys and values. -/
def metadataOf (value : Value) : Except Failure (List (Value × Value)) :=
  if value.isAbsent then .ok []
  else
    match value.entries? with
    | some entries => .ok entries
    | none =>
        match partsOf? value with
        | none => .error .wrongKind
        | some pairs => Entries.ofPairs <$> pairs.mapM metadataEntry

end Document

end Sysml
