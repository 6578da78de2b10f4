import Sysml.Symbol
import Sysml.Digest.Uuid

/-!
# Documents

A model as a list of records that refer to each other by id. Elements have an
owner; relationships have a source and a target besides. Ids that a document
refers to and does not hold are listed with the names of what they stand for.
-/

set_option autoImplicit false

namespace Sysml

/-- One element or relationship of a document. Names and documentation are kept
as the values that a document gives; `null` stands for none. -/
structure Record where
  id : Key
  kind : String
  name : Value := .null
  qualifiedName : Value := .null
  owner : Option Key := none
  source : Option Key := none
  target : Option Key := none
  doc : Value := .null
  shortName : Value := .null
  isAbstract : Bool := false
  properties : List (Value × Value) := []
  provenance : Value := .text "model"
  deriving Repr, Inhabited

structure Document where
  records : List Record := []
  /-- What ids that are no record's stand for. -/
  externalRefs : List (Key × Key) := []
  metadata : List (Value × Value) := []
  deriving Repr, Inhabited

def RefKind.metaclass : RefKind → String
  | .typing => "FeatureTyping"
  | .specialization => "Specialization"
  | .subsetting => "Subsetting"
  | .redefinition => "Redefinition"

def RefKind.ofMetaclass? (kind : String) : Option RefKind :=
  RefKind.all.find? fun reference => reference.metaclass == kind

namespace Record

def namespaceImport : String := "NamespaceImport"

def membershipImport : String := "MembershipImport"

def modelProvenance : String := "model"

/-- The provenance of library elements that are part of a document. -/
def inlinedProvenance : String := "self-contained"

def isImportKind (kind : String) : Bool :=
  kind == namespaceImport || kind == membershipImport

def isRelationshipKind (kind : String) : Bool :=
  (RefKind.ofMetaclass? kind).isSome || isImportKind kind

def isRelationship (record : Record) : Bool :=
  isRelationshipKind record.kind || record.source.isSome

/-- The ids that a record refers to, with the part they play. -/
def ends (record : Record) : List (String × Key) :=
  [("owner", record.owner), ("source", record.source), ("target", record.target)].filterMap
    fun (role, id) => (Key.given? id).map fun id => (role, id)

def references (record : Record) : List Key :=
  record.ends.map (·.2)

/-- The id of the record that a relationship belongs to: its source, or else its
owner. -/
def origin (record : Record) : Key :=
  ((Key.given? record.source).or (Key.given? record.owner)).getD (.text "")

def property? (record : Record) (key : String) : Option Value :=
  record.properties.lookup (.text key)

end Record

namespace Document

def toolName : String := "syster"

def toolVersion : String := "0.3.0"

def completed (metadata : List (Value × Value)) : List (Value × Value) :=
  Entries.putNew (.text "selfContained") (.bool false)
    (Entries.putNew (.text "version") (.text toolVersion)
      (Entries.putNew (.text "tool") (.text toolName) metadata))

def make (records : List Record) (externalRefs : List (Key × Key))
    (metadata : List (Value × Value)) : Document :=
  ⟨records, externalRefs, completed metadata⟩

/-- The first record of an id. -/
def get? (document : Document) (id : Key) : Option Record :=
  document.records.find? fun record => record.id == id

/-- The last record of an id, which stands for it where ids are repeated. -/
def last? (document : Document) (id : Key) : Option Record :=
  document.records.reverse.find? fun record => record.id == id

def ids (document : Document) : List Key :=
  document.records.map (·.id)

def elements (document : Document) : List Record :=
  document.records.filter fun record => !record.isRelationship

def relationships (document : Document) : List Record :=
  document.records.filter fun record => record.isRelationship

/-- The records of an owner, or those without one. -/
def childrenOf (document : Document) (owner : Option Key) : List Record :=
  document.records.filter fun record => record.owner == owner

/-- An id that is a record's or stands for something outside. -/
def knows (document : Document) (id : Key) : Bool :=
  document.ids.contains id || (document.externalRefs.map (·.1)).contains id

def danglingReferences (document : Document) : List String :=
  document.records.flatMap fun record =>
    (record.ends.filter fun reference => !document.knows reference.2).map fun (role, id) =>
      record.kind ++ " " ++ record.id.display ++ ": " ++ role ++ " references unknown element " ++
        id.display

def repeatedIds : List Key → List Key → List Key
  | _, [] => []
  | seen, id :: rest =>
      if seen.contains id then id :: repeatedIds seen rest else repeatedIds (id :: seen) rest

/-- What makes a document no whole model: dangling references and repeated ids. -/
def problems (document : Document) : List String :=
  document.danglingReferences ++
    (repeatedIds [] document.ids).map fun id => "Duplicate element id " ++ id.display

def idSpace : List UInt8 :=
  [0x6f, 0x1c, 0x3a, 0x52, 0x8d, 0x3e, 0x5b, 0x1e, 0x9a, 0x8c, 0x2f, 0x4e, 0x7d, 0x9b, 0x0c, 0x11]

/-- The id of an element or relationship that has none: it depends on the kind
and the name alone. -/
def mintId (kind name : String) : String :=
  Digest.uuid5 idSpace (kind ++ ":" ++ name)

end Document

end Sysml
