import Sysml.Document
import Sysml.Session

/-!
# Import

A document's elements as symbols of a session, under their own ids. Names that
a document does not give are made from the names of the owners. Library elements
that a document brings along are bound to the loaded library where it has an
element of the same qualified name.
-/

set_option autoImplicit false

namespace Sysml

/-- The counts and problems of a document, and how many symbols it became. -/
structure ImportResult where
  elementCount : Nat
  relationshipCount : Nat
  messages : List String := []
  symbolCount : Nat := 0
  deriving DecidableEq, Repr, Inhabited

namespace Document

/-- Counts a document's records and tells its problems. -/
def validate (document : Document) : ImportResult :=
  { elementCount := document.elements.length
    relationshipCount := document.relationships.length
    messages := document.problems }

def nameText? (value : Value) : Except Failure (Option String) :=
  match value with
  | .text s => .ok (if s.isEmpty then none else some s)
  | value => if value.isAbsent then .ok none else .error .wrongKind

/-- The names from a record up to the first owner that has a qualified name,
innermost first. An owner that is its own ancestor ends the climb. -/
def climb (document : Document) : Nat → List Key → Record → Except Failure (List String)
  | 0, _, _ => .ok []
  | fuel + 1, seen, record =>
      if seen.contains record.id then .ok []
      else do
        match ← nameText? record.qualifiedName with
        | some name => return [name]
        | none =>
            let id ← nameText? record.id.value
            let name := (← nameText? record.name).getD (id.getD "")
            match (Key.given? record.owner).bind document.last? with
            | none => return [name]
            | some owner => return name :: (← document.climb fuel (record.id :: seen) owner)

/-- The qualified name of a record: its own, else the names of its owners and
itself. Where a name is missing the id stands in for it. -/
def qualifiedNameOf (document : Document) (record : Record) : Except Failure Key :=
  if record.qualifiedName.isAbsent then do
    let names ← document.climb (document.records.length + 1) [] record
    return .text ("::".intercalate names.reverse)
  else .ok ⟨record.qualifiedName⟩

/-- A value where a name is kept; an empty text stands for none. -/
def nameOrEmpty (value : Value) : Key :=
  if value.isAbsent then .text "" else ⟨value⟩

def symbolOf (document : Document) (source : String) (qualifiedName : Key) (record : Record) :
    Except Failure Symbol := do
  let owner ← ((Key.given? record.owner).bind document.last?).mapM document.qualifiedNameOf
  return {
    name := nameOrEmpty record.name
    qualifiedName, kind := SymbolKind.ofMetaclass record.kind, file := source, owner
    shortName := nameOrEmpty record.shortName
    doc := record.doc
    isAbstract := record.isAbstract
    direction := ← ((record.property? "direction").getD (.text "")).toText
    isLibrary := record.provenance.isText Record.inlinedProvenance
    elementId := some record.id }

/-- The symbols of a document under construction: each with its record's id, and
the names that ids stand for. -/
structure Elements where
  symbols : List Symbol
  names : List (Key × Key)
  deriving Repr, Inhabited

/-- A library symbol of the session that an inlined element is bound to. -/
def loadedTwin? (index : Scope.Index) (record : Record) (qualifiedName : Key) :
    Except Failure (Option Symbol) := do
  if record.provenance.isText Record.inlinedProvenance then
    return (index.lookup (← qualifiedName.proper)).filter (·.isLibrary)
  else return none

def takeElements (document : Document) (source : String) (index : Scope.Index) :
    Elements → List Record → Operation Elements
  | taken, [] => pure taken
  | taken, record :: rest => do
      if record.isRelationship then takeElements document source index taken rest
      else
        let name ← MonadExcept.ofExcept (document.qualifiedNameOf record)
        let names := Entries.put record.id name taken.names
        match ← loadedTwin? index record name with
        | some twin =>
            modify fun session =>
              { session with workspace := session.workspace.pin twin.serial record.id }
            takeElements document source index { taken with names } rest
        | none =>
            let symbol ← MonadExcept.ofExcept (document.symbolOf source name record)
            takeElements document source index ⟨taken.symbols ++ [symbol], names⟩ rest

def changeLast (id : Key) (change : Symbol → Symbol) (symbols : List Symbol) : List Symbol :=
  let rec go : List Symbol → List Symbol
    | [] => []
    | symbol :: rest =>
        if symbol.elementId == some id then change symbol :: rest else symbol :: go rest
  (go symbols.reverse).reverse

/-- What a relationship adds to the symbol it belongs to; relationships of other
kinds add nothing. -/
def attach? (names : List (Key × Key)) (record : Record) :
    Except Failure (Option (Symbol → Symbol)) := do
  let target := (names.lookup ((Key.given? record.target).getD (.text ""))).getD (.text "")
  if Record.isImportKind record.kind then
    let i : Import :=
      { path := target
        isNamespace := record.kind == Record.namespaceImport
        isRecursive := !((record.property? "isRecursive").getD (.bool false)).isAbsent
        visibility := ← ((record.property? "visibility").getD (.text "private")).toText
        elementId := some record.id, targetId := record.target }
    return some fun symbol => { symbol with imports := symbol.imports ++ [i] }
  else
    return (RefKind.ofMetaclass? record.kind).map fun kind =>
      let reference : Reference :=
        { kind, target, targetId := record.target, targetName := some target
          elementId := some record.id }
      fun symbol => { symbol with references := symbol.references ++ [reference] }

/-- Adds the relationships to the symbols, and counts those that add nothing. -/
def attachAll (names : List (Key × Key)) :
    List Symbol → Nat → List Record → Except Failure (List Symbol × Nat)
  | symbols, skipped, [] => .ok (symbols, skipped)
  | symbols, skipped, record :: rest => do
      let id := record.origin
      if symbols.any (fun symbol => symbol.elementId == some id) then
        match ← attach? names record with
        | some change => attachAll names (changeLast id change symbols) skipped rest
        | none => attachAll names symbols (skipped + 1) rest
      else attachAll names symbols (skipped + 1) rest

end Document

namespace Session

def importDocument (document : Document) (source : String) : Operation ImportResult := do
  let result := document.validate
  if !result.messages.isEmpty then
    throw (.malformed
      ("Document has " ++ toString result.messages.length ++ " dangling or duplicate references")
      result.messages)
  reindex
  let index ← index
  let taken ← document.takeElements source index ⟨[], document.externalRefs⟩ document.records
  let (symbols, skipped) ← MonadExcept.ofExcept
    (Document.attachAll taken.names taken.symbols 0 document.relationships)
  if skipped ≠ 0 then
    note .warning ("Skipped " ++ toString skipped ++
      " relationships without a supported kind or source")
  loadModel symbols source
  reindex
  note .info "Loaded symbols into workspace with preserved element IDs"
  return { result with messages := [], symbolCount := symbols.length }

end Session

end Sysml
