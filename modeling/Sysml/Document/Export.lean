import Sysml.Document
import Sysml.Session

/-!
# Export

A session's model as a document. The symbols of the files that are no libraries
become element records in load order; their references and owned imports that
mean something become relationship records. Library elements are listed as
external references, or, in a self-contained document, become records
themselves together with their owners and with what they refer to in turn.
-/

set_option autoImplicit false

namespace Sysml

structure Draft where
  records : List Record := []
  externalRefs : List (Key × Key) := []
  /-- The serial numbers of the symbols that were taken up. -/
  visited : List Nat := []
  /-- Library symbols that are still to be taken up. -/
  pending : List Symbol := []
  memo : Scope.Memo := []
  deriving Inhabited

abbrev Drafting := ExceptT Failure (StateM Draft)

/-- What a relationship leads to: a symbol, or an element that is not loaded, of
which only the id and the name are known. -/
inductive Goal where
  | loaded (symbol : Symbol)
  | outside (id name : Key)
  deriving Repr, Inhabited

/-- A relationship that a symbol has, before it has an id. -/
structure Link where
  kind : String
  goal : Goal
  name : Value := .null
  properties : List (Value × Value) := []
  /-- The id that it came with. -/
  carried : Option Key
  /-- What an id is minted from if it has none. -/
  key : String
  deriving Repr, Inhabited

/-- The last name of a path. -/
def lastPiece (path : Key) : Except Failure String := do
  return (QualifiedName.pieces (← path.value.pathText)).getLast?.getD ""

namespace Draft

def search {α : Type} (run : Scope.Search α) : Drafting α := do
  let draft ← get
  let (result, memo) := run.run.run draft.memo
  set { draft with memo }
  match result with
  | .ok value => pure value
  | .error failure => throw failure

/-- The symbol that has the id: of a package declared in pieces the first piece. -/
def canonical (index : Scope.Index) (symbol : Symbol) : Symbol :=
  if symbol.kind.isPackage then
    match index.lookup symbol.qualifiedName with
    | some first => if first.kind.isPackage then first else symbol
    | none => symbol
  else symbol

/-- The id of a symbol: its own, else one minted from its kind and qualified
name. -/
def idOf (index : Scope.Index) (symbol : Symbol) : Key :=
  (Key.given? (canonical index symbol).elementId).getD
    (Document.mintId (canonical index symbol).kind.metaclass
      (canonical index symbol).qualifiedName.display)

def holds (draft : Draft) (id : Key) : Bool :=
  draft.records.any fun record => record.id == id

def add (draft : Draft) (record : Record) : Draft :=
  { draft with records := draft.records ++ [record] }

/-- Takes note of a symbol that a record refers to. A library symbol without a
record is listed, or queued to become one. -/
def mention (index : Scope.Index) (selfContained : Bool) (target : Symbol) (draft : Draft) :
    Draft :=
  if target.isLibrary && !draft.holds (idOf index target) then
    if selfContained then { draft with pending := draft.pending ++ [target] }
    else
      { draft with
        externalRefs := Entries.put (idOf index target) target.qualifiedName draft.externalRefs }
  else draft

/-- Takes note of what a relationship leads to. What is not loaded is listed,
unless it is listed already. -/
def reach (index : Scope.Index) (selfContained : Bool) (goal : Goal) (draft : Draft) : Draft :=
  match goal with
  | .loaded target => draft.mention index selfContained target
  | .outside id name =>
      { draft with externalRefs := Entries.putNew id name draft.externalRefs }

def ownerOf (index : Scope.Index) (symbol : Symbol) : Option Symbol :=
  (Key.given? symbol.owner).bind index.lookup

def elementRecord (index : Scope.Index) (provenance : String) (symbol : Symbol) : Record :=
  { id := idOf index symbol, kind := symbol.kind.metaclass, name := symbol.name.value
    qualifiedName := symbol.qualifiedName.value
    owner := (ownerOf index symbol).map (idOf index)
    doc := symbol.doc
    shortName := if symbol.shortName.isAbsent then .null else symbol.shortName.value
    isAbstract := symbol.isAbstract
    properties :=
      if symbol.direction.isEmpty then [] else [(.text "direction", .text symbol.direction)]
    provenance := .text provenance }

/-- Adds the record of a symbol, unless one with its id is there. -/
def declare (index : Scope.Index) (selfContained : Bool) (provenance : String) (symbol : Symbol)
    (draft : Draft) : Draft :=
  if draft.holds (idOf index symbol) then draft
  else
    let draft := draft.add (elementRecord index provenance symbol)
    match ownerOf index symbol with
    | none => draft
    | some owner => draft.mention index selfContained owner

end Draft

def Goal.id (index : Scope.Index) : Goal → Key
  | .loaded symbol => Draft.idOf index symbol
  | .outside id _ => id

def Link.record (link : Link) (index : Scope.Index) (provenance : String) (owner id : Key) :
    Record :=
  { id, kind := link.kind, name := link.name, owner := some owner, source := some owner
    target := some (link.goal.id index), properties := link.properties
    provenance := .text provenance }

/-- The relationship that a reference is, from what it means. A reference that is
bound to an element that is not loaded keeps the binding. -/
def Reference.link? (reference : Reference) (symbol : Symbol) (meant : Option Symbol) :
    Option Link :=
  let link (goal : Goal) (name : Key) : Link :=
    { kind := reference.kind.metaclass, goal, carried := reference.elementId
      key := symbol.qualifiedName.display ++ "->" ++ name.display }
  match meant with
  | some target => some (link (.loaded target) target.qualifiedName)
  | none =>
      (Key.given? reference.targetId).map fun id =>
        let name := (Key.given? reference.targetName).getD reference.target
        link (.outside id name) name

def Import.link? (i : Import) (symbol : Symbol) (named : Option Symbol) :
    Except Failure (Option Link) :=
  let link (goal : Goal) (name : Value) : Link :=
    { kind :=
        if i.isNamespace || i.isRecursive then Record.namespaceImport else Record.membershipImport
      goal, name, carried := i.elementId
      properties := [(.text "isRecursive", .bool i.isRecursive),
        (.text "visibility", .text i.visibility)]
      key := symbol.qualifiedName.display ++ "->import:" ++ i.text.display }
  match named with
  | some target => .ok (some (link (.loaded target) target.name.value))
  | none =>
      match Key.given? i.targetId with
      | none => .ok none
      | some id => (lastPiece i.path).map fun name => some (link (.outside id i.path) (.text name))

namespace Draft

/-- The keys that are tried one after the other: a key is numbered from two on. -/
def numberedKey (key : String) (ordinal : Nat) : String :=
  if ordinal = 1 then key else key ++ "#" ++ toString ordinal

def mintedId (kind key : String) (ordinal : Nat) : Key :=
  Document.mintId kind (numberedKey key ordinal)

def freshId? (draft : Draft) (kind key : String) : Nat → Nat → Option Key
  | 0, _ => none
  | tries + 1, ordinal =>
      if draft.holds (mintedId kind key ordinal) then
        draft.freshId? kind key tries (ordinal + 1)
      else some (mintedId kind key ordinal)

/-- The id of a relationship: the one it came with if no record has it yet, else a
minted one. -/
def linkId (draft : Draft) (link : Link) : Except Failure Key := do
  let carried ← (Key.given? link.carried).mapM Key.proper
  match carried.filter fun id => !draft.holds id with
  | some id => return id
  | none =>
      match draft.freshId? link.kind link.key (draft.records.length + 1) 1 with
      | some id => return id
      | none => throw .unbounded

def addLink (index : Scope.Index) (selfContained : Bool) (provenance : String) (owner : Key)
    (link : Link) (draft : Draft) : Except Failure Draft := do
  let draft := draft.reach index selfContained link.goal
  return draft.add (link.record index provenance owner (← draft.linkId link))

def addLink? (index : Scope.Index) (selfContained : Bool) (provenance : String) (owner : Key) :
    Option Link → Drafting Unit
  | none => pure ()
  | some link => do set (← addLink index selfContained provenance owner link (← get))

def addReference (index : Scope.Index) (selfContained : Bool) (provenance : String)
    (symbol : Symbol) (reference : Reference) : Drafting Unit := do
  let meant ← search (Scope.resolveReference index reference symbol)
  addLink? index selfContained provenance (idOf index symbol) (reference.link? symbol meant)

def addImport (index : Scope.Index) (selfContained : Bool) (provenance : String)
    (symbol : Symbol) (i : Import) : Drafting Unit := do
  let named ← Scope.resolveImport index i (some symbol.qualifiedName)
  addLink? index selfContained provenance (idOf index symbol) (← i.link? symbol named)

/-- Takes up a symbol, once: its record, unless one with its id is there, and
the records of its references and imports. -/
def takeUp (index : Scope.Index) (selfContained : Bool) (provenance : String) (symbol : Symbol) :
    Drafting Unit := do
  if (← get).visited.contains symbol.serial then return
  modify fun draft =>
    { draft with visited := symbol.serial :: draft.visited }.declare index selfContained provenance
      symbol
  symbol.references.forM (addReference index selfContained provenance symbol)
  symbol.imports.forM (addImport index selfContained provenance symbol)

def drain (index : Scope.Index) (selfContained : Bool) : Nat → Drafting Unit
  | 0 => do
      if !(← get).pending.isEmpty then throw .unbounded
  | fuel + 1 => do
      match (← get).pending with
      | [] => pure ()
      | symbol :: rest =>
          modify fun draft =>
            { draft with
              pending := rest
              externalRefs := Entries.erase (idOf index symbol) draft.externalRefs }
          takeUp index selfContained Record.inlinedProvenance symbol
          drain index selfContained fuel

/-- Each symbol that is taken up queues at most its owner and one symbol for each
of its references and imports. -/
def drainFuel (index : Scope.Index) (draft : Draft) : Nat :=
  index.symbols.foldl
    (fun count symbol => count + symbol.references.length + symbol.imports.length + 1)
    draft.pending.length

/-- Takes up a model's symbols and then what they need from libraries. -/
def compose (index : Scope.Index) (selfContained : Bool) (symbols : List Symbol) :
    Drafting Unit := do
  symbols.forM (takeUp index selfContained Record.modelProvenance)
  drain index selfContained (drainFuel index (← get))

end Draft

namespace Session

/-- The symbols that are a model's own: those of the files that are no libraries,
without library elements that a document brought along. -/
def ownSymbols : Operation (List Symbol) := do
  let files := (← files).filter fun file => !file.isLibrary
  let symbols ← files.mapM fun file => fileSymbols file.path
  return symbols.flatten.filter fun symbol => !symbol.isLibrary

def buildDocument (selfContained : Bool) (name : Value) : Operation Document := do
  let index ← index
  let symbols ← ownSymbols
  let draft ← onWorkspace fun workspace =>
    let (result, draft) := (Draft.compose index selfContained symbols).run.run
      { memo := workspace.memo }
    (result.map fun _ => draft, { workspace with memo := draft.memo })
  let document := Document.make draft.records draft.externalRefs
    [(.text "name", name), (.text "selfContained", .bool selfContained)]
  note .info ("Built document with " ++ toString document.records.length ++ " records")
  return document

end Session

end Sysml
