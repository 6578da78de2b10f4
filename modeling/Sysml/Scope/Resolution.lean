import Sysml.Failure
import Sysml.Scope.Index

/-!
# Name resolution

What a path means at a place. The first segment is looked for in the namespace
of the place, then in the namespaces around it: among members, members inherited
through references, and imports at each level. Further segments are members of
what the segment before them means. A path that leads nowhere so may still be
the qualified name of a symbol.

Answers are kept in a memo. A query that comes up again while it is being
answered has no answer there, so cyclic references do not make a search run on
for ever. References lead to further queries; how deep these may nest is
bounded (`Index.depthBound`), and only redefinitions that depend on each other
reach the bound.
-/

set_option autoImplicit false

namespace Sysml.Scope

/-- A path as seen from a namespace in a file. -/
structure Query where
  path : String
  scope : Option Key
  file : String
  deriving BEq, Repr, Inhabited

/-- The answers that were given, latest first. -/
abbrev Memo := List (Query × Option Symbol)

/-- A search, which may fail and which adds to the memo also when it does. -/
abbrev Search := ExceptT Failure (StateM Memo)

abbrev Refer := List Query → Reference → Symbol → Search (Option Symbol)

/-- The member that `down` finds in what one of the references leads to, with
the namespaces visited until then. A reference that leads back to `space` is
passed over. -/
def inherited (refer : Reference → Symbol → Search (Option Symbol))
    (down : Key → List Key → Search (Option Symbol × List Key)) (space : Key) :
    List (Symbol × Reference) → List Key → Search (Option Symbol × List Key)
  | [], visited => pure (none, visited)
  | (symbol, reference) :: rest, visited => do
      match ← refer reference symbol with
      | none => inherited refer down space rest visited
      | some general =>
          if general.qualifiedName == space then inherited refer down space rest visited
          else
            let (found, visited) ← down general.qualifiedName visited
            match found with
            | some member => pure (some member, visited)
            | none => inherited refer down space rest visited

/-- The member or inherited member that a name means in a namespace. No
namespace is searched twice for what it inherits; the nesting of the search is
bounded by `fuel`. -/
def member (index : Index) (refer : Reference → Symbol → Search (Option Symbol)) (name : String) :
    Nat → Option Key → List Key → Search (Option Symbol × List Key)
  | 0, _, _ => throw .unbounded
  | fuel + 1, space, visited =>
      match (index.members space).find? (answersTo name) with
      | some found => pure (some found, visited)
      | none =>
          match space with
          | none => pure (none, visited)
          | some space =>
              if visited.contains space then pure (none, visited)
              else
                inherited refer
                  (fun general visited => member index refer name fuel (some general) visited)
                  space (index.outgoing space) (space :: visited)

/-- A search for inherited members visits each qualified name at most once. -/
def Index.memberFuel (index : Index) : Nat :=
  index.symbols.length + 2

def findMember (index : Index) (refer : Reference → Symbol → Search (Option Symbol))
    (space : Option Key) (name : String) : Search (Option Symbol) := do
  return (← member index refer name index.memberFuel space []).1

def findInherited (index : Index) (refer : Reference → Symbol → Search (Option Symbol))
    (space : Key) (name : String) : Search (Option Symbol) := do
  let down := fun (general : Key) => member index refer name index.memberFuel (some general)
  return (← inherited refer down space (index.outgoing space) [space]).1

/-- The first symbol with a name below the queued ones, level by level. The
members of one qualified name are queued once. -/
def descendantFrom (index : Index) (name : String) :
    Nat → List Symbol → List Key → Option Symbol
  | 0, _, _ => none
  | _ + 1, [], _ => none
  | fuel + 1, symbol :: queue, expanded =>
      if symbol.name.isText name then some symbol
      else if expanded.contains symbol.qualifiedName then
        descendantFrom index name fuel queue expanded
      else
        descendantFrom index name fuel (queue ++ index.members (some symbol.qualifiedName))
          (symbol.qualifiedName :: expanded)

/-- The first symbol with a name below a namespace, level by level. -/
def descendant (index : Index) (space : Key) (name : String) : Option Symbol :=
  let size := index.symbols.length + 1
  descendantFrom index name (size * size) (index.members (some space)) []

def boundTo (index : Index) (id : Option Key) : Except Failure (Option Symbol) :=
  match Key.given? id with
  | none => .ok none
  | some id => index.lookupId <$> id.proper

/-- What a path names in a namespace or in one around it. A name that is no text
does not tell what is around it. -/
def lookupOutward (index : Index) (path scope : Key) : Except Failure (Option Symbol) :=
  let inside (outer : String) := index.lookup (.text (QualifiedName.join outer path.display))
  match scope.text? with
  | some scope => .ok ((QualifiedName.enclosing scope).findSome? inside)
  | none =>
      match inside scope.display with
      | some found => .ok (some found)
      | none => .error .wrongKind

def resolveImport (index : Index) (i : Import) (scope : Option Key) :
    Except Failure (Option Symbol) := do
  match ← boundTo index i.targetId with
  | some found => return some found
  | none =>
      match index.lookup (← i.path.proper) with
      | some found => return some found
      | none =>
          match scope with
          | none => return none
          | some scope => lookupOutward index i.path scope

/-- The mark of a namespace in a search through imports; the root has one for each file. -/
def importMark (space : Option Key) (file : String) : Key :=
  space.getD (.text ("<root:" ++ file ++ ">"))

/-- What a name means through imports. `down` goes on through the imports of
another namespace. -/
def throughEach (index : Index) (refer : Reference → Symbol → Search (Option Symbol))
    (down : Key → List Key → Search (Option Symbol × List Key)) (name : String)
    (space : Option Key) (publicOnly : Bool) :
    List Import → List Key → Search (Option Symbol × List Key)
  | [], visited => pure (none, visited)
  | i :: rest, visited => do
      let next := throughEach index refer down name space publicOnly rest
      if publicOnly && i.visibility != "public" then next visited
      else
        match ← resolveImport index i space with
        | none => next visited
        | some target =>
            if !(i.isNamespace || i.isRecursive) then
              if target.name.isText name then pure (some target, visited) else next visited
            else
              match ← findMember index refer (some target.qualifiedName) name with
              | some found => pure (some found, visited)
              | none =>
                  match (if i.isRecursive then descendant index target.qualifiedName name
                    else none) with
                  | some found => pure (some found, visited)
                  | none =>
                      let (found, visited) ← down target.qualifiedName visited
                      match found with
                      | some found => pure (some found, visited)
                      | none => next visited

/-- What a name means through the imports of a namespace and through the public
imports of the namespaces reached. -/
def throughImports (index : Index) (refer : Reference → Symbol → Search (Option Symbol))
    (name file : String) :
    Nat → Option Key → Bool → List Key → Search (Option Symbol × List Key)
  | 0, _, _, _ => throw .unbounded
  | fuel + 1, space, publicOnly, visited =>
      let mark := importMark space file
      if visited.contains mark then pure (none, visited)
      else
        throughEach index refer
          (fun target visited =>
            throughImports index refer name file fuel (some target) true visited)
          name space publicOnly (index.importsOf space file) (mark :: visited)

/-- What a name means in one namespace: members before imports. -/
def inNamespace (index : Index) (refer : Reference → Symbol → Search (Option Symbol))
    (name file : String) (space : Option Key) : Search (Option Symbol) := do
  match ← findMember index refer space name with
  | some found => pure (some found)
  | none => return (← throughImports index refer name file index.memberFuel space false []).1

/-- The namespace around one of a name, as the name says. A name that is no text
does not say it. -/
def parentScope (name : Key) : Except Failure (Option Key) :=
  match name.text? with
  | some name => .ok ((QualifiedName.parent? name).map .text)
  | none => .error .wrongKind

/-- The namespace around another: the owner of the symbol it names, else what
its name says. -/
def outerScope (index : Index) (space : Key) : Except Failure (Option Key) :=
  match index.lookup space with
  | some symbol => .ok symbol.owner
  | none => parentScope space

def outward (index : Index) (refer : Reference → Symbol → Search (Option Symbol))
    (name file : String) : Nat → Option Key → Search (Option Symbol)
  | 0, _ => throw .unbounded
  | fuel + 1, space => do
      match ← inNamespace index refer name file space with
      | some found => pure (some found)
      | none =>
          match space with
          | none => pure none
          | some space => outward index refer name file fuel (← outerScope index space)

/-- A walk outward passes each indexed name at most once, and shortens a name
that is not indexed. -/
def Index.outwardFuel (index : Index) (scope : Option Key) : Nat :=
  let size (name : Option Key) : Nat := ((name.bind Key.text?).getD "").length
  let longest := (index.symbols.map fun symbol => size symbol.owner).foldl max (size scope)
  (index.symbols.length + 2) * (longest + 2)

def descend (index : Index) (refer : Reference → Symbol → Search (Option Symbol)) :
    Option Symbol → List String → Search (Option Symbol)
  | none, _ => pure none
  | some symbol, [] => pure (some symbol)
  | some symbol, segment :: rest => do
      descend index refer (← findMember index refer (some symbol.qualifiedName) segment) rest

/-- The answer to a query, without the memo. -/
def answer (index : Index) (refer : Reference → Symbol → Search (Option Symbol)) (query : Query) :
    Search (Option Symbol) := do
  match QualifiedName.segments query.path with
  | [] => pure none
  | first :: rest =>
      let start ← outward index refer first query.file (index.outwardFuel query.scope) query.scope
      match ← descend index refer start rest with
      | some found => pure (some found)
      | none => pure (index.lookup (.text query.path))

def resolveWith (index : Index) (refer : Refer) (active : List Query) (query : Query) :
    Search (Option Symbol) := do
  match (← get).lookup query with
  | some known => pure known
  | none =>
      if active.contains query then pure none
      else
        let found ← answer index (refer (query :: active)) query
        modify ((query, found) :: ·)
        pure found

/-- What a document binds a reference to: the symbol of its id, or that of its
qualified name. -/
def boundTarget (index : Index) (reference : Reference) : Except Failure (Option Symbol) := do
  match ← boundTo index reference.targetId with
  | some found => return some found
  | none =>
      match Key.given? reference.targetName with
      | none => return none
      | some name => return index.lookup (← name.proper)

/-- The path of a reference; a target that is no text is none. -/
def pathOf (reference : Reference) : Except Failure String :=
  match reference.target.text? with
  | some path => .ok path
  | none => .error .wrongKind

/-- What a redefinition means: a feature that the owner inherits, else what the
path means around the owner, but never the redefining feature itself. -/
def resolveRedefinition (index : Index) (refer : Refer) (active : List Query) (path : String)
    (symbol : Symbol) (owner : Key) : Search (Option Symbol) := do
  match (QualifiedName.segments path).getLast? with
  | none => throw .noSegments
  | some last =>
      match ← findInherited index (refer active) owner last with
      | some found => pure (some found)
      | none =>
          let found ← resolveWith index refer active ⟨path, ← parentScope owner, symbol.file⟩
          pure (found.filter fun found => found.serial != symbol.serial)

/-- What a reference of a symbol means; references nest at most `depth` deep. -/
def referAt (index : Index) : Nat → Refer
  | 0, _, _, _ => throw .unbounded
  | depth + 1, active, reference, symbol => do
      match ← boundTarget index reference with
      | some found => pure (some found)
      | none =>
          let path ← pathOf reference
          match reference.kind, symbol.owner with
          | .redefinition, some owner =>
              resolveRedefinition index (referAt index depth) active path symbol owner
          | _, _ =>
              resolveWith index (referAt index depth) active ⟨path, symbol.owner, symbol.file⟩

def Index.depthBound (index : Index) : Nat :=
  let references := index.symbols.foldl (fun count symbol => count + symbol.references.length) 0
  (references + 2) * (references + 2)

/-- What a path means as seen from a namespace in a file. -/
def resolve (index : Index) (query : Query) : Search (Option Symbol) :=
  resolveWith index (referAt index index.depthBound) [] query

def resolveReference (index : Index) (reference : Reference) (symbol : Symbol) :
    Search (Option Symbol) :=
  referAt index (index.depthBound + 1) [] reference symbol

end Sysml.Scope
