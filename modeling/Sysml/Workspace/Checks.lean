import Sysml.Workspace

/-!
# Checks

What is wrong with the names of a workspace: members with one name, references
and imports that mean nothing, imports that are repeated, definitions that
specialize themselves, reference usages without a type. Library files are not
checked.
-/

set_option autoImplicit false

namespace Sysml.Workspace

open Scope

/-- The serial numbers of the symbols whose name an earlier sibling has. Packages
that are declared again are no duplicates. `seen` holds the first symbol of each
owner and name. -/
def duplicates : List ((Option Key × Key) × Symbol) → List Symbol → List Nat
  | _, [] => []
  | seen, symbol :: rest =>
      match seen.lookup (symbol.owner, symbol.name) with
      | none => duplicates (seen ++ [((symbol.owner, symbol.name), symbol)]) rest
      | some first =>
          if first.kind.isPackage && symbol.kind.isPackage then duplicates seen rest
          else symbol.serial :: duplicates seen rest

/-- What is wrong with imports, as seen from a namespace; `seen` holds the
imports before them. -/
def checkImports (index : Index) (path : String) (scope : Option Key) :
    List Key → List Import → Except Failure (List Diagnostic)
  | _, [] => .ok []
  | seen, i :: rest => do
      let text ← i.text.proper
      let repeated : List Diagnostic :=
        if seen.contains text then [⟨path, i.span, .duplicateImport text.display⟩] else []
      let unresolved : List Diagnostic :=
        match ← resolveImport index i scope with
        | some _ => []
        | none => [⟨path, i.span, .unresolvedImport text.display⟩]
      return repeated ++ unresolved ++ (← checkImports index path scope (text :: seen) rest)

/-- The references of a symbol that mean nothing. References that a document
binds are not checked. -/
def checkReferences (index : Index) (symbol : Symbol) : List Reference → Search (List Diagnostic)
  | [] => pure []
  | reference :: rest => do
      if (Key.given? reference.targetId).isNone then
        let found ← resolveReference index reference symbol
        let others ← checkReferences index symbol rest
        if found.isSome then pure others
        else
          let finding := Finding.unresolved reference.kind reference.target.display
          pure (⟨symbol.file, reference.span, finding⟩ :: others)
      else checkReferences index symbol rest

/-- What the specializations of a symbol lead to, those that were not visited
before, latest first; or none if one of them leads to the qualified name `goal`. -/
def stepGenerals (index : Index) (goal : Key) (symbol : Symbol) :
    List Reference → List Symbol → List Key → Search (Option (List Symbol × List Key))
  | [], stack, visited => pure (some (stack, visited))
  | reference :: rest, stack, visited => do
      if reference.kind = .specialization then
        match ← resolveReference index reference symbol with
        | none => stepGenerals index goal symbol rest stack visited
        | some target =>
            if target.qualifiedName == goal then pure none
            else if visited.contains target.qualifiedName then
              stepGenerals index goal symbol rest stack visited
            else
              stepGenerals index goal symbol rest (target :: stack)
                (target.qualifiedName :: visited)
      else stepGenerals index goal symbol rest stack visited

/-- Whether specializations lead from the stacked symbols to a qualified name.
Each name is stacked once, so `fuel` need not exceed the number of symbols. -/
def reaches (index : Index) (goal : Key) :
    Nat → List Symbol → List Key → Search Bool
  | 0, _, _ => throw .unbounded
  | _ + 1, [], _ => pure false
  | fuel + 1, symbol :: stack, visited => do
      match ← stepGenerals index goal symbol symbol.references stack visited with
      | none => pure true
      | some (stack, visited) => reaches index goal fuel stack visited

def inCycle (index : Index) (symbol : Symbol) : Search Bool :=
  reaches index symbol.qualifiedName (index.symbols.length + 3) [symbol] []

def isCyclic (index : Index) (symbol : Symbol) : Search Bool :=
  if symbol.kind.isDefinition then inCycle index symbol else pure false

def doubledFindings (duplicate : List Nat) (symbol : Symbol) : List Diagnostic :=
  if duplicate.contains symbol.serial then
    [⟨symbol.file, symbol.span,
      .duplicateMember symbol.name.display ((Key.given? symbol.owner).map Key.display)⟩]
  else []

def cycleFindings (symbol : Symbol) (cyclic : Bool) : List Diagnostic :=
  if cyclic then
    [⟨symbol.file, symbol.span, .specializationCycle symbol.qualifiedName.display⟩]
  else []

/-- The finding about a reference usage without a type. -/
def untypedFindings (symbol : Symbol) : List Diagnostic :=
  if symbol.kind = .referenceUsage && !symbol.references.any (fun r => r.kind == .typing) then
    [⟨symbol.file, symbol.span, .untypedReference symbol.name.display⟩]
  else []

def checkSymbol (index : Index) (path : String) (duplicate : List Nat) (symbol : Symbol) :
    Search (List Diagnostic) := do
  let unresolved ← checkReferences index symbol symbol.references
  let imports ← checkImports index path (some symbol.qualifiedName) [] symbol.imports
  let cyclic ← isCyclic index symbol
  return doubledFindings duplicate symbol ++ unresolved ++ imports ++
    cycleFindings symbol cyclic ++ untypedFindings symbol

/-- What is wrong with the symbols of a file, one after the other. -/
def checkSymbols (index : Index) (path : String) (duplicate : List Nat) :
    List Symbol → Search (List Diagnostic)
  | [] => pure []
  | symbol :: rest => do
      let found ← checkSymbol index path duplicate symbol
      let others ← checkSymbols index path duplicate rest
      return found ++ others

def checkFiles (index : Index) (duplicate : List Nat) :
    List SourceFile → Search (List (String × List Diagnostic))
  | [] => pure []
  | file :: rest => do
      if file.isLibrary then checkFiles index duplicate rest
      else
        let imports ← checkImports index file.path none [] file.imports
        let symbols ← checkSymbols index file.path duplicate file.symbols
        let others ← checkFiles index duplicate rest
        return (file.path, imports ++ symbols) :: others

/-- Whether a symbol can be found by its qualified name, its owner and its id. -/
def isIndexable (symbol : Symbol) : Bool :=
  symbol.qualifiedName.isProper && symbol.owner.all Key.isProper &&
    (Key.given? symbol.elementId).all Key.isProper

/-- Builds the index over all files and checks them. Without a proper key for each
symbol there is no index, and the old one stays. The check fails where a symbol's
name is a container, which cannot be told from other names. Then, as after any
failure of the check, the new index stays and the findings are those of the check
before. -/
def rebuild (w : Workspace) : Except Failure Index × Workspace :=
  if !w.symbols.all isIndexable then (.error .wrongKind, w)
  else
    let index := Index.build w.symbols w.rootImports
    let w := { w with index := some index, memo := [] }
    if !index.symbols.all fun symbol => symbol.name.isProper then (.error .wrongKind, w)
    else
      match w.search (checkFiles index (duplicates [] index.symbols) w.files) with
      | (.ok findings, w) => (.ok index, { w with findings })
      | (.error failure, w) => (.error failure, w)

def currentIndex (w : Workspace) : Except Failure Index × Workspace :=
  match w.index with
  | some index => (.ok index, w)
  | none => w.rebuild

/-- The faults of a file's notation and what the last check found in it. -/
def checkFile (w : Workspace) (path : String) : Except Failure (List Diagnostic) × Workspace :=
  match w.file? path with
  | none => (.ok [], w)
  | some file =>
      match w.currentIndex with
      | (.ok _, w) => (.ok (file.faults ++ (w.findings.lookup path).getD []), w)
      | (.error failure, w) => (.error failure, w)

end Sysml.Workspace
