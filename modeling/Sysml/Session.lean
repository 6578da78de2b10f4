import Sysml.Workspace.Checks
import Sysml.Workspace.Pins

/-!
# Sessions

A workspace together with the phase it is in. Whatever is loaded leads back to
the loading phase, and questions are answered only while the index is current.
What an operation did before it failed stays done.
-/

set_option autoImplicit false

namespace Sysml

inductive NoteLevel where
  | info
  | warning
  deriving DecidableEq, Repr, Inhabited

/-- Something that an operation tells beside its answer. -/
structure Note where
  level : NoteLevel
  text : String
  deriving DecidableEq, Repr, Inhabited

structure Session where
  workspace : Workspace := {}
  phase : Phase := .empty
  /-- Something was loaded since the index was built. -/
  isDirty : Bool := false
  /-- What operations told so far. -/
  notes : List Note := []
  deriving Inhabited

abbrev Operation := ExceptT Failure (StateM Session)

namespace Session

def onWorkspace {α : Type} (run : Workspace → Except Failure α × Workspace) : Operation α := do
  let session ← get
  let (result, workspace) := run session.workspace
  set { session with workspace }
  match result with
  | .ok value => pure value
  | .error failure => throw failure

def note (level : NoteLevel) (text : String) : Operation Unit :=
  modify fun session => { session with notes := session.notes ++ [⟨level, text⟩] }

def touched (session : Session) : Session :=
  { session with phase := .loading, isDirty := true }

def load (path text : String) (isLibrary : Bool) : Operation (List Diagnostic) := do
  modify fun session =>
    touched { session with workspace := session.workspace.load path text isLibrary }
  return ((← get).workspace.file? path).elim [] (·.faults)

def loadModel (symbols : List Symbol) (source : String) : Operation Unit :=
  modify fun session =>
    touched { session with workspace := session.workspace.loadModel symbols source }

/-- Applies the pins that entries of companion data describe, and tells how many
applied. After an entry that is refused nothing counts as loaded. -/
def applyEntries (entries : List Value) : Operation Nat := do
  let count ← onWorkspace (·.applyEntries entries)
  if count ≠ 0 then modify touched
  return count

/-- Builds the index, unless it is current. -/
def reindex : Operation Unit := do
  if (← get).phase = .empty then
    let _ ← onWorkspace Workspace.rebuild
    modify fun session => { session with phase := .indexed }
  else if (← get).isDirty then
    let _ ← onWorkspace Workspace.rebuild
    modify fun session => { session with phase := .indexed, isDirty := false }

def isReady (session : Session) : Bool :=
  match session.phase with
  | .empty | .loading => false
  | .indexed | .diagnosed | .exported => true

/-- Fails unless the index is current. -/
def require (operation : String) : Operation Unit := do
  let session ← get
  if !session.isReady then throw (.wrongPhase operation session.phase)

def index : Operation Scope.Index := do
  require "index"
  onWorkspace Workspace.currentIndex

def summary : Operation (Nat × Nat) := do
  require "query_summary"
  let files := (← get).workspace.files.length
  return (files, (← onWorkspace Workspace.currentIndex).symbols.length)

def symbols : Operation (List Symbol) := do
  return (← index).symbols

def files : Operation (List SourceFile) := do
  require "files"
  return (← get).workspace.files

def fileSymbols (path : String) : Operation (List Symbol) := do
  require "file_symbols"
  return ((← get).workspace.file? path).elim [] (·.symbols)

def rootImports (path : String) : Operation (List Import) := do
  require "root_imports"
  return ((← get).workspace.file? path).elim [] (·.imports)

def checkFile (path : String) : Operation (List Diagnostic) := do
  require "check_file"
  onWorkspace (·.checkFile path)

def search {α : Type} (run : Scope.Index → Scope.Search α) : Operation α := do
  let index ← index
  onWorkspace (·.search (run index))

def markDiagnosed : Operation Unit := do
  require "diagnostics"
  modify fun session => { session with phase := .diagnosed }

def markExported : Operation Unit := do
  require "export"
  modify fun session => { session with phase := .exported }

end Session

end Sysml
