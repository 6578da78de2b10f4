import Sysml.Notation.Reader
import Sysml.Scope.Resolution

/-!
# Workspaces

The files of a model with their symbols, the index over them, and the findings
of the last check. Loading a file takes its symbols in under fresh serial
numbers; the index stays as it was until it is built again.
-/

set_option autoImplicit false

namespace Sysml

structure SourceFile where
  path : String
  text : String
  isLibrary : Bool
  symbols : List Symbol
  /-- The imports outside of any declaration. -/
  imports : List Import
  /-- The faults of its notation. -/
  faults : List Diagnostic
  deriving Repr, Inhabited

structure Workspace where
  /-- The files, in the order in which they were loaded last. -/
  files : List SourceFile := []
  index : Option Scope.Index := none
  /-- The answers that the index has given. -/
  memo : Scope.Memo := []
  /-- What the last check found, by file. -/
  findings : List (String × List Diagnostic) := []
  /-- The serial number of the next symbol. -/
  nextSerial : Nat := 0
  deriving Inhabited

namespace Workspace

def file? (w : Workspace) (path : String) : Option SourceFile :=
  w.files.find? fun file => file.path == path

def rootImports (w : Workspace) : List (String × List Import) :=
  w.files.map fun file => (file.path, file.imports)

def symbols (w : Workspace) : List Symbol :=
  w.files.flatMap (·.symbols)

def numbered (first : Nat) (symbols : List Symbol) : List Symbol :=
  symbols.mapIdx fun i symbol => { symbol with serial := first + i }

/-- Puts a file at the end of the load order, in place of one with its path. An
index that is there sees the new file's imports at once. -/
def put (w : Workspace) (file : SourceFile) : Workspace :=
  let files := w.files.filter (fun held => held.path != file.path) ++
    [{ file with symbols := numbered w.nextSerial file.symbols }]
  { w with
    files
    index := w.index.map fun index =>
      { index with rootImports := files.map fun file => (file.path, file.imports) }
    nextSerial := w.nextSerial + file.symbols.length }

def load (w : Workspace) (path text : String) (isLibrary : Bool) : Workspace :=
  let parsed := Notation.parse path text isLibrary
  w.put ⟨path, text, isLibrary, parsed.symbols, parsed.imports, parsed.diagnostics⟩

/-- Takes in the symbols of a document as a file without text. -/
def loadModel (w : Workspace) (symbols : List Symbol) (source : String) : Workspace :=
  w.put ⟨source, "", false, symbols, [], []⟩

def adjust (w : Workspace) (change : Symbol → Symbol) : Workspace :=
  { w with
    files := w.files.map fun file => { file with symbols := file.symbols.map change }
    index := w.index.map (·.adjust change)
    memo := w.memo.map fun entry => (entry.1, entry.2.map change) }

def pin (w : Workspace) (serial : Nat) (id : Key) : Workspace :=
  w.adjust fun symbol =>
    if symbol.serial = serial then { symbol with elementId := some id } else symbol

/-- Runs a search on an index; the memo keeps what it found also when it fails. -/
def search {α : Type} (w : Workspace) (run : Scope.Search α) : Except Failure α × Workspace :=
  let (result, memo) := run.run.run w.memo
  (result, { w with memo })

end Workspace

end Sysml
