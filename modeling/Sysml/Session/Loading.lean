import Sysml.Document.Companion
import Sysml.Document.Export
import Sysml.Document.Import
import Sysml.Document.SourceText
import Sysml.Files.Discovery
import Sysml.Format
import Sysml.Json.Reader
import Sysml.Report
import Sysml.Text.Lines

/-!
# Loading and exchange

Bringing files into a session: sources and the standard library, the companion
data that gives elements their ids, and documents of any format. A session's
model is written in a format, and a document can be taken in to be written
again in another one.
-/

set_option autoImplicit false

namespace Sysml

open Files (Path Tree)

/-- Where to look for the standard library: at a path that must be there, or
else at the first candidate that is a directory. Settings may fail to tell the
candidates, which then is found out before anything else. -/
structure LibrarySearch where
  explicit : Option Path := none
  candidates : Except Failure (List Path) := .ok []

namespace Files.Tree

/-- The text of a file, with line feeds as line ends. -/
def readText (tree : Tree) (path : Path) : Except Failure String :=
  match tree.read path with
  | .error fault => .error (.noAccess fault path.text)
  | .ok octets =>
      match Text.Utf8.decode octets.toList with
      | .error fault => .error (.notText fault)
      | .ok text => .ok (String.ofList (Text.unifyLineEnds text))

def readCompanion (tree : Tree) (path : Path) : Except Failure (List Value) := do
  let data ← (Json.read (← tree.readText path)).mapError (Document.jsonFailure .notJson)
  Document.companionEntries data

end Files.Tree

namespace Session

/-- Writes the model in the format of a name, which is looked up first. -/
def exportAs (format : String) (selfContained : Bool) (name : Value) : Operation ByteArray := do
  let format ← MonadExcept.ofExcept (Format.ofName format)
  let document ← buildDocument selfContained name
  let octets ← MonadExcept.ofExcept (format.write document)
  markExported
  return octets

def roundTrip (document : Document) (format source : String) (selfContained : Bool) :
    Operation ByteArray := do
  let _ ← importDocument document source
  reindex
  exportAs format selfContained ((document.metadata? "name").getD (.text "model"))

def loadFile (tree : Tree) (path : Path) (isLibrary : Bool) : Operation (List Diagnostic) := do
  note .info ("  Loading: " ++ path.text)
  match tree.readText path with
  | .ok text => load path.text text isLibrary
  | .error failure => throw (.notRead path.text failure.message)

def loadDirectory (tree : Tree) (directory : Path) (isLibrary : Bool) :
    Operation (List (Path × List Diagnostic)) := do
  note .info ("Scanning directory: " ++ directory.text)
  (tree.discover directory).mapM fun path => do
    return (path, ← loadFile tree path isLibrary)

def loadInput (tree : Tree) (input : Path) : Operation (List (Path × List Diagnostic)) := do
  if tree.hasFile input then return [(input, ← loadFile tree input false)]
  else if tree.hasDirectory input then loadDirectory tree input false
  else throw (.noInput input.text)

def findLibrary (tree : Tree) (search : LibrarySearch) : Operation (Option Path) := do
  let candidates ← MonadExcept.ofExcept search.candidates
  match search.explicit with
  | some path => if tree.has path then return some path else throw (.noLibrary path.text)
  | none =>
      match candidates.find? tree.hasDirectory with
      | some path => return some path
      | none =>
          note .info "Standard library not found"
          return none

def loadLibrary (tree : Tree) (search : LibrarySearch) : Operation Unit := do
  let _ ← MonadExcept.ofExcept search.candidates
  note .info "Loading standard library..."
  if let some directory ← findLibrary tree search then
    let _ ← loadDirectory tree directory true

/-- Loads the standard library, unless none is wanted, and an input. -/
def loadWorkspace (tree : Tree) (input : Path) (library : Option LibrarySearch) :
    Operation Unit := do
  if let some search := library then loadLibrary tree search
  let _ ← loadInput tree input

/-- What is told of a companion file that cannot be used; nothing for a failure
that is no fault of the file. -/
def companionWarning? (path : Path) : Failure → Option String
  | .wrongValue =>
      some ("Note: Could not load metadata: " ++ path.text ++
        " does not contain a metadata object")
  | .noAccess _ _ | .notText _ | .notJson | .longNumber => some "Note: Could not load metadata"
  | _ => none

/-- The entries of all companion files of an input. A file that cannot be used
is passed over with a warning. -/
def readCompanions (tree : Tree) (input : Path) : Operation (List Value) := do
  let entries ← (tree.companions input).mapM fun path => do
    match tree.readCompanion path with
    | .ok entries =>
        note .info ("Loaded metadata from " ++ path.text)
        return entries
    | .error failure =>
        match companionWarning? path failure with
        | some warning =>
            note .warning warning
            return []
        | none => throw failure
  return entries.flatten

/-- Loads an input, gives its elements the ids of the companion files, and
indexes it. -/
def loadForExport (tree : Tree) (input : Path) (library : Option LibrarySearch) :
    Operation Unit := do
  loadWorkspace tree input library
  let entries ← readCompanions tree input
  if !entries.isEmpty then
    let count ← applyEntries entries
    note .info ("Restored " ++ toString count ++ " element IDs from metadata")
  reindex

def modelName (input : Path) : Value :=
  .text (if input.stem.isEmpty then "model" else input.stem)

/-- The model of an input in a format, which is looked up first. -/
def exportInput (tree : Tree) (input : Path) (format : String) (selfContained : Bool)
    (library : Option LibrarySearch) : Operation ByteArray := do
  let _ ← MonadExcept.ofExcept (Format.ofName format)
  loadForExport tree input library
  exportAs format selfContained (modelName input)

def outlineInput (tree : Tree) (input : Path) (library : Option LibrarySearch) :
    Operation String := do
  loadWorkspace tree input library
  reindex
  MonadExcept.ofExcept (Json.render true (← Report.outline))

def readDocument (tree : Tree) (path : Path) (format : Option String) : Operation Document := do
  let format ← MonadExcept.ofExcept (Format.ofPath path format)
  note .info ("Importing " ++ path.text ++ " as " ++ format.name)
  match tree.read path with
  | .ok octets => MonadExcept.ofExcept (format.read octets)
  | .error fault => throw (.notRead path.text (fault.message path.text))

/-- Counts the records of a document in a file and tells its problems. -/
def validateFile (tree : Tree) (path : Path) (format : Option String) :
    Operation ImportResult := do
  return (← readDocument tree path format).validate

def importFile (tree : Tree) (path : Path) : Operation ImportResult := do
  importDocument (← readDocument tree path none) path.text

def decompileFile (tree : Tree) (path : Path) (format : Option String) :
    Operation Document.Decompiled := do
  note .info ("Decompiling " ++ path.text)
  let document ← readDocument tree path format
  MonadExcept.ofExcept (document.decompile path.text)

end Session

end Sysml
