import Sysml.CommandLine.Arguments
import Sysml.CommandLine.Terminal
import Sysml.Session.Loading
import Sysml.Settings

/-!
# Runs

What a command does with the files it finds, and what it shows: data and results
on one stream; notes, diagnostics and failures on the other. A run that writes a
document to the stream of data shows nothing else there.
-/

set_option autoImplicit false

namespace Sysml.CommandLine

open Files (Path Tree)

/-- A run under way: the session, the files as they are by now, and what was
shown. -/
structure Course where
  session : Session := {}
  tree : Tree
  output : String := ""
  errors : String := ""
  deriving Inhabited

inductive Stop where
  | exit (code : Nat)
  | failure (failure : Failure)
  deriving Inhabited

abbrev Run := ExceptT Stop (StateM Course)

/-- How a run ended, what it showed, and the files it left. -/
structure Outcome where
  ending : Except Failure Nat
  output : String := ""
  errors : String := ""
  tree : Tree

namespace Run

def say (line : String) : Run Unit :=
  modify fun course => { course with output := course.output ++ plainText line ++ "\n" }

def sayAside (line : String) : Run Unit :=
  modify fun course => { course with errors := course.errors ++ plainText line ++ "\n" }

/-- Shows a line beside the results if `aside`, else among them. -/
def sayTo (aside : Bool) (line : String) : Run Unit :=
  if aside then sayAside line else say line

def warn (line : String) : Run Unit :=
  modify fun course => { course with errors := course.errors ++ consoleText line ++ "\n" }

def fail {α : Type} (failure : Failure) : Run α :=
  throw (.failure failure)

def ofExcept {α : Type} : Except Failure α → Run α
  | .ok value => pure value
  | .error failure => fail failure

/-- Runs an operation on the session, and shows its notes: the warnings, and all
of them if `isVerbose`. -/
def onSession {α : Type} (isVerbose : Bool) (operation : Operation α) : Run α := do
  let course ← get
  let (result, session) := operation.run.run course.session
  set { course with session := { session with notes := [] } }
  for note in session.notes do
    if isVerbose || note.level = .warning then warn note.text
  ofExcept result

def writeFile (path : Path) (octets : ByteArray) (wording : String) : Run Unit := do
  let course ← get
  match course.tree.write path octets with
  | .ok tree => set { course with tree }
  | .error fault => fail (.notWritten (wording ++ ": " ++ fault.message path.text))

def withoutLastLineFeeds (text : String) : String :=
  String.ofList (text.toList.reverse.dropWhile (· == '\n')).reverse

/-- Writes data to the file asked for, or else shows it. -/
def deliver (request : Request) (data : ByteArray) : Run Unit :=
  match request.output with
  | some path => writeFile path data "failed to write output"
  | none => say (withoutLastLineFeeds ((String.fromUTF8? data).getD ""))

def writeNamed (path : Path) (content : String) : Run Unit := do
  writeFile path content.toUTF8 ("failed to write " ++ path.text)
  say ("  Wrote: " ++ path.text)

/-- Fails if a format that is no text is to be shown. -/
def requireOutput (request : Request) : Run Unit := do
  match request.format.filter fun name => !name.isEmpty with
  | none => return
  | some name =>
      let format ← ofExcept (Format.ofName name)
      if format.isBinary && request.output.isNone then
        fail (.notWritten "KPAR output is binary and requires --output")

/-- Where to look for the standard library, unless it is not to be loaded. -/
def librarySearch (settings : Settings) (request : Request) : Option LibrarySearch :=
  if !request.noLibrary && (settings.libraryEnabled || request.libraryPath.isSome) then
    some ⟨request.libraryPath, settings.libraries⟩
  else none

def isSelfContained (settings : Settings) (request : Request) : Bool :=
  request.selfContained || settings.selfContained

def decompile (request : Request) : Run Unit := do
  let tree := (← get).tree
  let result ← onSession request.isVerbose (Session.decompileFile tree request.input none)
  say ("✓ Decompiled " ++ toString result.elementCount ++ " elements from " ++ result.source)
  let withSuffix (path : Path) (suffix : String) : Run Path :=
    match path.withSuffix? suffix with
    | some path => pure path
    | none => fail .wrongValue
  let path ←
    match request.output with
    | some path => pure path
    | none => withSuffix request.input ".sysml"
  writeNamed path result.text
  writeNamed (← withSuffix path Files.companionSuffix) result.companion

def validate (request : Request) : Run Unit := do
  let tree := (← get).tree
  let result ← onSession request.isVerbose (Session.validateFile tree request.input none)
  say ("✓ Imported " ++ toString result.elementCount ++ " elements, " ++
    toString result.relationshipCount ++ " relationships")
  if !result.messages.isEmpty then
    sayAside ("  " ++ toString result.messages.length ++ " validation issues:")
    for message in result.messages do
      sayAside ("    " ++ message)
    throw (.exit 1)

/-- Takes a document into a workspace, and exports that if a format is given. -/
def importWorkspace (settings : Settings) (request : Request) : Run Unit := do
  requireOutput request
  let tree := (← get).tree
  let inSession {α : Type} (operation : Operation α) : Run α :=
    onSession request.isVerbose operation
  if let some search := librarySearch settings request then
    inSession (Session.loadLibrary tree search)
  let result ← inSession (Session.importFile tree request.input)
  let aside := request.format.isSome
  sayTo aside ("✓ Imported " ++ toString result.elementCount ++ " elements (" ++
    toString result.symbolCount ++ " symbols) into workspace")
  let symbols ← inSession Session.symbols
  sayTo aside ("  Total symbols in workspace: " ++ toString symbols.length)
  sayTo aside "  Element IDs preserved: ✓"
  if let some format := request.format then
    let data ← inSession
      (Session.exportAs format (isSelfContained settings request) (Session.modelName request.input))
    deliver request data

def exportModel (settings : Settings) (request : Request) (format : String) : Run Unit := do
  requireOutput request
  let tree := (← get).tree
  let data ← onSession request.isVerbose
    (Session.exportInput tree request.input format (isSelfContained settings request)
      (librarySearch settings request))
  deliver request data

def exportOutline (settings : Settings) (request : Request) : Run Unit := do
  let tree := (← get).tree
  let text ← onSession request.isVerbose
    (Session.outlineInput tree request.input (librarySearch settings request))
  deliver request text.toUTF8

def analysis (settings : Settings) (request : Request) : Run Analysis := do
  let tree := (← get).tree
  onSession request.isVerbose do
    Session.loadWorkspace tree request.input (librarySearch settings request)
    Session.reindex
    Report.analyze

def analyze (settings : Settings) (request : Request) : Run Unit := do
  let result ← analysis settings request
  let errors := result.count .error
  if request.json then
    deliver request (← ofExcept (Json.render true result.value)).toUTF8
    if errors ≠ 0 then throw (.exit 1)
  else
    for diagnostic in result.diagnostics do
      warn diagnostic.line
    let files := "Analyzed " ++ toString result.fileCount ++ " files: "
    let warnings := toString (result.count .warning) ++ " warnings"
    if errors = 0 then
      say ("✓ " ++ files ++ toString result.symbolCount ++ " symbols, " ++ warnings)
    else
      warn ("✗ " ++ files ++ toString errors ++ " errors, " ++ warnings)
      throw (.exit 1)

/-- Does what is asked for; of several things the first one in this order. -/
def perform (settings : Settings) (request : Request) : Run Unit := do
  if request.isVerbose then
    let shows := request.format.isSome || request.outline || request.json
    sayTo (request.output.isNone && shows) ("Analyzing: " ++ request.input.text)
  if request.decompile then decompile request
  else if request.validate then validate request
  else if request.workspace then importWorkspace settings request
  else
    match request.format.filter fun name => !name.isEmpty with
    | some format => exportModel settings request format
    | none => if request.outline then exportOutline settings request else analyze settings request

/-- Shows a failure that the user can do something about, and ends the run. -/
def report (run : Run Unit) : Run Unit :=
  tryCatch run fun
    | .failure failure =>
        if failure.isReported then do
          sayAside ("error: " ++ failure.message)
          throw (.exit 1)
        else fail failure
    | stop => throw stop

def outcome (tree : Tree) (run : Run Unit) : Outcome :=
  let (result, course) := run.run.run { tree }
  let ending :=
    match result with
    | .ok () => .ok 0
    | .error (.exit code) => .ok code
    | .error (.failure failure) => .error failure
  ⟨ending, course.output, course.errors, course.tree⟩

end Run

def version : String := "syster 0.3.0"

def usage : String :=
  "Usage: syster [OPTIONS] INPUT\n\nOptions:\n" ++
    String.join (longOptions.map fun option => "  " ++ option.1 ++ "\n")

def misuseCode : Nat := 2

def run (settings : Settings) (tree : Tree) (arguments : List String) : Outcome :=
  match Command.ofArguments arguments with
  | .run request => Run.outcome tree (Run.report (Run.perform settings request))
  | .version => ⟨.ok 0, version ++ "\n", "", tree⟩
  | .help => ⟨.ok 0, usage, "", tree⟩
  | .misuse => ⟨.ok misuseCode, "", usage, tree⟩

end Sysml.CommandLine
