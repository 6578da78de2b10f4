import Sysml.Session
import Sysml.Value

/-!
# Reports

The diagnostics of all files in one order, with counts, and the symbols of each
file. Places count from one in reports.
-/

set_option autoImplicit false

namespace Sysml

/-- The diagnostics of a model and how many there are of each severity. -/
structure Analysis where
  fileCount : Nat
  symbolCount : Nat
  diagnostics : List Diagnostic
  deriving DecidableEq, Repr, Inhabited

namespace Analysis

def count (analysis : Analysis) (severity : Severity) : Nat :=
  analysis.diagnostics.countP fun d => d.finding.severity == severity

def diagnosticValue (d : Diagnostic) : Value :=
  .object [("file", .text d.file), ("line", .int (d.span.start.line + 1)),
    ("col", .int (d.span.start.column + 1)), ("end_line", .int (d.span.stop.line + 1)),
    ("end_col", .int (d.span.stop.column + 1)), ("message", .text d.finding.message),
    ("severity", .text d.finding.severity.text), ("code", .text d.finding.code)]

def value (analysis : Analysis) : Value :=
  .object [("file_count", .int analysis.fileCount), ("symbol_count", .int analysis.symbolCount),
    ("error_count", .int (analysis.count .error)),
    ("warning_count", .int (analysis.count .warning)),
    ("info_count", .int (analysis.count .info)), ("hint_count", .int (analysis.count .hint)),
    ("diagnostics", .list (analysis.diagnostics.map diagnosticValue))]

end Analysis

namespace Report

/-- Diagnostics are ordered by file and place; at one place they stay in the
order in which they were found. -/
def before (a b : Diagnostic) : Bool :=
  if a.file = b.file then
    if a.span.start.line = b.span.start.line then a.span.start.column ≤ b.span.start.column
    else a.span.start.line < b.span.start.line
  else a.file < b.file

def collectFrom : List SourceFile → Operation (List Diagnostic)
  | [] => pure []
  | file :: rest => do
      if file.isLibrary then collectFrom rest
      else
        let found ← Session.checkFile file.path
        let others ← collectFrom rest
        return found ++ others

def collect : Operation (List Diagnostic) := do
  return (← collectFrom (← Session.files)).mergeSort before

/-- The analysis of a session, which is diagnosed then. -/
def analyze : Operation Analysis := do
  let diagnostics ← collect
  let (fileCount, symbolCount) ← Session.summary
  Session.markDiagnosed
  return ⟨fileCount, symbolCount, diagnostics⟩

def symbolValue (path : String) (symbol : Symbol) : Value :=
  .object ([("name", symbol.name.value), ("qualified_name", symbol.qualifiedName.value),
    ("kind", .text symbol.kind.text), ("file", .text path),
    ("start_line", .int (symbol.span.start.line + 1)),
    ("start_col", .int (symbol.span.start.column + 1)),
    ("end_line", .int (symbol.span.stop.line + 1)),
    ("end_col", .int (symbol.span.stop.column + 1))] ++
    (match symbol.doc with
    | .null => []
    | doc => [("doc", doc)]) ++
    (if symbol.supertypes.isEmpty then []
    else [("supertypes", .list (symbol.supertypes.map Key.value))]))

/-- The symbols of each file that is no library, by path. The session counts as
exported then. -/
def outline : Operation Value := do
  let files := (← Session.files).mergeSort fun a b => a.path ≤ b.path
  let listed ← (files.filter fun file => !file.isLibrary).mapM fun file => do
    let symbols ← Session.fileSymbols file.path
    return Value.object [("path", .text file.path),
      ("symbols", .list (symbols.map (symbolValue file.path)))]
  Session.markExported
  return .object [("files", .list listed)]

end Report

end Sysml
