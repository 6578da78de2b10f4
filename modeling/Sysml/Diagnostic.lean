import Sysml.Symbol

/-!
# Diagnostics

What is wrong, or worth a remark, at a place of a source file. Each cause is a
constructor; its wording, code and severity are functions of it.
-/

set_option autoImplicit false

namespace Sysml

inductive Severity where
  | error
  | warning
  | info
  | hint
  deriving DecidableEq, Repr, Inhabited

def Severity.text : Severity → String
  | .error => "error"
  | .warning => "warning"
  | .info => "info"
  | .hint => "hint"

/-- A fault in the notation of a source file. -/
inductive SyntaxProblem where
  | strayCharacter (c : Char)
  | openComment
  /-- A closing brace that closes nothing. -/
  | strayBrace
  /-- A block that the text ends in. -/
  | openBlock
  /-- A bracket that the text ends in. -/
  | openBracket (opening closing : String)
  | shortNameNotClosed
  | declarationAtEnd
  /-- A declaration that what follows does not end. -/
  | declarationBefore (next : String)
  | noTarget (operator : String)
  | noName (kind : SymbolKind)
  | importNotEnded
  | noCommentBody
  deriving DecidableEq, Repr, Inhabited

namespace SyntaxProblem

def message : SyntaxProblem → String
  | .strayCharacter c => "unexpected character '" ++ String.singleton c ++ "'"
  | .openComment => "unterminated block comment"
  | .strayBrace => "unexpected '\x7d'"
  | .openBlock => "expected '\x7d' to close this block"
  | .openBracket opening closing => "expected '" ++ closing ++ "' to match '" ++ opening ++ "'"
  | .shortNameNotClosed => "expected '>' after short name"
  | .declarationAtEnd => "expected ';' or '\x7b' before end of file"
  | .declarationBefore next => "expected ';' or '\x7b' before '" ++ next ++ "'"
  | .noTarget operator => "expected a name after '" ++ operator ++ "'"
  | .noName kind => "expected a name for " ++ kind.text
  | .importNotEnded => "expected ';' after import"
  | .noCommentBody => "expected a comment body after 'doc'"

end SyntaxProblem

inductive Finding where
  | syntaxProblem (problem : SyntaxProblem)
  /-- A member whose name a sibling has already; `owner` is absent at the root. -/
  | duplicateMember (name : String) (owner : Option String)
  | unresolved (kind : RefKind) (target : String)
  | unresolvedImport (text : String)
  | duplicateImport (text : String)
  | specializationCycle (qualifiedName : String)
  | untypedReference (name : String)
  deriving DecidableEq, Repr, Inhabited

namespace Finding

def message : Finding → String
  | .syntaxProblem problem => problem.message
  | .duplicateMember name owner =>
      "duplicate member '" ++ name ++ "' in " ++ owner.getD "root namespace"
  | .unresolved .typing target => "unresolved type '" ++ target ++ "'"
  | .unresolved .redefinition target => "unresolved redefinition target '" ++ target ++ "'"
  | .unresolved kind target => "unresolved " ++ kind.text ++ " target '" ++ target ++ "'"
  | .unresolvedImport text => "unresolved import '" ++ text ++ "'"
  | .duplicateImport text => "duplicate import '" ++ text ++ "'"
  | .specializationCycle name => "specialization cycle involving '" ++ name ++ "'"
  | .untypedReference name => "reference usage '" ++ name ++ "' has no type"

def code : Finding → String
  | .syntaxProblem _ => "E0001"
  | .unresolved .typing _ => "E0101"
  | .unresolved .redefinition _ => "E0103"
  | .unresolved _ _ => "E0102"
  | .duplicateMember _ _ => "E0201"
  | .unresolvedImport _ => "W0301"
  | .specializationCycle _ => "W0302"
  | .duplicateImport _ => "I0401"
  | .untypedReference _ => "H0501"

def severity : Finding → Severity
  | .syntaxProblem _ | .unresolved _ _ | .duplicateMember _ _ => .error
  | .unresolvedImport _ | .specializationCycle _ => .warning
  | .duplicateImport _ => .info
  | .untypedReference _ => .hint

end Finding

structure Diagnostic where
  file : String
  span : Span
  finding : Finding
  deriving DecidableEq, Repr, Inhabited

/-- The line that shows a diagnostic to a reader; places count from one. -/
def Diagnostic.line (d : Diagnostic) : String :=
  d.finding.severity.text ++ "[" ++ d.finding.code ++ "]: " ++ d.file ++ ":" ++
    toString (d.span.start.line + 1) ++ ":" ++ toString (d.span.start.column + 1) ++ ": " ++
    d.finding.message

end Sysml
