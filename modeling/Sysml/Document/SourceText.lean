import Sysml.Document.Companion
import Sysml.Json.Printer
import Sysml.Notation.Quoting
import Sysml.Value.Text

/-!
# Documents as source text

A document's elements as declarations of the notation, nested as their owners
say. References follow the names, grouped by their operators; documentation,
imports and members stand in a body. Elements of unknown kinds and elements
without names become comments.
-/

set_option autoImplicit false

namespace Sysml.Document

/-- The words that open a declaration of a kind; a plain usage has none. -/
def keyword? : SymbolKind → Option String
  | .package => some "package"
  | .libraryPackage => some "library package"
  | .namespaceOnly => some "namespace"
  | .referenceUsage => some "ref"
  | .plainUsage => some ""
  | .definition family => (familyWords? family).map (· ++ " def")
  | .usage family => familyWords? family
  | .kernel kind =>
      (Notation.kernelKeywords.find? fun entry => entry.2 == kind).map (·.1)
  | .element => none
where
  /-- The words of a family. -/
  familyWords? (family : Family) : Option String :=
    match Notation.familyKeywords.find? fun entry => entry.2 == family with
    | some (word, _) => some word
    | none =>
        (Notation.caseKeywords.find? fun entry => entry.2 == family).map fun entry =>
          entry.1 ++ " case"

def operator (kind : RefKind) (isDefinition : Bool) : String :=
  match kind with
  | .typing => ":"
  | .redefinition => ":>>"
  | .specialization => if isDefinition then ":>" else "specializes"
  | .subsetting => if isDefinition then "subsets" else ":>"

def nameText : Value → Except Failure String
  | .text s => .ok s
  | _ => .error .wrongKind

def docText (value : Value) : Except Failure String :=
  match value.bare with
  | .text s => .ok s
  | .bytes _ | .date _ => .error .wrongKind
  | _ => .error .noFields

def targetName (document : Document) (id : Option Key) : Value :=
  let id := (Key.given? id).getD (.text "")
  let listed : Value := ((document.externalRefs.lookup id).getD id).value
  match document.last? id with
  | none => listed
  | some record =>
      if !record.qualifiedName.isAbsent then record.qualifiedName
      else if !record.name.isAbsent then record.name
      else listed

/-- The record that an element stands below: its owner if that is a record. -/
def parentOf (document : Document) (record : Record) : Option Key :=
  record.owner.filter fun id => document.ids.contains id

def below (document : Document) (parent : Option Key) : List Record :=
  document.elements.filter fun record => document.parentOf record == parent

def relationshipsOf (document : Document) (id : Key) : List Record :=
  document.relationships.filter fun record => record.origin == id

def importLine (document : Document) (record : Record) : Except Failure String := do
  let path := Notation.quotePath (← (document.targetName record.target).pathText)
  let stars :=
    if record.kind = Record.namespaceImport then
      if ((record.property? "isRecursive").getD .null).isAbsent then "::*" else "::**"
    else ""
  let isPublic := ((record.property? "visibility").getD .null).isText "public"
  return (if isPublic then "public import " else "import ") ++ path ++ stars ++ ";"

/-- Adds a relationship to the imports and reference clauses before it: each
operator has a list of targets. -/
def addClause (document : Document) (isDefinition : Bool)
    (clauses : List String × List (String × List String)) (record : Record) :
    Except Failure (List String × List (String × List String)) := do
  if Record.isImportKind record.kind then
    return (clauses.1 ++ [← document.importLine record], clauses.2)
  else
    match RefKind.ofMetaclass? record.kind with
    | none => return clauses
    | some kind =>
        let target := Notation.quotePath (← (document.targetName record.target).pathText)
        return (clauses.1, Entries.addTo (operator kind isDefinition) target clauses.2)

def indentation (depth : Nat) : String :=
  String.ofList (List.replicate (4 * depth) ' ')

def guardComment : List Char → List Char
  | [] => []
  | '*' :: '/' :: rest => '*' :: ' ' :: '/' :: guardComment rest
  | c :: rest => c :: guardComment rest

/-- What stands in a declaration before its reference clauses. -/
def opening (record : Record) (keyword : String) : Except Failure (List String) := do
  let direction := (record.property? "direction").getD .null
  let direction ← if direction.isAbsent then pure [] else pure [← direction.toText]
  let short ←
    if record.shortName.isAbsent then pure []
    else pure ["<" ++ Notation.quoteName (← nameText record.shortName) ++ ">"]
  let name ← nameText record.name
  return (if record.isAbstract then ["abstract"] else []) ++ direction ++
    (if keyword.isEmpty then [] else [keyword]) ++ short ++ [Notation.quoteName name]

/-- The lines of an element and of what stands below it. Owners that go round in
a circle end at the bound. -/
def elementLines (document : Document) : Nat → Nat → Record → Except Failure (List String)
  | 0, _, _ => .ok []
  | fuel + 1, depth, record => do
      let pad := indentation depth
      let kind := SymbolKind.ofMetaclass record.kind
      let remark (name : String) : String := pad ++ "// " ++ record.kind ++ " " ++ name
      if record.name.isAbsent then return [remark record.id.display]
      match keyword? kind with
      | none => return [remark (← record.name.toText)]
      | some keyword =>
          let opening ← opening record keyword
          let (imports, found) ←
            (document.relationshipsOf record.id).foldlM
              (document.addClause kind.isDefinition) ([], [])
          let header := pad ++ " ".intercalate (opening ++
            found.map fun (operator, targets) => operator ++ " " ++ ", ".intercalate targets)
          let children := document.below (some record.id)
          if children.isEmpty && imports.isEmpty && record.doc.isAbsent then
            return [header ++ ";"]
          let inner := indentation (depth + 1)
          let doc ←
            if record.doc.isAbsent then pure []
            else
              let text := String.ofList (guardComment (← docText record.doc).toList)
              pure [inner ++ "doc /* " ++ text ++ " */"]
          let nested ← children.mapM (document.elementLines fuel (depth + 1))
          return [header ++ " \x7b"] ++ doc ++ imports.map (inner ++ ·) ++ nested.flatten ++
            [pad ++ "\x7d"]

def sourceText (document : Document) : Except Failure String := do
  let lines ← (document.below none).mapM (document.elementLines (document.records.length + 1) 0)
  return String.join (lines.flatten.map (· ++ "\n"))

/-- A document as source text with its companion data. -/
structure Decompiled where
  text : String
  companion : String
  elementCount : Nat
  source : String
  deriving DecidableEq, Repr, Inhabited

/-- The source text of a document that was read from `source`, with its companion data. -/
def decompile (document : Document) (source : String) : Except Failure Decompiled := do
  let text ← document.sourceText
  let companion ← Json.render true (document.companion source)
  return ⟨text, companion, document.elements.length, source⟩

end Sysml.Document
