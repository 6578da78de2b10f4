import Sysml.Xml.Content

/-!
# Reading XML

The root element of a document. Abbreviations of namespaces count inside the
element that declares them; attributes without one are in no namespace.
-/

set_option autoImplicit false

namespace Sysml.Xml

/-- The namespaces of abbreviations, the innermost declaration first. The empty
abbreviation is that of elements without one. -/
abbrev Scope := List (String × String)

/-- The namespace of the abbreviation `xml`. -/
def xmlSpace : String :=
  "http://www.w3.org/XML/1998/namespace"

def declarationSpace : String :=
  "http://www.w3.org/2000/xmlns/"

def splitColon (name : String) : Option String × String :=
  let chars := name.toList
  match chars.dropWhile (· != ':') with
  | _ :: label => (some (String.ofList (chars.takeWhile (· != ':'))), String.ofList label)
  | [] => (none, name)

def declared? (name : String) : Option String :=
  match splitColon name with
  | (none, "xmlns") => some ""
  | (some "xmlns", label) => some label
  | _ => none

/-- An abbreviation may stand for a namespace: reserved ones stand for their own,
and only elements without an abbreviation can be put outside of all. -/
def mayDeclare (short space : String) : Bool :=
  short != "xmlns" && space != declarationSpace && !space.toList.contains '\x7d' &&
    (short == "xml") == (space == xmlSpace) && !(short != "" && space.isEmpty)

def declareAll (scope : Scope) : List (String × String) → Except Fault Scope
  | [] => .ok scope
  | (name, value) :: rest =>
      match declared? name with
      | none => declareAll scope rest
      | some short =>
          if mayDeclare short value then declareAll ((short, value) :: scope) rest
          else .error .malformed

def resolveName (scope : Scope) (isElement : Bool) (name : String) : Except Fault String :=
  match splitColon name with
  | (some short, label) =>
      match scope.lookup short with
      | some space => .ok (qualified space label)
      | none => .error .malformed
  | (none, label) =>
      match scope.lookup "" with
      | some space =>
          .ok (if isElement && !space.isEmpty then qualified space label else label)
      | none => .ok label

/-- The attributes with their full names, of which none occurs twice. -/
def resolveAttributes (scope : Scope) :
    List (String × String) → Except Fault (List (String × String))
  | [] => .ok []
  | (name, value) :: rest => do
      let others ← resolveAttributes scope rest
      if (declared? name).isSome then return others
      let name ← resolveName scope false name
      if (others.lookup name).isSome then .error .malformed
      return (name, value) :: others

/-- An element that is not closed yet. -/
structure OpenElement where
  name : String
  attributes : List (String × String)
  /-- The text before the first child, last piece first. -/
  text : List (List Char) := []
  /-- The children so far, last first. -/
  children : List Element := []
  scope : Scope
  deriving Inhabited

namespace OpenElement

/-- The element, once it is closed. -/
def close (opened : OpenElement) : Element :=
  .node opened.name (opened.attributes.map fun entry => (entry.1, .text entry.2))
    (String.ofList opened.text.reverse.flatten) opened.children.reverse

/-- The element with one more piece of text; after a child text does not count. -/
def addText (opened : OpenElement) (chars : List Char) : OpenElement :=
  if opened.children.isEmpty then { opened with text := chars :: opened.text } else opened

def addChild (opened : OpenElement) (child : Element) : OpenElement :=
  { opened with children := child :: opened.children }

def make (scope : Scope) (name : String) (attributes : List (String × String)) :
    Except Fault OpenElement := do
  let scope ← declareAll scope attributes
  let resolved ← resolveAttributes scope attributes
  return { name := ← resolveName scope true name, attributes := resolved, scope }

end OpenElement

/-- The element that pieces describe; `opened` are the elements around, innermost
first. -/
def build : List OpenElement → List Piece → Except Fault Element
  | _, [] => .error .malformed
  | opened, piece :: rest =>
      match piece, opened with
      | .opening name attributes, _ => do
          let scope := (opened.head?.map (·.scope)).getD [("xml", xmlSpace)]
          build ((← OpenElement.make scope name attributes) :: opened) rest
      | .text chars, last :: outer => build (last.addText chars :: outer) rest
      | .closing, [root] => .ok root.close
      | .closing, last :: parent :: outer => build (parent.addChild last.close :: outer) rest
      | _, [] => .error .malformed

def read (octets : List UInt8) : Except Fault Element := do
  build [] (← pieces octets)

end Sysml.Xml
