import Sysml.Xml.Tree

/-!
# Writing XML

An element as a document of indented lines. The namespaces in use are declared
at the root in the order of their abbreviations.
-/

set_option autoImplicit false

namespace Sysml.Xml

def wellKnown : List (String × String) :=
  [("http://www.w3.org/XML/1998/namespace", "xml"),
    ("http://www.w3.org/1999/xhtml", "html"),
    ("http://www.w3.org/1999/02/22-rdf-syntax-ns#", "rdf"),
    ("http://schemas.xmlsoap.org/wsdl/", "wsdl"),
    ("http://www.w3.org/2001/XMLSchema", "xs"),
    ("http://www.w3.org/2001/XMLSchema-instance", "xsi"),
    ("http://purl.org/dc/elements/1.1/", "dc")]

/-- The namespace and the label of a name; a name without a namespace has none.
There is no name that opens a brace and closes none. -/
def splitName (name : String) : Option (Option String × String) :=
  match name.toList with
  | '\x7b' :: rest =>
      if rest.contains '\x7d' then
        let label := localName name
        some (some (String.ofList (rest.take (rest.length - label.length - 1))), label)
      else none
  | _ => some (none, name)

/-- The abbreviation of a namespace: known, or numbered in the order of use. -/
def abbreviation (known used : List (String × String)) (space : String) : String :=
  ((used.lookup space).or (known.lookup space)).getD ("ns" ++ toString used.length)

/-- Notes the namespace of a name; that of XML itself is never declared. -/
def useName (known used : List (String × String)) (name : String) :
    Option (List (String × String)) := do
  match ← splitName name with
  | (none, _) => some used
  | (some space, _) =>
      let short := abbreviation known used space
      if short = "xml" || (used.lookup space).isSome then some used
      else some (used ++ [(space, short)])

mutual

def useElement (known used : List (String × String)) : Element → Option (List (String × String))
  | .node name attributes _ children => do
      let used ← useName known used name
      let used ← (attributes.map (·.1)).foldlM (useName known) used
      useElements known used children

def useElements (known used : List (String × String)) :
    List Element → Option (List (String × String))
  | [] => some used
  | element :: rest => do
      let used ← useElement known used element
      useElements known used rest

end

def nameText (known used : List (String × String)) (name : String) : String :=
  match splitName name with
  | some (some space, label) => abbreviation known used space ++ ":" ++ label
  | _ => name

def textChar (c : Char) : String :=
  if c = '&' then "&amp;"
  else if c = '<' then "&lt;"
  else if c = '>' then "&gt;"
  else String.singleton c

def attributeChar (c : Char) : String :=
  if c = '"' then "&quot;"
  else if c = '\r' then "&#13;"
  else if c = '\n' then "&#10;"
  else if c = '\t' then "&#09;"
  else textChar c

def escaped (escape : Char → String) (text : String) : String :=
  String.join (text.toList.map escape)

def valueText : AttributeValue → String
  | .text s => escaped attributeChar s
  | .verbatim s => s

def attributeText (name : String) (value : AttributeValue) : String :=
  " " ++ name ++ "=\"" ++ valueText value ++ "\""

def lineStart (depth : Nat) : String :=
  "\n" ++ String.ofList (List.replicate (2 * depth) ' ')

mutual

/-- An element at a level; `name` writes names and `declarations` are the
attributes that only the root has. -/
def elementText (name : String → String) (declarations : String) (depth : Nat) :
    Element → String
  | .node tag attributes text children =>
      let opening := "<" ++ name tag ++ declarations ++
        String.join (attributes.map fun entry => attributeText (name entry.1) entry.2)
      let closing := "</" ++ name tag ++ ">"
      if children.isEmpty then
        if text.isEmpty then opening ++ " />"
        else opening ++ ">" ++ escaped textChar text ++ closing
      else
        opening ++ ">" ++ escaped textChar text ++ childrenText name (depth + 1) children ++
          lineStart depth ++ closing

def childrenText (name : String → String) (depth : Nat) : List Element → String
  | [] => ""
  | child :: rest =>
      lineStart depth ++ elementText name "" depth child ++ childrenText name depth rest

end

def declarationsText (used : List (String × String)) : String :=
  let sorted := used.mergeSort fun a b => a.2 ≤ b.2
  String.join (sorted.map fun (space, short) => attributeText ("xmlns:" ++ short) (.text space))

/-- The text of a document, unless a name in it has no end of its namespace.
`known` are the abbreviations that are preferred. -/
def render? (known : List (String × String)) (root : Element) : Option String := do
  let known := known ++ wellKnown
  let used ← useElement known [] root
  some ("<?xml version='1.0' encoding='UTF-8'?>\n" ++
    elementText (nameText known used) (declarationsText used) 0 root ++ "\n")

end Sysml.Xml
