/-!
# XML elements

The tree of an XML document. A name in a namespace is written with the namespace
in braces before it.
-/

set_option autoImplicit false

namespace Sysml.Xml

inductive Fault where
  /-- The text is not well-formed. -/
  | malformed
  /-- The text names an encoding that is not known. -/
  | unknownEncoding
  /-- The text names an encoding that no document can be in. -/
  | wideEncoding
  /-- The text names an encoding that cannot pass over what is no character. -/
  | strictEncoding
  /-- The text names an encoding that only whole texts can be in. -/
  | wholeEncoding
  deriving DecidableEq, Repr, Inhabited

def qualified (space label : String) : String :=
  "\x7b" ++ space ++ "\x7d" ++ label

inductive AttributeValue where
  | text (s : String)
  /-- Characters that stand in a document as they are. -/
  | verbatim (s : String)
  deriving DecidableEq, Repr, Inhabited

def AttributeValue.content : AttributeValue → String
  | .text s => s
  | .verbatim s => s

/-- An element: `text` is what stands before its first child. -/
inductive Element where
  | node (name : String) (attributes : List (String × AttributeValue)) (text : String)
      (children : List Element)
  deriving Repr, Inhabited

namespace Element

def name : Element → String
  | .node name _ _ _ => name

def attributes : Element → List (String × AttributeValue)
  | .node _ attributes _ _ => attributes

/-- The text before the first child. -/
def text : Element → String
  | .node _ _ text _ => text

def children : Element → List Element
  | .node _ _ _ children => children

def attribute? (element : Element) (name : String) : Option String :=
  (element.attributes.lookup name).map AttributeValue.content

end Element

def localName (name : String) : String :=
  String.ofList ((name.toList.reverse.takeWhile (· != '\x7d')).reverse)

end Sysml.Xml
