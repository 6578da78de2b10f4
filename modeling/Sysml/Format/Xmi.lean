import Sysml.Format.JsonLd
import Sysml.Xml.Printer
import Sysml.Xml.Reader

/-!
# XMI

A document as an XML tree: records are elements inside the elements of their
owners, metadata and external references stand in an extension. What an element
does not say about itself, its place says: its owner, and the first part of its
qualified name.
-/

set_option autoImplicit false

namespace Sysml.Document

def xmiSpace : String :=
  "http://www.omg.org/spec/XMI/20131001"

def xmiName (label : String) : String :=
  Xml.qualified xmiSpace label

def xmiAbbreviations : List (String × String) :=
  [(xmiSpace, "xmi"), (modelSpace, "sysml")]

/-! ## Writing -/

/-- The text of a property: truth values are lower case words. -/
def propertyText : Value → String
  | .bool b => if b then "true" else "false"
  | value => value.display

def propertyEntry (entry : Value × Value) : Value × Value :=
  (entry.1, .text (propertyText entry.2))

/-- The attributes of a record's element as the record gives them; each property
replaces an attribute of its name. -/
def xmiEntries (record : Record) : List (Value × Value) :=
  let given (value : Value) : Option Value :=
    match value with
    | .null => none
    | value => some value
  let filled (id : Option Key) : Option Value := (Key.given? id).map Key.value
  let entries := [(.text (xmiName "id"), record.id.value)]
    |> putField "name" (given record.name)
    |> putField "shortName" (if record.shortName.isAbsent then none else some record.shortName)
    |> putField "qualifiedName" (given record.qualifiedName)
    |> putField "source" (filled record.source)
    |> putField "target" (filled record.target)
    |> putField "isAbstract" (if record.isAbstract then some (.text "true") else none)
  let entries := (record.properties.map propertyEntry).foldl
    (fun entries entry => Entries.put entry.1 entry.2 entries) entries
  entries |> putField "provenance"
    (if record.provenance.isText Record.modelProvenance then none else some record.provenance)

def attributeName (key : Value) : String :=
  key.display

/-- A value as that of an attribute: the contents of containers are written as they
are. -/
def attributeValue : Value → Xml.AttributeValue
  | .text s => .text s
  | value => .verbatim value.display

def xmlAttributes (entries : List (Value × Value)) : List (String × Xml.AttributeValue) :=
  entries.map fun (key, value) => (attributeName key, attributeValue value)

/-- The element of a record with those of the records it owns. Owners that go
round in a circle end at the bound. -/
def xmiElement (document : Document) : Nat → Record → Xml.Element
  | 0, record =>
      .node (Xml.qualified modelSpace record.kind) (xmlAttributes (xmiEntries record)) "" []
  | fuel + 1, record =>
      let doc : List Xml.Element :=
        if record.doc.isAbsent then [] else [.node "documentation" [] record.doc.display []]
      let owned := (document.childrenOf (some record.id)).map fun child =>
        Xml.Element.node (if child.isRelationship then "ownedRelationship" else "ownedMember") [] ""
          [document.xmiElement fuel child]
      .node (Xml.qualified modelSpace record.kind) (xmlAttributes (xmiEntries record)) ""
        (doc ++ owned)

/-- The records at the top: those whose owner is no record. -/
def roots (document : Document) : List Record :=
  document.records.filter fun record => !record.owner.any fun id => document.ids.contains id

/-- The records that are written: the top ones and what they own, directly or
not. -/
def written (document : Document) : Nat → List Record → List Record
  | 0, _ => []
  | fuel + 1, records =>
      records.flatMap fun record =>
        record :: document.written fuel (document.childrenOf (some record.id))

def externalEntries (id name : Key) : List (Value × Value) :=
  [(.text (xmiName "idref"), id.value), (.text "qualifiedName", name.value)]

def xmiExtension (document : Document) : Xml.Element :=
  let external := document.externalRefs.map fun (id, name) =>
    Xml.Element.node "externalReference"
      (xmlAttributes (externalEntries id name)) "" []
  .node (xmiName "Extension") [("extender", .text "syster")] ""
    (.node "metadata" (xmlAttributes (document.metadata.map propertyEntry)) "" [] :: external)

def xmiRoot (document : Document) : Xml.Element :=
  let depth := document.records.length + 1
  .node (xmiName "XMI") [(xmiName "version", .text "2.5.1")] ""
    (document.roots.map (document.xmiElement depth) ++ [document.xmiExtension])

/-! ## What cannot be written

Properties are turned into text first, then names are looked at, and values
last; of several failures the first one counts. -/

def propertyFault? (entry : Value × Value) : Option Failure :=
  if entry.2.isWritable then none else some .longNumber

def nameFault? (key : Value) : Option Failure :=
  match key with
  | .text name => if (Xml.splitName name).isSome then none else some .wrongValue
  | .bytes _ | .null => none
  | _ => some .wrongKind

def isEscapedText (value : Value) : Bool :=
  ["&", "<", ">", "\"", "\r", "\n", "\t"].any fun text => value.isText text

/-- The failure of a value that cannot be an attribute's: a text can, and a
container that holds no text in need of an escape. -/
def valueFault? (value : Value) : Option Failure :=
  let container (members : List Value) : Option Failure :=
    if members.any isEscapedText then some .wrongKind
    else if value.isWritable then none
    else some .longNumber
  match value.bare with
  | .text _ => none
  | .list members | .set members => container members
  | .map entries => container (entries.map (·.1))
  | _ => some .wrongKind

def docFault? (doc : Value) : Option Failure :=
  match doc with
  | .text _ => none
  | doc => if doc.isAbsent then none else some .wrongKind

def xmiFault? (document : Document) : Option Failure :=
  let records := document.written (document.records.length + 1) document.roots
  let keys := records.flatMap fun record => (xmiEntries record).map (·.1)
  let external := document.externalRefs.flatMap fun (id, name) => externalEntries id name
  ((records.flatMap Record.properties ++ document.metadata).findSome? propertyFault?).or
    (((keys ++ document.metadata.map (·.1)).findSome? nameFault?).or
      ((records.findSome? fun record =>
        ((xmiEntries record).findSome? fun entry => valueFault? entry.2).or
          (docFault? record.doc)).or
        (external.findSome? fun entry => valueFault? entry.2)))

def toXmi (document : Document) : Except Failure String :=
  match document.xmiFault?, Xml.render? xmiAbbreviations document.xmiRoot with
  | some failure, _ => .error failure
  | none, none => .error .wrongValue
  | none, some text => .ok text

/-! ## Reading -/

/-- The value of an attribute: the words for truth values are read as such. -/
def propertyValue (text : String) : Value :=
  if text = "true" then .bool true else if text = "false" then .bool false else .text text

/-- The attributes that are fields; others without a namespace are properties. -/
def fieldAttributes : List String :=
  ["name", "qualifiedName", "shortName", "source", "target", "isAbstract", "provenance"]

/-- Elements that only group what they hold. -/
def wrappers : List String :=
  ["ownedMember", "ownedRelationship", "ownedRelatedElement", "ownedElement", "member"]

def malformed {α : Type} (reason : String) : Except Failure α :=
  .error (.malformed reason [])

def readExtensionChild (document : Document) (child : Xml.Element) : Except Failure Document :=
  match Xml.localName child.name with
  | "metadata" =>
      let metadata := child.attributes.foldl (fun metadata (key, value) =>
        Entries.put (Value.text key) (propertyValue value.content) metadata) document.metadata
      .ok { document with metadata }
  | "externalReference" =>
      match child.attribute? (xmiName "idref") with
      | none => malformed "externalReference without xmi:idref"
      | some id =>
          if id.isEmpty then malformed "externalReference without xmi:idref"
          else
            let name := (child.attribute? "qualifiedName").getD ""
            .ok { document with
              externalRefs := Entries.put (.text id) (.text name) document.externalRefs }
  | _ => .ok document

/-- The kind of an element: the last part of its type, or its name unless it is a
wrapper's. -/
def kindOf (element : Xml.Element) : String :=
  let label := Xml.localName element.name
  let type := (element.attribute? (xmiName "type")).getD ""
  let last := String.ofList (type.toList.reverse.takeWhile (· != ':')).reverse
  if !last.isEmpty then last else if wrappers.contains label then "" else label

def optionalText : Option String → Value
  | none => .null
  | some text => .text text

def recordOf (element : Xml.Element) (id kind : String) (owner ownerName : Option String) :
    Record :=
  let name := element.attribute? "name"
  let source := element.attribute? "source"
  let isRelationship := Record.isRelationshipKind kind || source.isSome
  let made : Option String :=
    if isRelationship then none
    else name.map fun name =>
      match ownerName.filter fun owner => !owner.isEmpty with
      | none => name
      | some owner => owner ++ "::" ++ name
  let doc := (element.children.find? fun child => child.name == "documentation").bind fun child =>
    if child.text.isEmpty then none else some child.text
  { id := .text id, kind, owner := owner.map .text, source := source.map .text
    name := optionalText name
    qualifiedName := optionalText ((element.attribute? "qualifiedName").or made)
    target := (element.attribute? "target").map .text
    doc := optionalText doc
    shortName := optionalText (element.attribute? "shortName")
    isAbstract := element.attribute? "isAbstract" == some "true"
    properties := (element.attributes.filter fun entry =>
      !(fieldAttributes.contains entry.1 || entry.1.toList.head? == some '\x7b')).map
        fun (key, value) => (.text key, propertyValue value.content)
    provenance := .text ((element.attribute? "provenance").getD Record.modelProvenance) }

def givenName? : Value → Option String
  | .text name => some name
  | _ => none

mutual

def readElement (document : Document) (owner ownerName : Option String) :
    Xml.Element → Except Failure Document
  | .node name attributes text children =>
      let element := Xml.Element.node name attributes text children
      let label := Xml.localName name
      if label = "Extension" then children.foldlM readExtensionChild document
      else if label = "documentation" then .ok document
      else
        let kind := kindOf element
        let id := element.attribute? (xmiName "id")
        if kind.isEmpty || (id.isNone && wrappers.contains label) then
          readElements document owner ownerName children
        else
          match id.filter fun id => !id.isEmpty with
          | none => malformed ("Element <" ++ label ++ "> has no xmi:id")
          | some id =>
              let record := recordOf element id kind owner ownerName
              let childName :=
                if record.isRelationship then ownerName else givenName? record.qualifiedName
              readElements { document with records := document.records ++ [record] } (some id)
                childName children

def readElements (document : Document) (owner ownerName : Option String) :
    List Xml.Element → Except Failure Document
  | [] => .ok document
  | element :: rest => do
      let document ← readElement document owner ownerName element
      readElements document owner ownerName rest

end

def xmlFailure : Xml.Fault → Failure
  | .malformed => .malformed "Invalid XMI" []
  | .unknownEncoding => .unknownEncoding
  | .wideEncoding => .wrongValue
  | .strictEncoding => .strictEncoding
  | .wholeEncoding => .wholeEncoding

def ofXmi (octets : ByteArray) : Except Failure Document := do
  match Xml.read octets.toList with
  | .error fault => .error (xmlFailure fault)
  | .ok root =>
      let document := make [] [] []
      if Xml.localName root.name = "XMI" then readElements document none none root.children
      else readElement document none none root

end Sysml.Document
