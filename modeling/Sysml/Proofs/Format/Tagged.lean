import Sysml.Proofs.Format.Mapped
import Sysml.Proofs.Xml.Carried

/-!
# Records as elements and back

The element of a record has an attribute where the record says something, under a name of its
own; its place tells the owner. So the record that is read from the element is the same record, as
long as no property is under a name that the format uses itself and the properties' values are
told apart by their texts (`recordOf_element`).
-/

set_option autoImplicit false

namespace Sysml

open Document

/-! ## Attributes -/

namespace Document

theorem xmlAttributes_underTexts (entries : List (String × Value)) :
    xmlAttributes (Value.underTexts entries) =
      entries.map fun entry => (entry.1, attributeValue entry.2) := by
  rw [xmlAttributes, Value.underTexts, List.map_map]
  rfl

theorem content_attributeValue (value : Value) : (attributeValue value).content = value.display := by
  cases value <;> rfl

theorem lookup_attributes (key : String) (entries : List (String × Value)) :
    ((entries.map fun entry => (entry.1, attributeValue entry.2)).lookup key).map
        Xml.AttributeValue.content =
      (entries.lookup key).map Value.display := by
  induction entries with
  | nil => rfl
  | cons entry rest ih =>
    rw [List.map_cons, List.lookup_cons, List.lookup_cons]
    cases key == entry.1 with
    | true => exact congrArg some (content_attributeValue entry.2)
    | false => exact ih

end Document

namespace Record

def leadingAttributes (record : Record) : List (String × Value) :=
  [(xmiName "id", record.id.value)] ++
    Value.under? "name" record.name.given? ++
    Value.under? "shortName" record.shortName.filled? ++
    Value.under? "qualifiedName" record.qualifiedName.given? ++
    Value.under? "source" ((Key.given? record.source).map Key.value) ++
    Value.under? "target" ((Key.given? record.target).map Key.value) ++
    Value.under? "isAbstract" (if record.isAbstract then some (.text "true") else none)

def trailingAttributes (record : Record) : List (String × Value) :=
  Value.under? "provenance"
    (if record.provenance.isText modelProvenance then none else some record.provenance)

def propertyAttributes (own : List (String × Value)) : List (String × Value) :=
  own.map fun entry => (entry.1, .text (propertyText entry.2))

/-- The properties are under different texts, and the format has no use of its own for these. -/
structure Tagged (record : Record) (own : List (String × Value)) : Prop where
  properties : record.properties = Value.underTexts own
  distinct : (own.map (·.1)).Nodup
  names : ∀ entry ∈ own, Xml.isName entry.1 = true ∧ entry.1 ≠ "xmlns"
  apart : ∀ entry ∈ own, entry.1 ∉ fieldAttributes

def allAttributes (record : Record) (own : List (String × Value)) : List (String × Value) :=
  record.leadingAttributes ++ propertyAttributes own ++ record.trailingAttributes

variable {record : Record} {own : List (String × Value)}

theorem leadingAttributes_keys (record : Record) :
    (record.leadingAttributes.map (·.1)).Sublist
      [xmiName "id", "name", "shortName", "qualifiedName", "source", "target", "isAbstract"] := by
  unfold leadingAttributes
  simp only [List.map_append]
  exact ((((((List.Sublist.refl [xmiName "id"]).append (Value.under?_keys ..)).append
    (Value.under?_keys ..)).append (Value.under?_keys ..)).append (Value.under?_keys ..)).append
    (Value.under?_keys ..)).append (Value.under?_keys ..)

theorem propertyAttributes_keys (own : List (String × Value)) :
    (propertyAttributes own).map (·.1) = own.map (·.1) := by
  rw [propertyAttributes, List.map_map]
  rfl

theorem head?_xmiName (label : String) : (xmiName label).toList.head? = some '\x7b' := by
  simp [xmiName, Xml.qualified]

/-- A name that the format uses is no property's. -/
theorem Tagged.ne (tagged : record.Tagged own) {name : String}
    (used : name ∈ fieldAttributes ∨ name.toList.head? = some '\x7b') :
    ∀ entry ∈ own, entry.1 ≠ name := by
  rintro entry listed rfl
  exact used.elim (tagged.apart entry listed) (Xml.head?_name (tagged.names entry listed).1)

theorem attributes_distinct (tagged : record.Tagged own) :
    ((record.allAttributes own).map (·.1)).Nodup := by
  have foreign : ∀ name ∈ own.map (·.1), ∀ used ∈ xmiName "id" :: fieldAttributes, name ≠ used := by
    intro name listed used isUsed
    obtain ⟨entry, isEntry, rfl⟩ := List.mem_map.mp listed
    rcases List.mem_cons.mp isUsed with rfl | isField
    · exact tagged.ne (.inr (head?_xmiName "id")) entry isEntry
    · exact tagged.ne (.inl isField) entry isEntry
  have apart : (own.map (·.1) ++ (xmiName "id" :: fieldAttributes)).Nodup :=
    List.nodup_append.mpr ⟨tagged.distinct, by decide, foreign⟩
  rw [allAttributes, List.map_append, List.map_append, propertyAttributes_keys]
  refine List.Nodup.sublist (((leadingAttributes_keys record).append (List.Sublist.refl _)).append
    (Value.under?_keys ..)) ?_
  have names : ([xmiName "id", "name", "shortName", "qualifiedName", "source", "target",
      "isAbstract"] ++ ["provenance"]).Perm (xmiName "id" :: fieldAttributes) := by decide
  have moved : ([xmiName "id", "name", "shortName", "qualifiedName", "source", "target",
        "isAbstract"] ++ own.map (·.1) ++ ["provenance"]).Perm
      (own.map (·.1) ++ (xmiName "id" :: fieldAttributes)) := by
    refine (List.perm_append_comm.append_right _).trans ?_
    rw [List.append_assoc]
    exact names.append_left _
  exact moved.nodup_iff.mpr apart

theorem xmiEntries_eq (tagged : record.Tagged own) :
    xmiEntries record = Value.underTexts (record.allAttributes own) := by
  have apart := Value.underTexts_apart (attributes_distinct tagged)
  rw [allAttributes, leadingAttributes, trailingAttributes, propertyAttributes] at apart ⊢
  simp only [List.append_assoc, Value.underTexts_append] at apart
  have whole := Entries.foldl_put apart
  simp only [List.foldl_append] at whole
  have texts : record.properties.map propertyEntry =
      Value.underTexts (own.map fun entry => (entry.1, .text (propertyText entry.2))) := by
    rw [tagged.properties, Value.underTexts, Value.underTexts, List.map_map, List.map_map]
    rfl
  simp only [xmiEntries, Value.putField_eq, texts, List.append_assoc, Value.underTexts_append]
  exact whole

/-- What stands under a name that the format uses is no property. -/
theorem lookup_used (tagged : record.Tagged own) {name : String}
    (used : name ∈ fieldAttributes ∨ name.toList.head? = some '\x7b') :
    (record.allAttributes own).lookup name =
      (record.leadingAttributes.lookup name).or (record.trailingAttributes.lookup name) := by
  have foreign : (propertyAttributes own).lookup name = none := by
    rw [List.lookup_eq_none_iff]
    intro entry listed
    obtain ⟨property, isProperty, rfl⟩ := List.mem_map.mp listed
    simpa using (tagged.ne used property isProperty).symm
  rw [allAttributes, List.lookup_append, List.lookup_append, foreign, Option.or_none]

/-- The attributes of an element say of a record what its fields are. -/
structure Shows (record : Record) (element : Xml.Element) : Prop where
  id : element.attribute? (xmiName "id") = some record.id.display
  type : element.attribute? (xmiName "type") = none
  name : element.attribute? "name" = record.name.given?.map Value.display
  shortName : element.attribute? "shortName" = record.shortName.filled?.map Value.display
  qualifiedName : element.attribute? "qualifiedName" = record.qualifiedName.given?.map Value.display
  source : element.attribute? "source" = (Key.given? record.source).map Key.display
  target : element.attribute? "target" = (Key.given? record.target).map Key.display
  isAbstract : element.attribute? "isAbstract" = if record.isAbstract then some "true" else none
  provenance : element.attribute? "provenance" =
    if record.provenance.isText modelProvenance then none else some record.provenance.display

theorem attribute?_node (label text key : String) (entries : List (String × Value))
    (children : List Xml.Element) :
    (Xml.Element.node label (xmlAttributes (Value.underTexts entries)) text children).attribute?
        key = (entries.lookup key).map Value.display := by
  rw [Xml.Element.attribute?, Xml.Element.attributes, xmlAttributes_underTexts, lookup_attributes]

theorem node_shows (tagged : record.Tagged own) (label text : String)
    (children : List Xml.Element) :
    record.Shows (.node label (xmlAttributes (xmiEntries record)) text children) := by
  have apart : ∀ key ∈ xmiName "type" :: fieldAttributes, (key == xmiName "id") = false := by
    decide
  have other : ∀ key ∈ fieldAttributes, xmiName "type" ≠ key := by decide
  simp only [fieldAttributes, List.forall_mem_cons] at apart other
  rw [xmiEntries_eq tagged]
  constructor
  case id =>
    rw [attribute?_node, lookup_used tagged (.inr (head?_xmiName "id"))]
    simp [leadingAttributes, Key.display]
  case type =>
    rw [attribute?_node, lookup_used tagged (.inr (head?_xmiName "type"))]
    simp [leadingAttributes, trailingAttributes, List.lookup_append, Value.lookup_under?,
      List.lookup_cons, apart, other]
  all_goals
    rw [attribute?_node, lookup_used tagged (.inl (by decide))]
    simp [leadingAttributes, trailingAttributes, List.lookup_append, Value.lookup_under?,
      List.lookup_cons, apart]
  case isAbstract | provenance => split <;> rfl
  all_goals rfl

/-! ## Records -/

/-- A kind that can be told from what the format itself puts into a tree. -/
structure IsTag (kind : String) : Prop where
  name : Xml.isName kind = true
  apart : kind ∉ "Extension" :: "documentation" :: wrappers

theorem IsTag.plain {kind : String} (isTag : IsTag kind) : '\x7d' ∉ kind.toList :=
  Xml.not_mem_name isTag.name (Xml.isNameChar_delimiter (by decide))

theorem IsTag.some_ {kind : String} (isTag : IsTag kind) : kind ≠ "" := by
  rintro rfl
  have name := isTag.name
  revert name
  decide

/-- A value that is read as itself from its text: truth values have texts of their own. -/
def IsWord (value : Value) : Prop :=
  (∃ b, value = .bool b) ∨ ∃ s, s ≠ "true" ∧ s ≠ "false" ∧ value = .text s

def IsText (value : Value) : Prop :=
  ∃ text? : Option String, value = optionalText text?

def IsFullText (value : Value) : Prop :=
  ∃ text? : Option String, (∀ text ∈ text?, text ≠ "") ∧ value = optionalText text?

def stated (record : Record) : List Value :=
  [record.id.value, record.name, record.qualifiedName, record.shortName, record.provenance] ++
    (record.source.toList ++ record.target.toList).map Key.value ++ record.properties.map (·.2)

/-- The text of a value has only characters that a document can hold. -/
def IsClear (value : Value) : Prop :=
  value.display.toList.all Xml.isAllowed = true

/-- A record that an element can stand for: its kind is a name, and it says nothing that an element
has no place for. -/
structure Drawable (record : Record) : Prop where
  kind : IsTag record.kind
  name : IsText record.name
  qualifiedName : IsText record.qualifiedName
  shortName : IsText record.shortName
  doc : IsText record.doc
  provenance : ∃ text, record.provenance = .text text
  properties : ∃ own, record.Tagged own
  clear : ∀ value ∈ record.stated, IsClear value
  kept : Xml.Kept record.doc.display.toList

/-- A record whose element tells what it is and where it leads, together with its place. -/
structure Markable (record : Record) : Prop extends record.Drawable where
  id : ∃ id, id ≠ "" ∧ record.id = .text id
  source : Key.IsSpelled record.source
  target : Key.IsSpelled record.target

/-- A record that its element tells, together with its place. -/
structure Taggable (record : Record) : Prop where
  id : ∃ id, id ≠ "" ∧ record.id = .text id
  kind : IsTag record.kind
  name : IsText record.name
  qualifiedName : IsText record.qualifiedName
  named : record.isRelationship = false → record.name ≠ .null → record.qualifiedName ≠ .null
  source : Key.IsSpelled record.source
  target : Key.IsSpelled record.target
  shortName : IsFullText record.shortName
  doc : IsFullText record.doc
  provenance : ∃ text, record.provenance = .text text
  properties : ∃ own, record.Tagged own ∧ ∀ entry ∈ own, IsWord entry.2
  clear : ∀ value ∈ record.stated, IsClear value
  kept : Xml.Kept record.doc.display.toList

theorem IsFullText.isText {value : Value} (isFull : IsFullText value) : IsText value :=
  ⟨isFull.choose, isFull.choose_spec.2⟩

theorem Taggable.markable (taggable : record.Taggable) : record.Markable where
  id := taggable.id
  kind := taggable.kind
  name := taggable.name
  qualifiedName := taggable.qualifiedName
  source := taggable.source
  target := taggable.target
  shortName := taggable.shortName.isText
  doc := taggable.doc.isText
  provenance := taggable.provenance
  properties := ⟨taggable.properties.choose, taggable.properties.choose_spec.1⟩
  clear := taggable.clear
  kept := taggable.kept

theorem propertyValue_propertyText {value : Value} (word : IsWord value) :
    propertyValue (propertyText value) = value := by
  rcases word with ⟨b, rfl⟩ | ⟨s, notTrue, notFalse, rfl⟩
  · cases b <;> rfl
  · simp [propertyText, Value.display, Value.bare, propertyValue, notTrue, notFalse]

theorem optionalText_given (text? : Option String) :
    optionalText ((optionalText text?).given?.map Value.display) = optionalText text? := by
  cases text? <;> rfl

theorem optionalText_filled {text? : Option String} (full : ∀ text ∈ text?, text ≠ "") :
    optionalText ((optionalText text?).filled?.map Value.display) = optionalText text? := by
  cases text? with
  | none => rfl
  | some text =>
    have present : text.isEmpty = false := by simpa using full text rfl
    simp [optionalText, Value.filled?, Value.isAbsent, present, Value.display, Value.bare]

theorem spelled_display {id? : Option Key} (spelled : Key.IsSpelled id?) :
    ((Key.given? id?).map Key.display).map Key.text = id? := by
  cases id? with
  | none => rfl
  | some id =>
    obtain ⟨name, some_, rfl⟩ := spelled id rfl
    have present : name.isEmpty = false := by simpa using some_
    simp [Key.given?, Option.filter, Key.isAbsent, Key.text, Value.isAbsent, present, Key.display,
      Value.display, Value.bare]

/-- The element's name is the record's kind. -/
theorem kindOf_element {element : Xml.Element} (shows_ : record.Shows element)
    (isTag : IsTag record.kind)
    (named : element.name = Xml.qualified modelSpace record.kind) :
    kindOf element = record.kind := by
  have label := Xml.localName_qualified isTag.plain modelSpace
  have noWrapper : wrappers.contains record.kind = false := by
    have apart := isTag.apart
    simp only [List.mem_cons, not_or] at apart
    simpa using apart.2.2
  rw [kindOf, shows_.type, named, label]
  simp only [Option.getD_none, noWrapper]
  rfl

def isUsed (name : String) : Bool :=
  fieldAttributes.contains name || name.toList.head? == some '\x7b'

theorem filter_used {entries : List (String × Value)} {names : List String}
    (within : (entries.map (·.1)).Sublist names) (used : ∀ name ∈ names, isUsed name = true) :
    (entries.map fun entry => (entry.1, attributeValue entry.2)).filter
      (fun entry => !isUsed entry.1) = [] := by
  rw [List.filter_eq_nil_iff]
  intro entry listed
  obtain ⟨field, isField, rfl⟩ := List.mem_map.mp listed
  simpa using used field.1 (within.subset (List.mem_map_of_mem isField))

/-- The properties of a record are read from the attributes of its element. -/
theorem properties_read (tagged : record.Tagged own) (words : ∀ entry ∈ own, IsWord entry.2) :
    ((xmlAttributes (xmiEntries record)).filter fun entry => !isUsed entry.1).map
        (fun entry => (Value.text entry.1, propertyValue entry.2.content)) =
      record.properties := by
  have kept : ((propertyAttributes own).map fun entry => (entry.1, attributeValue entry.2)).filter
      (fun entry => !isUsed entry.1) =
        (propertyAttributes own).map fun entry => (entry.1, attributeValue entry.2) := by
    rw [List.filter_eq_self]
    intro entry listed
    obtain ⟨_, isAttribute, rfl⟩ := List.mem_map.mp listed
    obtain ⟨property, isProperty, rfl⟩ := List.mem_map.mp isAttribute
    have apart := tagged.apart property isProperty
    have plain := Xml.head?_name (tagged.names property isProperty).1
    simp [isUsed, apart, plain]
  have leading := filter_used (leadingAttributes_keys record) (by decide)
  have trailing : (record.trailingAttributes.map fun entry =>
      (entry.1, attributeValue entry.2)).filter (fun entry => !isUsed entry.1) = [] :=
    filter_used (Value.under?_keys ..) (by decide)
  rw [xmiEntries_eq tagged, xmlAttributes_underTexts, allAttributes, List.map_append,
    List.map_append, List.filter_append, List.filter_append, kept, leading, trailing,
    List.nil_append, List.append_nil, propertyAttributes, List.map_map, List.map_map,
    tagged.properties, Value.underTexts]
  refine List.map_congr_left fun property isProperty => ?_
  exact congrArg (Value.text property.1, ·) (propertyValue_propertyText (words property isProperty))

/-- A record with a name of its own has a qualified name, so none is made for it. -/
theorem qualifiedName_read (taggable : record.Taggable) (make : String → String) :
    optionalText ((record.qualifiedName.given?.map Value.display).or
      (if (isRelationshipKind record.kind || ((Key.given? record.source).map Key.display).isSome) =
        true then none
      else (record.name.given?.map Value.display).map make)) = record.qualifiedName := by
  obtain ⟨name?, isName⟩ := taggable.name
  obtain ⟨qualifiedName?, isQualifiedName⟩ := taggable.qualifiedName
  have sameSource : ((Key.given? record.source).map Key.display).isSome = record.source.isSome := by
    rw [← Option.isSome_map, spelled_display taggable.source]
  have given := optionalText_given qualifiedName?
  rw [← isQualifiedName] at given
  cases qualifiedName? with
  | some qualifiedName =>
    rw [isQualifiedName] at given ⊢
    exact given
  | none =>
    rw [sameSource, ← isRelationship, isQualifiedName]
    cases isRelation : record.isRelationship with
    | true => rfl
    | false =>
      cases name? with
      | none =>
        rw [isName]
        rfl
      | some name =>
        have named : record.name ≠ .null := by
          rw [isName]
          nofun
        exact absurd isQualifiedName (taggable.named isRelation named)

/-- The record of a record's element is that record, with the owner that the place tells. -/
theorem recordOf_element (taggable : record.Taggable) {name text : String}
    {children : List Xml.Element} (owner ownerName : Option String)
    (isOwner : record.owner = owner.map Key.text)
    (isDoc : ((children.find? fun child => child.name == "documentation").bind fun child =>
      if child.text.isEmpty then none else some child.text) = record.doc.filled?.map Value.display) :
    recordOf (.node name (xmlAttributes (xmiEntries record)) text children) record.id.display
      record.kind owner ownerName = record := by
  obtain ⟨own, tagged, words⟩ := taggable.properties
  have shows_ := node_shows tagged name text children
  obtain ⟨id, -, isId⟩ := taggable.id
  obtain ⟨name?, isName⟩ := taggable.name
  obtain ⟨qualifiedName?, isQualifiedName⟩ := taggable.qualifiedName
  obtain ⟨shortName?, someShortName, isShortName⟩ := taggable.shortName
  obtain ⟨doc?, someDoc, isDocText⟩ := taggable.doc
  obtain ⟨provenance, isProvenance⟩ := taggable.provenance
  have sameId : Key.text record.id.display = record.id := by rw [isId]; rfl
  have sameSource := spelled_display taggable.source
  have sameTarget := spelled_display taggable.target
  have sameName : optionalText (record.name.given?.map Value.display) = record.name := by
    rw [isName, optionalText_given]
  have sameShortName : optionalText (record.shortName.filled?.map Value.display) =
      record.shortName := by
    rw [isShortName, optionalText_filled someShortName]
  have sameDoc : optionalText (record.doc.filled?.map Value.display) = record.doc := by
    rw [isDocText, optionalText_filled someDoc]
  have sameAbstract : ((if record.isAbstract then some "true" else none) == some "true") =
      record.isAbstract := by
    cases record.isAbstract <;> rfl
  have sameProvenance : Value.text ((if record.provenance.isText modelProvenance then none
      else some record.provenance.display).getD modelProvenance) = record.provenance := by
    split
    · next isModel => exact (Value.eq_text isModel).symm
    · rw [isProvenance]; rfl
  have sameProperties := properties_read tagged words
  simp only [isUsed] at sameProperties
  unfold recordOf
  simp only [shows_.name, shows_.source, shows_.target, shows_.qualifiedName, shows_.shortName,
    shows_.isAbstract, shows_.provenance, sameId, sameSource, sameTarget, sameName, sameShortName,
    sameDoc, isDoc, sameAbstract, sameProvenance, qualifiedName_read taggable, ← isOwner,
    Xml.Element.attributes, Xml.Element.children, sameProperties]

/-- The record of a record's element is the same in the graph of the document. -/
theorem recordOf_vertex (markable : record.Markable) {name text : String}
    {children : List Xml.Element} (owner ownerName : Option String)
    (isOwner : record.owner = owner.map Key.text) :
    (recordOf (.node name (xmlAttributes (xmiEntries record)) text children) record.id.display
      record.kind owner ownerName).vertex = record.vertex := by
  obtain ⟨own, tagged⟩ := markable.properties
  have shows_ := node_shows tagged name text children
  obtain ⟨id, -, isId⟩ := markable.id
  have sameId : Key.text record.id.display = record.id := by rw [isId]; rfl
  unfold recordOf
  simp only [vertex, shows_.source, shows_.target, sameId, spelled_display markable.source,
    spelled_display markable.target, isOwner]

end Record

end Sysml
