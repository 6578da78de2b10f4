import Sysml.Proofs.Format.Nested

/-!
# Documents as XMI and back

A document is read back from its XMI with its records in the order of the tree, its external
references in theirs, and the same metadata (`xmi_read_write`), if the text carries the tree up to
the white space between elements.
-/

set_option autoImplicit false

namespace Sysml

namespace Entries

universe u v

variable {κ : Type u} {ν : Type v} [BEq κ] [LawfulBEq κ]

theorem nodup_put (key : κ) (value : ν) {entries : List (κ × ν)}
    (nodup : (entries.map (·.1)).Nodup) : ((put key value entries).map (·.1)).Nodup := by
  rw [keys_put]
  split
  · exact nodup
  · next absent =>
    have fresh : key ∉ entries.map (·.1) := by simpa using absent
    exact (List.perm_append_singleton _ _).nodup_iff.mpr (List.nodup_cons.mpr ⟨fresh, nodup⟩)

/-- A pair that is put takes the place of one under its key. -/
theorem put_perm (key : κ) (value : ν) {entries : List (κ × ν)}
    (nodup : (entries.map (·.1)).Nodup) :
    (put key value entries).Perm (erase key entries ++ [(key, value)]) := by
  induction entries with
  | nil => exact .refl _
  | cons entry rest ih =>
    obtain ⟨fresh, others⟩ := List.nodup_cons.mp nodup
    cases same : entry.1 == key with
    | true =>
      have isKey : entry.1 = key := beq_iff_eq.mp same
      have kept : erase key rest = rest := by
        rw [erase, List.filter_eq_self]
        intro other listed
        have apart : other.1 ≠ key := fun same =>
          fresh (List.mem_map.mpr ⟨other, listed, same.trans isKey.symm⟩)
        simpa using apart
      rw [put, if_pos same, erase, List.filter_cons_of_neg (by simp [same]), ← erase, kept, isKey]
      exact (List.perm_append_singleton _ _).symm
    | false =>
      rw [put, if_neg (by simp [same]), erase, List.filter_cons_of_pos (by simp [same]), ← erase]
      exact (ih others).cons entry

/-- Pairs that are put take the places of those under their keys. -/
theorem foldl_put_perm {pairs entries : List (κ × ν)} (distinct : (pairs.map (·.1)).Nodup)
    (nodup : (entries.map (·.1)).Nodup) :
    (pairs.foldl (fun entries pair => put pair.1 pair.2 entries) entries).Perm
      (entries.filter (fun entry => !(pairs.any (·.1 == entry.1))) ++ pairs) := by
  induction pairs generalizing entries with
  | nil => simp
  | cons pair rest ih =>
    obtain ⟨fresh, others⟩ := List.nodup_cons.mp distinct
    have absent : (rest.any (·.1 == pair.1)) = false := by
      rw [List.any_eq_false]
      intro other listed same
      exact fresh (List.mem_map.mpr ⟨other, listed, beq_iff_eq.mp same⟩)
    rw [List.foldl_cons]
    refine (ih others (nodup_put pair.1 pair.2 nodup)).trans ?_
    have placed := ((put_perm pair.1 pair.2 nodup).filter
      fun entry => !(rest.any (·.1 == entry.1))).append_right rest
    refine placed.trans (List.Perm.of_eq ?_)
    rw [List.filter_append, erase, List.filter_filter, List.filter_cons_of_pos (by simp [absent]),
      List.filter_nil, List.append_assoc]
    congr 1
    refine List.filter_congr fun entry _ => ?_
    rw [List.any_cons, Bool.not_or, Bool.and_comm, BEq.comm]

end Entries

namespace Document

open Xml (Element IsIn IsSplit)

structure Markable (document : Document) : Prop where
  records : ∀ record ∈ document.records, record.Markable
  nested : document.Nested
  external : ∃ names : List (String × String),
    document.externalRefs = names.map (fun name => (.text name.1, .text name.2)) ∧
      (names.map (·.1)).Nodup ∧ ∀ name ∈ names, name.1 ≠ "" ∧
        name.1.toList.all Xml.isAllowed = true ∧ name.2.toList.all Xml.isAllowed = true
  metadata : ∃ own : List (String × Value), document.metadata = Value.underTexts own ∧
    (own.map (·.1)).Nodup ∧
      ∀ entry ∈ own, (Xml.isName entry.1 = true ∧ entry.1 ≠ "xmlns") ∧ Record.IsClear entry.2

structure Taggable (document : Document) : Prop where
  records : ∀ record ∈ document.records, record.Taggable
  nested : document.Nested
  external : ∃ names : List (String × String),
    document.externalRefs = names.map (fun name => (.text name.1, .text name.2)) ∧
      (names.map (·.1)).Nodup ∧ ∀ name ∈ names, name.1 ≠ "" ∧
        name.1.toList.all Xml.isAllowed = true ∧ name.2.toList.all Xml.isAllowed = true
  metadata : ∃ own : List (String × Value), document.metadata = Value.underTexts own ∧
    (own.map (·.1)).Nodup ∧
      ∀ entry ∈ own, (Xml.isName entry.1 = true ∧ entry.1 ≠ "xmlns") ∧
        Record.IsWord entry.2 ∧ Record.IsClear entry.2

variable {document : Document}

theorem Taggable.markable (taggable : document.Taggable) : document.Markable where
  records := fun record isRecord => (taggable.records record isRecord).markable
  nested := taggable.nested
  external := taggable.external
  metadata := by
    obtain ⟨own, isOwn, distinct, words⟩ := taggable.metadata
    refine ⟨own, isOwn, distinct, fun entry listed => ?_⟩
    obtain ⟨isName_, -, clear⟩ := words entry listed
    exact ⟨isName_, clear⟩

/-! ## The extension -/

theorem put_underTexts (key : String) (value : Value) (entries : List (String × Value)) :
    Entries.put (.text key) value (Value.underTexts entries) =
      Value.underTexts (Entries.put key value entries) := by
  induction entries with
  | nil => rfl
  | cons entry rest ih =>
    change Entries.put (.text key) value ((.text entry.1, entry.2) :: Value.underTexts rest) = _
    rw [Entries.put, Entries.put, Value.text_beq]
    split
    · rfl
    · rw [ih]
      rfl

theorem foldl_put_underTexts (pairs entries : List (String × Value)) :
    pairs.foldl (fun entries pair => Entries.put (.text pair.1) pair.2 entries)
        (Value.underTexts entries) =
      Value.underTexts
        (pairs.foldl (fun entries pair => Entries.put pair.1 pair.2 entries) entries) := by
  induction pairs generalizing entries with
  | nil => rfl
  | cons pair rest ih => rw [List.foldl_cons, List.foldl_cons, put_underTexts, ih]

def ownMetadata : List (String × Value) :=
  [("tool", .text toolName), ("version", .text toolVersion), ("selfContained", .bool false)]

theorem completed_nil : completed [] = Value.underTexts ownMetadata := by
  simp [completed, Entries.putNew, List.lookup_cons, Value.text_beq, ownMetadata, Value.underTexts]

/-- Complete metadata have an entry for each that every document has. -/
theorem held_of_complete {own : List (String × Value)}
    (complete : completed (Value.underTexts own) = Value.underTexts own) :
    ∀ entry ∈ ownMetadata, own.any (·.1 == entry.1) = true := by
  have keys : ∀ entry ∈ ownMetadata,
      ((completed (Value.underTexts own)).map (·.1)).contains (.text entry.1) = true := by
    simp only [ownMetadata, List.forall_mem_cons]
    exact ⟨contains_putNew _ (contains_putNew _ (contains_putNew_self "tool" _ _)),
      contains_putNew _ (contains_putNew_self "version" _ _),
      contains_putNew_self "selfContained" _ _, List.forall_mem_nil _⟩
  intro entry listed
  have held := keys entry listed
  rw [complete, List.contains_eq_any_beq, Value.underTexts, List.map_map, List.any_map,
    List.any_eq_true] at held
  obtain ⟨found, isFound, same⟩ := held
  refine List.any_eq_true.mpr ⟨found, isFound, ?_⟩
  have same : (Value.text entry.1 == .text found.1) = true := same
  rw [Value.text_beq, beq_iff_eq] at same
  exact beq_iff_eq.mpr same.symm

/-- Complete metadata that are put over those of a new document are these metadata. -/
theorem metadata_merged {own : List (String × Value)} (distinct : (own.map (·.1)).Nodup)
    (complete : completed (Value.underTexts own) = Value.underTexts own) :
    (own.foldl (fun entries pair => Entries.put (.text pair.1) pair.2 entries)
      (completed [])).Perm (Value.underTexts own) := by
  have covered : ownMetadata.filter (fun entry => !(own.any (·.1 == entry.1))) = [] := by
    rw [List.filter_eq_nil_iff]
    intro entry listed
    simp [held_of_complete complete entry listed]
  have ownDistinct : (ownMetadata.map (·.1)).Nodup := by decide
  have placed := Entries.foldl_put_perm distinct ownDistinct
  rw [covered, List.nil_append] at placed
  rw [completed_nil, foldl_put_underTexts]
  exact placed.map _

/-- The metadata of an element. -/
theorem readExtensionChild_metadata {own : List (String × Value)}
    (words : ∀ entry ∈ own, Record.IsWord entry.2) (read : Document) :
    readExtensionChild read (.node "metadata"
        (xmlAttributes ((Value.underTexts own).map propertyEntry)) "" []) =
      .ok { read with
        metadata := own.foldl (fun entries pair => Entries.put (.text pair.1) pair.2 entries)
          read.metadata } := by
  have label : Xml.localName "metadata" = "metadata" := Xml.localName_plain (by decide)
  have texts : (Value.underTexts own).map propertyEntry =
      Value.underTexts (Record.propertyAttributes own) := by
    rw [Value.underTexts, Value.underTexts, Record.propertyAttributes, List.map_map, List.map_map]
    rfl
  have put_ : ∀ (entries : List (Value × Value)), ∀ pair ∈ own,
      Entries.put (Value.text pair.1)
        (propertyValue (attributeValue (.text (propertyText pair.2))).content) entries =
      Entries.put (.text pair.1) pair.2 entries := by
    intro entries pair listed
    change Entries.put _ (propertyValue (propertyText pair.2)) _ = _
    rw [Record.propertyValue_propertyText (words pair listed)]
  rw [texts, xmlAttributes_underTexts, Record.propertyAttributes, List.map_map]
  unfold readExtensionChild
  simp only [Element.name, label, Element.attributes, List.foldl_map, Function.comp_apply]
  rw [List.foldl_ext _ _ _ put_]

/-- The external references are read in their order. -/
theorem readExtension_external {names : List (String × String)}
    (someNames : ∀ name ∈ names, name.1 ≠ "") (read : Document) :
    ((names.map fun name => ((Key.text name.1, Key.text name.2) : Key × Key)).map fun (id, name) =>
        Element.node "externalReference" (xmlAttributes (externalEntries id name)) "" []).foldlM
        readExtensionChild read =
      .ok { read with
        externalRefs := names.foldl
          (fun entries name => Entries.put (.text name.1) (.text name.2) entries)
          read.externalRefs } := by
  induction names generalizing read with
  | nil => rfl
  | cons name rest ih =>
    obtain ⟨some_, others⟩ := List.forall_mem_cons.mp someNames
    have label : Xml.localName "externalReference" = "externalReference" :=
      Xml.localName_plain (by decide)
    have isId : (Element.node "externalReference" (xmlAttributes (externalEntries (.text name.1)
        (.text name.2))) "" []).attribute? (xmiName "idref") = some name.1 :=
      (Record.attribute?_node _ _ _ [(xmiName "idref", .text name.1), ("qualifiedName",
        .text name.2)] []).trans (by simp [Value.display, Value.bare])
    have isName : (Element.node "externalReference" (xmlAttributes (externalEntries (.text name.1)
        (.text name.2))) "" []).attribute? "qualifiedName" = some name.2 := by
      have apart : ("qualifiedName" == xmiName "idref") = false := by decide
      exact (Record.attribute?_node _ _ _ [(xmiName "idref", .text name.1), ("qualifiedName",
        .text name.2)] []).trans (by simp [List.lookup_cons, apart, Value.display, Value.bare])
    have present : name.1.isEmpty = false := by simpa using some_
    have first : readExtensionChild read (.node "externalReference"
        (xmlAttributes (externalEntries (.text name.1) (.text name.2))) "" []) =
          .ok { read with
            externalRefs := Entries.put (.text name.1) (.text name.2) read.externalRefs } := by
      unfold readExtensionChild
      simp only [isId, isName, present]
      simp only [Element.name, label]
      rfl
    rw [List.map_cons, List.map_cons, List.foldlM_cons, first]
    exact ih others _

/-! ## Writing -/

theorem under?_forall {P : String × Value → Prop} {key : String} {value : Option Value}
    (holds : ∀ held ∈ value, P (key, held)) : ∀ entry ∈ Value.under? key value, P entry := by
  intro entry listed
  obtain ⟨held, isHeld, rfl⟩ := List.mem_map.mp listed
  exact holds held (Option.mem_toList.mp isHeld)

theorem clear_propertyText {value : Value} (clear : Record.IsClear value) :
    (propertyText value).toList.all Xml.isAllowed = true := by
  cases value with
  | bool b => cases b <;> decide
  | _ => exact clear

/-- A name and a text, both such that an attribute can have them. -/
def IsAttribute (entry : String × Value) : Prop :=
  IsIn xmiAbbreviations entry.1 ∧ ∃ text, entry.2 = .text text ∧ text.toList.all Xml.isAllowed = true

theorem isAttribute_under? {key : String} {value : Option Value} (name : IsIn xmiAbbreviations key)
    (texts : ∀ held ∈ value, ∃ text, held = .text text ∧ text.toList.all Xml.isAllowed = true) :
    ∀ entry ∈ Value.under? key value, IsAttribute entry :=
  under?_forall fun held isHeld => ⟨name, texts held isHeld⟩

theorem texts_given {value : Value} (isText : Record.IsText value) (clear : Record.IsClear value) :
    ∀ held ∈ value.given?, ∃ text, held = .text text ∧ text.toList.all Xml.isAllowed = true := by
  obtain ⟨text?, rfl⟩ := isText
  cases text? with
  | none => nofun
  | some text => rintro _ ⟨⟩; exact ⟨text, rfl, clear⟩

theorem texts_filled {value : Value} (isText : Record.IsText value)
    (clear : Record.IsClear value) :
    ∀ held ∈ value.filled?, ∃ text, held = .text text ∧ text.toList.all Xml.isAllowed = true := by
  obtain ⟨text?, rfl⟩ := isText
  intro held isHeld
  unfold Value.filled? at isHeld
  split at isHeld
  · cases isHeld
  · cases text? with
    | none => simp_all [optionalText, Value.isAbsent]
    | some text => exact ⟨text, (Option.some.inj isHeld).symm, clear⟩

theorem texts_spelled {id? : Option Key} (spelled : Key.IsSpelled id?)
    (clear : ∀ id ∈ id?, Record.IsClear id.value) :
    ∀ held ∈ (Key.given? id?).map Key.value,
      ∃ text, held = .text text ∧ text.toList.all Xml.isAllowed = true := by
  intro held isHeld
  obtain ⟨id, isId, rfl⟩ := Option.map_eq_some_iff.mp isHeld
  have isId := (Option.filter_eq_some_iff.mp isId).1
  obtain ⟨name, -, rfl⟩ := spelled id isId
  exact ⟨name, rfl, clear _ isId⟩

theorem isIn_xmiName {label : String} (isLabel : Xml.isName label = true) :
    IsIn xmiAbbreviations (xmiName label) :=
  .qualified (by decide : (xmiSpace, "xmi") ∈ xmiAbbreviations) isLabel

theorem isIn_model {label : String} (isLabel : Xml.isName label = true) :
    IsIn xmiAbbreviations (Xml.qualified modelSpace label) :=
  .qualified (by decide : (modelSpace, "sysml") ∈ xmiAbbreviations) isLabel

/-- A record's element has names and texts for attributes. -/
theorem allAttributes_isAttribute {record : Record} (markable : record.Markable)
    {own : List (String × Value)} (tagged : record.Tagged own) :
    ∀ entry ∈ record.allAttributes own, IsAttribute entry := by
  obtain ⟨id, -, isId⟩ := markable.id
  obtain ⟨provenance, isProvenance⟩ := markable.provenance
  have clear := markable.clear
  simp only [Record.stated, List.forall_mem_append, List.forall_mem_cons, List.forall_mem_map]
    at clear
  obtain ⟨⟨⟨clearId, clearName, clearQualifiedName, clearShortName, clearProvenance, -⟩,
    clearSource, clearTarget⟩, clearProperties⟩ := clear
  have isAbstract : ∀ held ∈ (if record.isAbstract then some (Value.text "true") else none),
      ∃ text, held = .text text ∧ text.toList.all Xml.isAllowed = true := by
    cases record.isAbstract with
    | false => rintro _ ⟨⟩
    | true => rintro _ ⟨⟩; exact ⟨"true", rfl, by decide⟩
  have given : ∀ held ∈ (if record.provenance.isText Record.modelProvenance then none
      else some record.provenance),
      ∃ text, held = .text text ∧ text.toList.all Xml.isAllowed = true := by
    intro held isHeld
    split at isHeld
    · cases isHeld
    · refine ⟨provenance, by rw [← Option.some.inj isHeld, isProvenance], ?_⟩
      rw [isProvenance] at clearProvenance
      exact clearProvenance
  have plain {label : String} (isLabel : Xml.isName label = true) (free : label ≠ "xmlns") :
      IsIn xmiAbbreviations label := .plain isLabel free
  unfold Record.allAttributes Record.leadingAttributes Record.trailingAttributes
  simp only [List.forall_mem_append, List.forall_mem_singleton]
  refine ⟨⟨⟨⟨⟨⟨⟨⟨?id, ?name⟩, ?shortName⟩, ?qualifiedName⟩, ?source⟩, ?target⟩, ?isAbstract⟩,
    ?properties⟩, ?provenance⟩
  case id =>
    rw [isId] at clearId ⊢
    exact ⟨isIn_xmiName (Xml.isName_of_isAlpha rfl), id, rfl, clearId⟩
  case name =>
    exact isAttribute_under? (plain (Xml.isName_of_isAlpha rfl) (by decide))
      (texts_given markable.name clearName)
  case shortName =>
    exact isAttribute_under? (plain (Xml.isName_of_isAlpha rfl) (by decide))
      (texts_filled markable.shortName clearShortName)
  case qualifiedName =>
    exact isAttribute_under? (plain (Xml.isName_of_isAlpha rfl) (by decide))
      (texts_given markable.qualifiedName clearQualifiedName)
  case source =>
    exact isAttribute_under? (plain (Xml.isName_of_isAlpha rfl) (by decide))
      (texts_spelled markable.source fun id isId => clearSource id (Option.mem_toList.mpr isId))
  case target =>
    exact isAttribute_under? (plain (Xml.isName_of_isAlpha rfl) (by decide))
      (texts_spelled markable.target fun id isId => clearTarget id (Option.mem_toList.mpr isId))
  case isAbstract =>
    exact isAttribute_under? (plain (Xml.isName_of_isAlpha rfl) (by decide)) isAbstract
  case provenance =>
    exact isAttribute_under? (plain (Xml.isName_of_isAlpha rfl) (by decide)) given
  case properties =>
    intro entry listed
    obtain ⟨property, isProperty, rfl⟩ := List.mem_map.mp listed
    have isListed : (Value.text property.1, property.2) ∈ record.properties := by
      rw [tagged.properties]
      exact List.mem_map_of_mem isProperty
    obtain ⟨isName_, free⟩ := tagged.names property isProperty
    exact ⟨plain isName_ free, _, rfl,
      clear_propertyText (clearProperties _ isListed)⟩

theorem isWord_isWritable {value : Value} (word : Record.IsWord value) :
    value.isWritable = true := by
  rcases word with ⟨b, rfl⟩ | ⟨s, -, -, rfl⟩ <;> rfl

theorem nameFault?_isIn {name : String} (isIn : IsIn xmiAbbreviations name) :
    nameFault? (.text name) = none := by
  have split_ : (Xml.splitName name).isSome = true := isIn.isSplit
  rw [nameFault?, if_pos split_]

theorem entries_faultless {entries : List (String × Value)}
    (attributes : ∀ entry ∈ entries, IsAttribute entry) :
    (∀ key ∈ (Value.underTexts entries).map (·.1), nameFault? key = none) ∧
      ∀ entry ∈ Value.underTexts entries, valueFault? entry.2 = none := by
  constructor
  · intro key listed
    obtain ⟨entry, isEntry, rfl⟩ := List.mem_map.mp listed
    obtain ⟨field, isField, rfl⟩ := List.mem_map.mp isEntry
    exact nameFault?_isIn (attributes field isField).1
  · intro entry listed
    obtain ⟨field, isField, rfl⟩ := List.mem_map.mp listed
    obtain ⟨text, isText, -⟩ := (attributes field isField).2
    rw [isText]
    rfl

theorem docFault?_none {doc : Value} (isText : Record.IsFullText doc) : docFault? doc = none := by
  obtain ⟨text?, -, rfl⟩ := isText
  cases text? <;> rfl

theorem record_attributes (markable : document.Markable) {record : Record}
    (isRecord : record ∈ document.records) :
    ∃ entries, xmiEntries record = Value.underTexts entries ∧ (entries.map (·.1)).Nodup ∧
      ∀ entry ∈ entries, IsAttribute entry := by
  have facts := markable.records record isRecord
  obtain ⟨own, tagged⟩ := facts.properties
  exact ⟨_, Record.xmiEntries_eq tagged, Record.attributes_distinct tagged,
    allAttributes_isAttribute facts tagged⟩

/-- Nothing in the document keeps it from being written. -/
theorem xmiFault?_none (taggable : document.Taggable) : document.xmiFault? = none := by
  obtain ⟨own, isOwn, -, words⟩ := taggable.metadata
  obtain ⟨names, isNames, -, -⟩ := taggable.external
  have listed := taggable.nested.written_perm.subset
  have properties : ((document.written (document.records.length + 1) document.roots).flatMap
      Record.properties ++ document.metadata).findSome? propertyFault? = none := by
    have writable {entries : List (String × Value)}
        (words : ∀ entry ∈ entries, Record.IsWord entry.2) :
        ∀ entry ∈ Value.underTexts entries, propertyFault? entry = none := by
      intro entry isEntry
      obtain ⟨property, isProperty, rfl⟩ := List.mem_map.mp isEntry
      rw [propertyFault?, if_pos (isWord_isWritable (words property isProperty))]
    rw [List.findSome?_eq_none_iff, List.forall_mem_append, isOwn]
    refine ⟨fun entry isEntry => ?_, writable fun entry isEntry => (words entry isEntry).2.1⟩
    obtain ⟨record, isWritten, isProperty⟩ := List.mem_flatMap.mp isEntry
    obtain ⟨own, tagged, words⟩ := (taggable.records record (listed isWritten)).properties
    rw [tagged.properties] at isProperty
    exact writable words entry isProperty
  have keys : (((document.written (document.records.length + 1) document.roots).flatMap
      fun record => (xmiEntries record).map (·.1)) ++ document.metadata.map (·.1)).findSome?
        nameFault? = none := by
    rw [List.findSome?_eq_none_iff, List.forall_mem_append, isOwn]
    constructor
    · intro key isKey
      obtain ⟨record, isWritten, isKey⟩ := List.mem_flatMap.mp isKey
      obtain ⟨entries, areEntries, -, areAttributes⟩ := record_attributes taggable.markable (listed isWritten)
      rw [areEntries] at isKey
      exact (entries_faultless areAttributes).1 key isKey
    · intro key isKey
      obtain ⟨entry, isEntry, rfl⟩ := List.mem_map.mp isKey
      obtain ⟨field, isField, rfl⟩ := List.mem_map.mp isEntry
      obtain ⟨isName_, free⟩ := (words field isField).1
      exact nameFault?_isIn (.plain isName_ free)
  have values : ((document.written (document.records.length + 1) document.roots).findSome?
      fun record => ((xmiEntries record).findSome? fun entry => valueFault? entry.2).or
        (docFault? record.doc)) = none := by
    rw [List.findSome?_eq_none_iff]
    intro record isWritten
    obtain ⟨entries, areEntries, -, areAttributes⟩ := record_attributes taggable.markable (listed isWritten)
    have faultless : ((xmiEntries record).findSome? fun entry => valueFault? entry.2) = none := by
      rw [List.findSome?_eq_none_iff, areEntries]
      exact (entries_faultless areAttributes).2
    rw [faultless, docFault?_none (taggable.records record (listed isWritten)).doc]
    rfl
  have external : ((document.externalRefs.flatMap fun (id, name) =>
      externalEntries id name).findSome? fun entry => valueFault? entry.2) = none := by
    rw [List.findSome?_eq_none_iff, isNames]
    intro entry isEntry
    obtain ⟨_, isReference, isEntry⟩ := List.mem_flatMap.mp isEntry
    obtain ⟨name, -, rfl⟩ := List.mem_map.mp isReference
    simp only [externalEntries, List.mem_cons, List.not_mem_nil, or_false] at isEntry
    rcases isEntry with rfl | rfl <;> rfl
  simp only [xmiFault?, properties, keys, values, external, Option.or_none]

theorem haveBareDocs_iff {elements : List Element} :
    haveBareDocs elements = true ↔ ∀ element ∈ elements, hasBareDocs element = true := by
  induction elements with
  | nil => simp [haveBareDocs]
  | cons element rest ih => simp [haveBareDocs, ih]

structure IsMade (element : Element) : Prop where
  legal : Xml.Legal xmiAbbreviations element
  bare : hasBareDocs element = true

theorem isMade_node {name : String} (isIn : IsIn xmiAbbreviations name)
    (entries : List (String × Value)) (distinct : (entries.map (·.1)).Nodup)
    (attributes : ∀ entry ∈ entries, IsAttribute entry) {text : String}
    (kept : Xml.Kept text.toList) {children : List Element}
    (leaf : name ≠ "documentation" ∨ children = []) (inside : ∀ child ∈ children, IsMade child) :
    IsMade (.node name (xmlAttributes (Value.underTexts entries)) text children) where
  legal := by
    rw [xmlAttributes_underTexts]
    refine .node isIn (fun field isField => ?_) (fun field isField => ?_) ?_ kept fun child isChild =>
      (inside child isChild).legal
    · obtain ⟨entry, isEntry, rfl⟩ := List.mem_map.mp isField
      exact (attributes entry isEntry).1
    · obtain ⟨entry, isEntry, rfl⟩ := List.mem_map.mp isField
      obtain ⟨value, isValue, allowed⟩ := (attributes entry isEntry).2
      exact ⟨value, by rw [isValue]; rfl, allowed⟩
    · rw [List.map_map]
      exact distinct
  bare := by
    rw [hasBareDocs, haveBareDocs_iff.mpr fun child isChild => (inside child isChild).bare]
    rcases leaf with apart | rfl
    · simp [apart]
    · simp

theorem qualified_ne_documentation (space label : String) :
    Xml.qualified space label ≠ "documentation" := by
  intro same
  have chars := congrArg (fun name => name.toList.head?) same
  simp [Xml.qualified] at chars

theorem kept_empty : Xml.Kept "".toList := by
  decide

theorem isMade_element (markable : document.Markable) (bound : Nat) {record : Record}
    (isRecord : record ∈ document.records) : IsMade (document.xmiElement bound record) := by
  induction bound generalizing record with
  | zero =>
    obtain ⟨entries, areEntries, distinct, areAttributes⟩ := record_attributes markable isRecord
    rw [xmiElement, areEntries]
    exact isMade_node (isIn_model (markable.records record isRecord).kind.name) entries distinct
      areAttributes kept_empty (.inr rfl) (List.forall_mem_nil _)
  | succ bound ih =>
    obtain ⟨entries, areEntries, distinct, areAttributes⟩ := record_attributes markable isRecord
    rw [xmiElement_succ, areEntries]
    refine isMade_node (isIn_model (markable.records record isRecord).kind.name) entries distinct
      areAttributes kept_empty (.inl (qualified_ne_documentation _ _)) fun child isChild => ?_
    rcases List.mem_append.mp isChild with isDoc | isOwned
    · unfold docElements at isDoc
      split at isDoc
      · cases isDoc
      · obtain rfl := List.mem_singleton.mp isDoc
        exact isMade_node (.plain (Xml.isName_of_isAlpha rfl) (by decide)) [] List.nodup_nil
          (List.forall_mem_nil _) (markable.records record isRecord).kept (.inr rfl)
          (List.forall_mem_nil _)
    · obtain ⟨inner, isInner, rfl⟩ := List.mem_map.mp isOwned
      have innerRecord := ((markable.nested.mem_inside isRecord).mp isInner).1
      refine isMade_node ?_ [] List.nodup_nil (List.forall_mem_nil _) kept_empty
        (.inl ?_) (List.forall_mem_singleton.mpr (ih innerRecord))
      · cases inner.isRelationship <;> exact .plain (Xml.isName_of_isAlpha rfl) (by decide)
      · cases inner.isRelationship <;> decide

theorem xmiRoot_eq (document : Document) :
    document.xmiRoot = .node (xmiName "XMI")
      (xmlAttributes (Value.underTexts [(xmiName "version", .text "2.5.1")])) ""
      (document.roots.map (document.xmiElement (document.records.length + 1)) ++
        [document.xmiExtension]) :=
  rfl

theorem xmiExtension_eq (document : Document) :
    document.xmiExtension = .node (xmiName "Extension")
      (xmlAttributes (Value.underTexts [("extender", .text "syster")])) ""
      (.node "metadata" (xmlAttributes (document.metadata.map propertyEntry)) "" [] ::
        document.externalRefs.map fun (id, name) =>
          .node "externalReference" (xmlAttributes (externalEntries id name)) "" []) :=
  rfl

theorem externalEntries_eq (id name : Key) :
    externalEntries id name =
      Value.underTexts [(xmiName "idref", id.value), ("qualifiedName", name.value)] :=
  rfl

theorem isMade_metadata (markable : document.Markable) :
    IsMade (.node "metadata" (xmlAttributes (document.metadata.map propertyEntry)) "" []) := by
  obtain ⟨own, isOwn, distinct, words⟩ := markable.metadata
  have texts : document.metadata.map propertyEntry =
      Value.underTexts (Record.propertyAttributes own) := by
    rw [isOwn, Value.underTexts, Value.underTexts, Record.propertyAttributes, List.map_map,
      List.map_map]
    rfl
  rw [texts]
  refine isMade_node (.plain (Xml.isName_of_isAlpha rfl) (by decide)) _ ?_ (fun entry isEntry => ?_) kept_empty
    (.inr rfl) (List.forall_mem_nil _)
  · rw [Record.propertyAttributes_keys]
    exact distinct
  · obtain ⟨field, isField, rfl⟩ := List.mem_map.mp isEntry
    obtain ⟨⟨isName_, free⟩, clear⟩ := words field isField
    exact ⟨.plain isName_ free, _, rfl, clear_propertyText clear⟩

theorem isMade_external (markable : document.Markable) :
    ∀ reference ∈ document.externalRefs, IsMade (.node "externalReference"
      (xmlAttributes (externalEntries reference.1 reference.2)) "" []) := by
  obtain ⟨names, isNames, -, legible⟩ := markable.external
  rw [isNames, List.forall_mem_map]
  intro name listed
  obtain ⟨-, allowedId, allowedName⟩ := legible name listed
  rw [externalEntries_eq]
  have distinct : [xmiName "idref", "qualifiedName"].Nodup := by decide
  have isName_ : Xml.isName "qualifiedName" = true := Xml.isName_of_isAlpha rfl
  have free : "qualifiedName" ≠ "xmlns" := by decide
  refine isMade_node (.plain (Xml.isName_of_isAlpha rfl) (by decide))
    [(xmiName "idref", .text name.1), ("qualifiedName", .text name.2)] distinct ?_ kept_empty
    (.inr rfl) (List.forall_mem_nil _)
  rw [List.forall_mem_cons, List.forall_mem_singleton]
  exact ⟨⟨isIn_xmiName (Xml.isName_of_isAlpha rfl), name.1, rfl, allowedId⟩, .plain isName_ free, name.2,
    rfl, allowedName⟩

theorem isMade_root (markable : document.Markable) : IsMade document.xmiRoot := by
  have isExtension : IsMade document.xmiExtension := by
    rw [xmiExtension_eq]
    refine isMade_node (isIn_xmiName (Xml.isName_of_isAlpha rfl)) _ (by decide) ?_ kept_empty
      (.inl (qualified_ne_documentation _ _)) (List.forall_mem_cons.mpr
        ⟨isMade_metadata markable, List.forall_mem_map.mpr (isMade_external markable)⟩)
    exact List.forall_mem_singleton.mpr
      ⟨.plain (Xml.isName_of_isAlpha rfl) (by decide), "syster", rfl, by decide⟩
  rw [xmiRoot_eq]
  refine isMade_node (isIn_xmiName (Xml.isName_of_isAlpha rfl)) _ (by decide) ?_ kept_empty
    (.inl (qualified_ne_documentation _ _)) ?_
  · exact List.forall_mem_singleton.mpr
      ⟨isIn_xmiName (Xml.isName_of_isAlpha rfl), "2.5.1", rfl, by decide⟩
  · rw [List.forall_mem_append, List.forall_mem_singleton, List.forall_mem_map]
    exact ⟨fun record isRoot => isMade_element markable _ (List.mem_filter.mp isRoot).1,
      isExtension⟩

/-! ## There and back -/

theorem readElements_roots (taggable : document.Taggable) (read : Document) :
    readElements read none none
        (document.roots.map (document.xmiElement (document.records.length + 1))) =
      .ok { read with
        records := read.records ++
          document.written (document.records.length + 1) document.roots } := by
  have nested := taggable.nested
  have listed : document.roots ⊆ document.records := fun _ isRoot => (List.mem_filter.mp isRoot).1
  refine readElements_written taggable.records nested listed
    (List.subset_nil.mp (nested.ends ▸ Hierarchy.deep_subset document.inside listed _)) read none
    none fun record isRoot => ?_
  rw [nested.roots_eq, List.mem_filter] at isRoot
  exact Option.isNone_iff_eq_none.mp isRoot.2

/-- What the extension of a document tells. -/
theorem readElement_extension (taggable : document.Taggable)
    (complete : completed document.metadata = document.metadata) (records : List Record) :
    ∃ metadata, metadata.Perm document.metadata ∧
      readElement ⟨records, [], completed []⟩ none none document.xmiExtension =
        .ok ⟨records, document.externalRefs, metadata⟩ := by
  obtain ⟨own, isOwn, distinct, words⟩ := taggable.metadata
  obtain ⟨names, isNames, apart, someNames⟩ := taggable.external
  rw [isOwn] at complete
  refine ⟨_, isOwn ▸ metadata_merged distinct complete, ?_⟩
  have label : Xml.localName (xmiName "Extension") = "Extension" :=
    Xml.localName_qualified (by decide) xmiSpace
  have references : names.foldl
      (fun entries name => Entries.put (Key.text name.1) (Key.text name.2) entries) [] =
        document.externalRefs := by
    have distinct : (names.map fun name => ((Key.text name.1, Key.text name.2) : Key × Key)).Pairwise
        fun one other => (one.1 == other.1) = false := by
      rw [List.pairwise_map]
      exact (List.pairwise_map.mp apart).imp fun apart => beq_false_of_ne apart
    have whole := Entries.ofPairs_eq distinct
    rw [Entries.ofPairs, List.foldl_map] at whole
    exact whole.trans isNames.symm
  rw [xmiExtension_eq]
  unfold readElement
  simp only [label, ↓reduceIte]
  rw [List.foldlM_cons, isOwn, readExtensionChild_metadata fun entry isEntry =>
    (words entry isEntry).2.1, isNames]
  refine (readExtension_external (fun name listed => (someNames name listed).1) _).trans ?_
  rw [references, isNames]

/-- The document that a reader makes of the tree of a document. -/
theorem readElements_root (taggable : document.Taggable)
    (complete : completed document.metadata = document.metadata) :
    ∃ metadata, metadata.Perm document.metadata ∧
      readElements (make [] [] []) none none document.xmiRoot.children =
        .ok ⟨document.written (document.records.length + 1) document.roots, document.externalRefs,
          metadata⟩ := by
  obtain ⟨metadata, same, isRead⟩ := readElement_extension taggable complete
    (document.written (document.records.length + 1) document.roots)
  refine ⟨metadata, same, ?_⟩
  rw [xmiRoot_eq, Element.children, readElements_append, readElements_roots taggable]
  simp only [make, List.nil_append, bind, Except.bind, readElements, isRead]

theorem areKnown_xmi : Xml.AreKnown xmiAbbreviations where
  spaces := by decide
  shorts := by decide
  names := by decide +kernel
  declarable := by decide
  allowed := by decide

/-- What is read from the text of a document is what is read from its tree. -/
theorem ofXmi_toXmi (markable : document.Markable) {text : String}
    (written : document.toXmi = .ok text) :
    ofXmi text.toUTF8 =
      readElements (make [] [] []) none none document.xmiRoot.children := by
  have isText : Xml.render? xmiAbbreviations document.xmiRoot = some text := by
    unfold toXmi at written
    split at written
    · cases written
    · cases written
    · next isText =>
      cases written
      exact isText
  have made := isMade_root markable
  obtain ⟨root, isRoot, same⟩ := made.legal.carries areKnown_xmi text isText
  have bare : haveBareDocs document.xmiRoot.children = true := by
    have bare := made.bare
    rw [xmiRoot_eq] at bare ⊢
    rw [hasBareDocs, Bool.and_eq_true] at bare
    exact bare.2
  have label : Xml.localName root.name = "XMI" := by
    rw [Xml.alike_name same]
    exact Xml.localName_qualified (by decide) xmiSpace
  rw [ofXmi, isRoot]
  simp only [label, ↓reduceIte]
  exact readElements_alike _ _ (Xml.alike_children same) bare ..

/-- A document is read back from its XMI with its records in the order of the tree. -/
theorem xmi_read_write (taggable : document.Taggable)
    (complete : completed document.metadata = document.metadata) :
    ∃ text metadata, document.toXmi = .ok text ∧ metadata.Perm document.metadata ∧
      ofXmi text.toUTF8 =
        .ok ⟨document.written (document.records.length + 1) document.roots, document.externalRefs,
          metadata⟩ := by
  have made := isMade_root taggable.markable
  obtain ⟨text, isText⟩ := Xml.render?_isSome xmiAbbreviations fun name listed =>
    (made.legal.isIn name listed).isSplit
  have written : document.toXmi = .ok text := by
    rw [toXmi, xmiFault?_none taggable, isText]
  obtain ⟨metadata, sameMetadata, isRead⟩ := readElements_root taggable complete
  exact ⟨text, metadata, written, sameMetadata, (ofXmi_toXmi taggable.markable written).trans isRead⟩

/-- The extension of a document adds no records. -/
theorem readElement_extension_records (markable : document.Markable) (read : Document) :
    ∃ again, readElement read none none document.xmiExtension = .ok again ∧
      again.records = read.records := by
  obtain ⟨names, isNames, -, someNames⟩ := markable.external
  have label : Xml.localName (xmiName "Extension") = "Extension" :=
    Xml.localName_qualified (by decide) xmiSpace
  obtain ⟨metadata, isMetadata⟩ : ∃ metadata, readExtensionChild read
      (.node "metadata" (xmlAttributes (document.metadata.map propertyEntry)) "" []) =
        .ok { read with metadata } := by
    have plain : Xml.localName "metadata" = "metadata" := Xml.localName_plain (by decide)
    unfold readExtensionChild
    simp only [Element.name, plain]
    exact ⟨_, rfl⟩
  have references := readExtension_external (fun name listed => (someNames name listed).1)
    { read with metadata }
  rw [xmiExtension_eq]
  unfold readElement
  simp only [label, ↓reduceIte]
  rw [List.foldlM_cons, isMetadata, isNames]
  exact ⟨_, references, rfl⟩

/-- From its XMI a document is read with the same graph, in the order of the tree. -/
theorem ofXmi_graph (markable : document.Markable) {text : String}
    (written : document.toXmi = .ok text) :
    ∃ again, ofXmi text.toUTF8 = .ok again ∧ again.graph.Perm document.graph := by
  have nested := markable.nested
  have listed : document.roots ⊆ document.records := fun _ isRoot => (List.mem_filter.mp isRoot).1
  have isTop : ∀ record ∈ document.roots, record.owner = (none : Option String).map Key.text := by
    intro record isRoot
    rw [nested.roots_eq, List.mem_filter] at isRoot
    exact Option.isNone_iff_eq_none.mp isRoot.2
  obtain ⟨found, areFound, records⟩ := readElements_found markable.records nested listed
    (List.subset_nil.mp (nested.ends ▸ Hierarchy.deep_subset document.inside listed _))
    (make [] [] []) none none isTop
  obtain ⟨again, extension, isAgain⟩ := readElement_extension_records markable
    { make [] [] [] with records := (make [] [] []).records ++ found }
  refine ⟨again, ?_, ?_⟩
  · rw [ofXmi_toXmi markable written, xmiRoot_eq, Element.children, readElements_append, records]
    simp only [bind, Except.bind, readElements]
    rw [extension]
  · have same : found.map Record.vertex =
        (document.written (document.records.length + 1) document.roots).map Record.vertex :=
      (related_map areFound fun record _ other _ isFound => isFound.vertex.symm).symm
    have whole : again.records = found := isAgain
    rw [graph, whole, same]
    exact nested.written_perm.map _

end Document

end Sysml
