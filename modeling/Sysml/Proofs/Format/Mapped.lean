import Sysml.Format
import Sysml.Proofs.Json
import Sysml.Value

/-!
# Records as mappings and back

The mapping of a record holds a field where the record says something, under a key of its own.
So what is read from it is the record again, as long as no property is under the key of a field
and no field says what counts as absent (`ofMapping_toMapping`).
-/

set_option autoImplicit false

/-!
## Telling values apart

Equality of values is wider than identity: numbers are equal by what they count, and the order
of a mapping's entries does not matter. Whether two values are one and the same can be computed
as well (`eq_of_identical`).
-/

namespace Sysml.Value

mutual

def identical : Value → Value → Bool
  | .null, .null => true
  | .bool a, .bool b => a == b
  | .int a, .int b => a == b
  | .double a, .double b => a == b
  | .text a, .text b => a == b
  | .bytes a, .bytes b => a == b
  | .date a, .date b => a == b
  | .time a, .time b => a == b
  | .list a, .list b => identicalItems a b
  | .map a, .map b => identicalEntries a b
  | .set a, .set b => identicalItems a b
  | .pair a c, .pair b d => identical a b && identical c d
  | .shared m a, .shared n b => m == n && identical a b
  | .again m, .again n => m == n
  | _, _ => false

def identicalItems : List Value → List Value → Bool
  | [], [] => true
  | a :: as, b :: bs => identical a b && identicalItems as bs
  | _, _ => false

def identicalEntries : List (Value × Value) → List (Value × Value) → Bool
  | [], [] => true
  | (key, a) :: as, (other, b) :: bs =>
      identical key other && identical a b && identicalEntries as bs
  | _, _ => false

end

mutual

/-- Identical values are equal. -/
theorem eq_of_identical : ∀ a b : Value, identical a b = true → a = b
  | .null, b, same | .bool _, b, same | .int _, b, same | .double _, b, same | .text _, b, same
  | .bytes _, b, same | .date _, b, same | .time _, b, same | .again _, b, same => by
    cases b <;> simp_all [identical]
  | .list as, b, same | .set as, b, same => by
    cases b <;> simp only [identical, Bool.false_eq_true] at same
    rw [eq_of_identicalItems as _ same]
  | .map as, b, same => by
    cases b <;> simp only [identical, Bool.false_eq_true] at same
    rw [eq_of_identicalEntries as _ same]
  | .pair a c, b, same => by
    cases b <;> simp only [identical, Bool.false_eq_true, Bool.and_eq_true] at same
    rw [eq_of_identical a _ same.1, eq_of_identical c _ same.2]
  | .shared label a, b, same => by
    cases b <;> simp only [identical, Bool.false_eq_true, Bool.and_eq_true, beq_iff_eq] at same
    rw [same.1, eq_of_identical a _ same.2]

theorem eq_of_identicalItems : ∀ as bs : List Value, identicalItems as bs = true → as = bs
  | [], [], _ => rfl
  | [], _ :: _, same | _ :: _, [], same => by simp [identicalItems] at same
  | a :: as, b :: bs, same => by
    simp only [identicalItems, Bool.and_eq_true] at same
    rw [eq_of_identical a b same.1, eq_of_identicalItems as bs same.2]

theorem eq_of_identicalEntries :
    ∀ as bs : List (Value × Value), identicalEntries as bs = true → as = bs
  | [], [], _ => rfl
  | [], _ :: _, same | _ :: _, [], same => by simp [identicalEntries] at same
  | (key, a) :: as, (other, b) :: bs, same => by
    simp only [identicalEntries, Bool.and_eq_true] at same
    rw [eq_of_identical key other same.1.1, eq_of_identical a b same.1.2,
      eq_of_identicalEntries as bs same.2]

end

end Sysml.Value

namespace Sysml

/-! ## Mappings with texts as keys -/

namespace Value

def underTexts (entries : List (String × Value)) : List (Value × Value) :=
  entries.map fun entry => (.text entry.1, entry.2)

theorem underTexts_append (left right : List (String × Value)) :
    underTexts (left ++ right) = underTexts left ++ underTexts right :=
  List.map_append

theorem underTexts_apart {entries : List (String × Value)}
    (distinct : (entries.map (·.1)).Nodup) :
    (underTexts entries).Pairwise fun one other => (one.1 == other.1) = false := by
  rw [underTexts, List.pairwise_map]
  exact (List.pairwise_map.mp distinct).imp fun apart => by simpa [text_beq] using apart

theorem lookup_underTexts (key : String) (entries : List (String × Value)) :
    (underTexts entries).lookup (.text key) = entries.lookup key := by
  induction entries with
  | nil => rfl
  | cons entry rest ih =>
    obtain ⟨held, value⟩ := entry
    change ((Value.text held, value) :: underTexts rest).lookup (.text key) = _
    rw [List.lookup_cons, List.lookup_cons, text_beq, ih]

theorem field?_underTexts (key : String) (entries : List (String × Value)) :
    (Value.map (underTexts entries)).field? key = entries.lookup key :=
  lookup_underTexts key entries

def under? (key : String) (value : Option Value) : List (String × Value) :=
  value.toList.map (key, ·)

theorem lookup_under? (key other : String) (value : Option Value) :
    (under? key value).lookup other = if other = key then value else none := by
  cases value with
  | none => simp [under?]
  | some value =>
    by_cases same : other = key
    · simp [under?, same]
    · have apart : (other == key) = false := by simpa using same
      simp [under?, List.lookup_cons, same, apart]

theorem under?_keys (key : String) (value : Option Value) :
    ((under? key value).map (·.1)).Sublist [key] := by
  cases value with
  | none => exact List.nil_sublist _
  | some value => exact List.Sublist.refl _

theorem putField_eq (key : String) (value : Option Value) (entries : List (Value × Value)) :
    putField key value entries =
      (underTexts (under? key value)).foldl (fun entries pair => Entries.put pair.1 pair.2 entries)
        entries := by
  cases value <;> rfl

def given? : Value → Option Value
  | .null => none
  | value => some value

/-- The value, unless it counts as absent. -/
def filled? (value : Value) : Option Value :=
  if value.isAbsent then none else some value

theorem given?_getD (value : Value) : value.given?.getD .null = value := by
  cases value <;> rfl

theorem eq_text {s : String} {value : Value} (same : value.isText s = true) : value = .text s := by
  cases value with
  | text t => rw [beq_iff_eq.mp same]
  | _ => cases same

/-- The value is null, or it does not count as absent. -/
def IsFilled (value : Value) : Prop :=
  value = .null ∨ value.isAbsent = false

theorem IsFilled.filled?_getD {value : Value} (filled : value.IsFilled) :
    value.filled?.getD .null = value := by
  rcases filled with rfl | present
  · rfl
  · simp [filled?, present]

end Value

/-- What a record is in the graph of a document: its id, its kind and where it leads. -/
structure Vertex where
  id : Key
  kind : String
  owner : Option Key
  source : Option Key
  target : Option Key

def Record.vertex (record : Record) : Vertex :=
  ⟨record.id, record.kind, record.owner, record.source, record.target⟩

def Document.graph (document : Document) : List Vertex :=
  document.records.map Record.vertex

/-- The key, if there is one, is a text that is not empty. -/
def Key.IsSpelled (key? : Option Key) : Prop :=
  ∀ key ∈ key?, ∃ name, name ≠ "" ∧ key = .text name

namespace Record

def leadingFields (record : Record) : List (String × Value) :=
  [("@id", record.id.value), ("@type", .text record.kind)] ++
    Value.under? "name" record.name.given? ++
    Value.under? "shortName" record.shortName.filled? ++
    Value.under? "qualifiedName" record.qualifiedName.given? ++
    Value.under? "owner" (reference? record.owner) ++
    Value.under? "source" (reference? record.source) ++
    Value.under? "target" (reference? record.target) ++
    Value.under? "isAbstract" (if record.isAbstract then some (.bool true) else none) ++
    Value.under? "documentation" record.doc.filled?

def trailingFields (record : Record) (owned : List Key) : List (String × Value) :=
  Value.under? "provenance"
      (if record.provenance.isText modelProvenance then none else some record.provenance) ++
    Value.under? "ownedMember"
      (if owned.isEmpty then none else some (.list (owned.map reference)))

/-- The properties are under different texts, and these are no keys of fields. -/
structure Holds (record : Record) (own : List (String × Value)) : Prop where
  properties : record.properties = Value.underTexts own
  distinct : (own.map (·.1)).Nodup
  apart : ∀ entry ∈ own, entry.1 ∉ fieldKeys

structure Mappable (record : Record) : Prop where
  id : ∃ id, id ≠ "" ∧ record.id = .text id
  kind : record.kind ≠ ""
  owner : Key.IsSpelled record.owner
  source : Key.IsSpelled record.source
  target : Key.IsSpelled record.target
  shortName : record.shortName.IsFilled
  doc : record.doc.IsFilled
  properties : ∃ own, record.Holds own

variable {record : Record} {own : List (String × Value)}

theorem leadingFields_keys (record : Record) :
    (record.leadingFields.map (·.1)).Sublist
      ["@id", "@type", "name", "shortName", "qualifiedName", "owner", "source", "target",
        "isAbstract", "documentation"] := by
  unfold leadingFields
  simp only [List.map_append]
  exact (((((((List.Sublist.refl ["@id", "@type"]).append (Value.under?_keys ..)).append
    (Value.under?_keys ..)).append (Value.under?_keys ..)).append (Value.under?_keys ..)).append
    (Value.under?_keys ..)).append (Value.under?_keys ..)).append (Value.under?_keys ..) |>.append
    (Value.under?_keys ..)

theorem trailingFields_keys (record : Record) (owned : List Key) :
    ((record.trailingFields owned).map (·.1)).Sublist ["provenance", "ownedMember"] := by
  rw [trailingFields, List.map_append]
  exact (Value.under?_keys ..).append (Value.under?_keys ..)

theorem fields_distinct (holds : record.Holds own) (owned : List Key) :
    ((record.leadingFields ++ own ++ record.trailingFields owned).map (·.1)).Nodup := by
  have known : ∀ key ∈ own.map (·.1), key ∉ fieldKeys := by
    intro key listed
    obtain ⟨entry, isEntry, rfl⟩ := List.mem_map.mp listed
    exact holds.apart entry isEntry
  rw [List.map_append, List.map_append]
  refine List.Nodup.sublist (((leadingFields_keys record).append (List.Sublist.refl _)).append
    (trailingFields_keys record owned)) ?_
  have moved : ((fieldKeys.take 10 ++ own.map (·.1)) ++ fieldKeys.drop 10).Perm
      (own.map (·.1) ++ fieldKeys) := by
    refine (List.perm_append_comm.append_right _).trans ?_
    rw [List.append_assoc, List.take_append_drop]
  refine moved.nodup_iff.mpr (List.nodup_append.mpr ⟨holds.distinct, by decide, ?_⟩)
  rintro key listed _ isField rfl
  exact known key listed isField

theorem toMapping_eq (holds : record.Holds own) (owned : List Key) :
    record.toMapping owned =
      .map (Value.underTexts (record.leadingFields ++ own ++ record.trailingFields owned)) := by
  have apart := Value.underTexts_apart (fields_distinct holds owned)
  rw [leadingFields, trailingFields] at apart ⊢
  simp only [List.append_assoc, Value.underTexts_append] at apart
  have whole := Entries.foldl_put apart
  simp only [List.foldl_append] at whole
  simp only [toMapping, Value.putField_eq, holds.properties, List.append_assoc,
    Value.underTexts_append]
  exact congrArg Value.map whole

/-- What stands under the key of a field is that field, whatever the properties are. -/
theorem lookup_field (holds : record.Holds own) (owned : List Key) {key : String}
    (isField : key ∈ fieldKeys) :
    (Value.underTexts (record.leadingFields ++ own ++ record.trailingFields owned)).lookup
        (.text key) =
      (record.leadingFields.lookup key).or ((record.trailingFields owned).lookup key) := by
  have foreign : own.lookup key = none := by
    rw [List.lookup_eq_none_iff]
    rintro entry listed
    have apart : key ≠ entry.1 := by
      rintro rfl
      exact holds.apart entry listed isField
    simpa using apart
  rw [Value.lookup_underTexts, List.lookup_append, List.lookup_append, foreign, Option.or_none]

theorem isFieldKey_text (key : String) : isFieldKey (.text key) = true ↔ key ∈ fieldKeys := by
  simp [isFieldKey, Value.isText]

theorem filter_fields {entries : List (String × Value)} {keys : List String}
    (within : (entries.map (·.1)).Sublist keys) (known : keys ⊆ fieldKeys) :
    (Value.underTexts entries).filter (fun entry => !isFieldKey entry.1) = [] := by
  rw [List.filter_eq_nil_iff]
  intro entry listed
  obtain ⟨field, isField, rfl⟩ := List.mem_map.mp listed
  have isKnown := known (within.subset (List.mem_map_of_mem isField))
  simpa using (isFieldKey_text field.1).mpr isKnown

/-- What is under no key of a field are the properties. -/
theorem filter_properties (holds : record.Holds own) (owned : List Key) :
    (Value.underTexts (record.leadingFields ++ own ++ record.trailingFields owned)).filter
        (fun entry => !isFieldKey entry.1) =
      Value.underTexts own := by
  have kept : (Value.underTexts own).filter (fun entry => !isFieldKey entry.1) =
      Value.underTexts own := by
    rw [List.filter_eq_self]
    intro entry listed
    obtain ⟨property, isProperty, rfl⟩ := List.mem_map.mp listed
    have apart := holds.apart property isProperty
    rw [← isFieldKey_text] at apart
    simpa using apart
  rw [Value.underTexts_append, Value.underTexts_append, List.filter_append, List.filter_append,
    kept, filter_fields (leadingFields_keys record) (by decide),
    filter_fields (trailingFields_keys record owned) (by decide), List.nil_append, List.append_nil]

/-- Entries say of a record what it is in the graph. -/
structure Points (record : Record) (entries : List (Value × Value)) : Prop where
  id : entries.lookup (.text "@id") = some record.id.value
  kind : entries.lookup (.text "@type") = some (.text record.kind)
  owner : entries.lookup (.text "owner") = reference? record.owner
  source : entries.lookup (.text "source") = reference? record.source
  target : entries.lookup (.text "target") = reference? record.target

structure Says (record : Record) (entries : List (Value × Value)) : Prop
    extends record.Points entries where
  name : entries.lookup (.text "name") = record.name.given?
  shortName : entries.lookup (.text "shortName") = record.shortName.filled?
  qualifiedName : entries.lookup (.text "qualifiedName") = record.qualifiedName.given?
  isAbstract : entries.lookup (.text "isAbstract") =
    if record.isAbstract then some (.bool true) else none
  doc : entries.lookup (.text "documentation") = record.doc.filled?
  provenance : entries.lookup (.text "provenance") =
    if record.provenance.isText modelProvenance then none else some record.provenance

theorem fields_say (holds : record.Holds own) (owned : List Key) :
    record.Says
      (Value.underTexts (record.leadingFields ++ own ++ record.trailingFields owned)) := by
  refine ⟨⟨?_, ?_, ?_, ?_, ?_⟩, ?_, ?_, ?_, ?_, ?_, ?_⟩ <;>
    · rw [lookup_field holds owned (by decide)]
      simp [leadingFields, trailingFields, List.lookup_append, Value.lookup_under?, List.lookup_cons]

theorem referenced_reference {id? : Option Key} (spelled : Key.IsSpelled id?) :
    referenced ((reference? id?).getD .null) = .ok id? := by
  cases id? with
  | none => rfl
  | some id =>
    obtain ⟨name, some_, rfl⟩ := spelled id rfl
    have present : name.isEmpty = false := by simpa using some_
    have given : reference? (some (.text name)) = some (reference (.text name)) := by
      simp [reference?, Key.given?, Option.filter, Key.isAbsent, Key.text, Value.isAbsent, present]
    have inside : referred (reference (.text name)) = .text name := by
      simp [referred, reference, Value.object, Value.entries?, Value.opened, Value.field?, Key.text,
        List.lookup_cons, Value.text_beq]
    rw [given, referenced, Option.getD_some, inside, Value.isAbsent, present]
    rfl

/-- The record of a record's mapping is that record. -/
theorem ofMapping_toMapping (mappable : record.Mappable) (owned : List Key) :
    ofMapping (record.toMapping owned) = .ok record := by
  obtain ⟨own, holds⟩ := mappable.properties
  obtain ⟨id, someId, isId⟩ := mappable.id
  have told := fields_say holds owned
  have someKind : (Value.text record.kind).isAbsent = false := by
    simpa [Value.isAbsent] using mappable.kind
  have someId : (Value.text id).isAbsent = false := by simpa [Value.isAbsent] using someId
  have provenance : (if record.provenance.isText modelProvenance then none
      else some record.provenance).getD (.text modelProvenance) = record.provenance := by
    split
    · next isModel => exact (Value.eq_text isModel).symm
    · rfl
  have isAbstract : (!((if record.isAbstract then some (Value.bool true) else none).getD
      .null).isAbsent) = record.isAbstract := by
    cases record.isAbstract <;> rfl
  rw [toMapping_eq holds, ofMapping]
  simp only [Value.entries?, Value.opened, told.id, told.kind, told.name, told.shortName,
    told.qualifiedName, told.owner, told.source, told.target, told.isAbstract, told.doc,
    told.provenance, filter_properties holds, isId, Key.text, Option.getD_some, someId, someKind,
    Bool.false_eq_true, ↓reduceIte, referenced_reference mappable.owner,
    referenced_reference mappable.source, referenced_reference mappable.target,
    Value.given?_getD, mappable.shortName.filled?_getD, mappable.doc.filled?_getD, isAbstract,
    provenance, ← holds.properties]
  change Except.ok { record with id := Key.text id } = _
  rw [← isId]

end Record

namespace Document

structure Mappable (document : Document) : Prop where
  records : ∀ record ∈ document.records, record.Mappable
  external : ∃ names : List (String × String),
    document.externalRefs = names.map (fun name => (.text name.1, .text name.2)) ∧
      (names.map (·.1)).Nodup ∧ ∀ name ∈ names, name.1 ≠ ""

variable {document : Document}

theorem mapM_ok {α β ε : Type} {step : α → Except ε β} {answer : α → β} {items : List α}
    (ok : ∀ item ∈ items, step item = .ok (answer item)) :
    items.mapM step = .ok (items.map answer) := by
  induction items with
  | nil => rfl
  | cons item rest ih =>
    rw [List.mapM_cons, ok item List.mem_cons_self,
      ih fun other listed => ok other (List.mem_cons_of_mem _ listed)]
    rfl

theorem mappings_read (mappable : document.Mappable) :
    document.mappings.mapM Record.ofMapping = .ok document.records := by
  rw [mappings, List.mapM_map]
  exact (mapM_ok fun record listed =>
    Record.ofMapping_toMapping (mappable.records record listed) _).trans
      (congrArg Except.ok (List.map_id' _))

theorem externalEntry_read {id : String} (someId : id ≠ "") (name : String) :
    externalEntry (.object [("@id", .text id), ("qualifiedName", .text name)]) =
      .ok (.text id, .text name) := by
  have present : (Value.text id).isAbsent = false := by simpa [Value.isAbsent] using someId
  have isId : (Value.object [("@id", .text id), ("qualifiedName", .text name)]).field? "@id" =
      some (.text id) := Value.field?_underTexts _ _
  have isName : (Value.object [("@id", .text id), ("qualifiedName", .text name)]).field?
      "qualifiedName" = some (.text name) := Value.field?_underTexts _ _
  rw [externalEntry, isId, isName]
  simp only [Option.getD_some, present, Bool.false_eq_true, ↓reduceIte]
  rfl

/-- The list of external references is read as it is written. -/
theorem externalMappings_read (external : ∃ names : List (String × String),
    document.externalRefs = names.map (fun name => (.text name.1, .text name.2)) ∧
      (names.map (·.1)).Nodup ∧ ∀ name ∈ names, name.1 ≠ "") :
    externalsOf (.list document.externalMappings) = .ok document.externalRefs := by
  obtain ⟨names, isNames, distinct, someKeys⟩ := external
  cases names with
  | nil =>
    rw [externalMappings, isNames]
    rfl
  | cons first rest =>
    have entries : (document.externalMappings.mapM externalEntry) = .ok document.externalRefs := by
      rw [externalMappings, isNames, List.map_map, List.mapM_map]
      refine mapM_ok fun name listed => ?_
      exact externalEntry_read (someKeys name listed) name.2
    have apart : document.externalRefs.Pairwise fun one other => (one.1 == other.1) = false := by
      rw [isNames, List.pairwise_map]
      exact (List.pairwise_map.mp distinct).imp fun {one other} apart => by
        change (one.1 == other.1) = false
        simpa using apart
    have present : (Value.list document.externalMappings).isAbsent = false := by
      rw [externalMappings, isNames]
      rfl
    rw [externalsOf, present]
    change Entries.ofPairs <$> document.externalMappings.mapM externalEntry = _
    rw [entries]
    exact congrArg Except.ok (Entries.ofPairs_eq apart)

theorem metadata_read (metadata : List (Value × Value)) :
    metadataOf (.map metadata) = .ok metadata := by
  cases metadata <;> rfl

/-- A key that is there stays there. -/
theorem contains_putNew {key other : Value} (value : Value) {entries : List (Value × Value)}
    (held : (entries.map (·.1)).contains key = true) :
    ((Entries.putNew other value entries).map (·.1)).contains key = true := by
  rw [Entries.keys_putNew]
  split
  · exact held
  · rw [List.contains_eq_any_beq, List.any_append, ← List.contains_eq_any_beq, held, Bool.true_or]

/-- A key that is put is there. -/
theorem contains_putNew_self (key : String) (value : Value) (entries : List (Value × Value)) :
    ((Entries.putNew (.text key) value entries).map (·.1)).contains (Value.text key) = true := by
  rw [Entries.keys_putNew]
  split
  · assumption
  · simp [List.contains_eq_any_beq, Value.text_beq]

/-- An entry whose key is there changes nothing. -/
theorem putNew_held {key : Value} (value : Value) {entries : List (Value × Value)}
    (held : (entries.map (·.1)).contains key = true) :
    Entries.putNew key value entries = entries := by
  rw [Entries.putNew, Entries.lookup_isSome, if_pos held]

/-- Complete metadata stay as they are. -/
theorem completed_completed (metadata : List (Value × Value)) :
    completed (completed metadata) = completed metadata := by
  have tool : ((completed metadata).map (·.1)).contains (.text "tool") = true :=
    contains_putNew _ (contains_putNew _ (contains_putNew_self "tool" _ _))
  have version : ((completed metadata).map (·.1)).contains (.text "version") = true :=
    contains_putNew _ (contains_putNew_self "version" _ _)
  have selfContained : ((completed metadata).map (·.1)).contains (.text "selfContained") = true :=
    contains_putNew_self "selfContained" _ _
  rw [completed, putNew_held _ tool, putNew_held _ version, putNew_held _ selfContained]

/-- A document whose metadata are complete is made of its parts. -/
theorem make_parts (complete : completed document.metadata = document.metadata) :
    make document.records document.externalRefs document.metadata = document := by
  rw [make, complete]

section Payloads

variable {records : List Record} {external : List (Key × Key)}
  (areRecords : document.mappings.mapM Record.ofMapping = .ok records)
  (areExternal : externalsOf (.list document.externalMappings) = .ok external)

include areRecords areExternal

/-- What is read from the JSON value of a document is what is read from its parts. -/
theorem ofJsonLdPayload_parts :
    ofJsonLdPayload document.jsonLdPayload = .ok (make records external document.metadata) := by
  have isGraph : document.jsonLdPayload.field? "@graph" = some (.list document.mappings) :=
    Value.field?_underTexts _ _
  have isMetadata : document.jsonLdPayload.field? "metadata" = some (.map document.metadata) :=
    Value.field?_underTexts _ _
  have isExternal : document.jsonLdPayload.field? "externalReferences" =
      some (.list document.externalMappings) := Value.field?_underTexts _ _
  have parts : ∃ metadata, jsonLdParts document.jsonLdPayload =
        .ok (.list document.mappings, .list document.externalMappings, metadata) ∧
      metadataOf metadata = .ok document.metadata := by
    refine ⟨_, ?_, metadata_read document.metadata⟩
    unfold jsonLdParts
    simp only [isGraph, isMetadata, isExternal, Option.getD_some]
    cases document.metadata <;> rfl
  obtain ⟨metadata, isParts, isRead⟩ := parts
  rw [ofJsonLdPayload, isParts]
  change (do
    let records ← document.mappings.mapM Record.ofMapping
    let external ← externalsOf (.list document.externalMappings)
    return make records external (← metadataOf metadata) : Except Failure Document) = _
  rw [areRecords, areExternal, isRead]
  rfl

/-- What is read from the YAML value of a document is what is read from its parts. -/
theorem ofYamlPayload_parts :
    ofYamlPayload document.yamlPayload = .ok (make records external document.metadata) := by
  have isElements : document.yamlPayload.field? "elements" = some (.list document.mappings) :=
    Value.field?_underTexts _ _
  have isMetadata : document.yamlPayload.field? "metadata" = some (.map document.metadata) :=
    Value.field?_underTexts _ _
  have isExternal : document.yamlPayload.field? "externalReferences" =
      some (.list document.externalMappings) := Value.field?_underTexts _ _
  have elements : yamlElements document.yamlPayload = .ok document.mappings := by
    unfold yamlElements
    rw [isElements]
    rfl
  rw [ofYamlPayload, elements, isExternal, isMetadata]
  change (do
    let records ← document.mappings.mapM Record.ofMapping
    let external ← externalsOf (.list document.externalMappings)
    return make records external (← metadataOf (.map document.metadata)) :
      Except Failure Document) = _
  rw [areRecords, areExternal, metadata_read]
  rfl

end Payloads

end Document

/-! ## Texts -/

/-- The value is read back from the JSON text that it is written as. -/
def Json.Carries (value : Value) : Prop :=
  ∃ text, Json.render false value = .ok text ∧ Json.read (text ++ "\n") = .ok value

/-- JSON carries what it has a form of its own for. -/
theorem Json.carries_of_isPlain {value : Value} (plain : Json.isPlain value = true) :
    Json.Carries value := by
  obtain ⟨text, isText, -, isRead⟩ := Json.read_render false plain
  exact ⟨text, isText, isRead⟩

/-- The value is read back from the YAML text that it is written as. -/
def Yaml.Carries (value : Value) : Prop :=
  value.isWritable = true ∧ Yaml.read (Yaml.render value) = .ok value

namespace Format

variable {document : Document}

/-- What JSON carries is what is read. -/
theorem jsonLd_carried (carried : Json.Carries document.jsonLdPayload) {again : Document}
    (isAgain : Document.ofJsonLdPayload document.jsonLdPayload = .ok again) :
    ∃ octets, jsonLd.write document = .ok octets ∧ jsonLd.read octets = .ok again := by
  obtain ⟨text, isText, isRead⟩ := carried
  refine ⟨(text ++ "\n").toUTF8, ?_, ?_⟩
  · rw [write, Document.toJsonLd, isText]
    rfl
  · rw [read, Document.ofJsonLd, Document.readJson, Text.Utf8.fromUTF8?_toUTF8]
    simp only [isRead]
    exact isAgain

/-- What YAML carries is what is read. -/
theorem yaml_carried (carried : Yaml.Carries document.yamlPayload) {again : Document}
    (isAgain : Document.ofYamlPayload document.yamlPayload = .ok again) :
    ∃ octets, yaml.write document = .ok octets ∧ yaml.read octets = .ok again := by
  obtain ⟨isWritable, isRead⟩ := carried
  refine ⟨(Yaml.render document.yamlPayload).toUTF8, ?_, ?_⟩
  · rw [write, Document.toYaml, if_pos isWritable]
    rfl
  · rw [read, Document.ofYaml, Text.Utf8.fromUTF8?_toUTF8]
    simp only [isRead]
    exact isAgain

theorem jsonLd_read_write (mappable : document.Mappable)
    (complete : Document.completed document.metadata = document.metadata)
    (carried : Json.Carries document.jsonLdPayload) :
    ∃ octets, jsonLd.write document = .ok octets ∧ jsonLd.read octets = .ok document := by
  have isRead := Document.ofJsonLdPayload_parts (Document.mappings_read mappable)
    (Document.externalMappings_read mappable.external)
  rw [Document.make_parts complete] at isRead
  exact jsonLd_carried carried isRead

def numbered : Document :=
  .make
    [{ id := .text "p", kind := "Package", name := .text "P", properties := [(.text "x", .int 3)] }]
    [(.text "r", .text "R")] []

end Format

end Sysml
