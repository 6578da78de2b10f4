import Sysml.Proofs.Format.Packed
import Sysml.Proofs.Format.Received

/-!
# The graph of a document in every format

A format gives the graph of a document back, which is the ids of its records, their kinds and where
they lead (`Format.read_write_graph`). A mapping has the fields of a record and its properties under
keys of one kind, so no property may stand under the key of a field of the graph. A tree has a record
inside of its owner, so every owner has to be a record, and none may be inside of itself.
-/

set_option autoImplicit false

namespace Sysml

/-! ## Keys that are texts -/

namespace Value

/-- A value is the same as a text where it is that text, apart from a label. -/
theorem beq_of_bare : ∀ (value : Value) {s : String}, value.bare = .text s →
    ∀ other : Value, (value == other) = (Value.text s == other)
  | .shared label held, s, isText => fun other => by
    change same (.shared label held) other = _
    rw [same]
    exact beq_of_bare held isText other
  | .text _, _, isText => fun _ => by cases isText; rfl

theorem text_beq_iff (s : String) (value : Value) :
    (Value.text s == value) = true ↔ value.bare = .text s := by
  change same (.text s) value = true ↔ _
  simp only [same]
  cases value.bare with
  | text t =>
    change (s == t) = true ↔ _
    rw [beq_iff_eq, text.injEq, eq_comm]
  | _ => simp [sameScalar, number?, isNaN]

/-- What stands under a text stays where something is put under another key. -/
theorem lookup_put_text {name : String} {key : Value} (apart : (Value.text name == key) = false)
    (value : Value) (entries : List (Value × Value)) :
    (Entries.put key value entries).lookup (.text name) = entries.lookup (.text name) := by
  induction entries with
  | nil => rw [Entries.put, List.lookup_cons, apart]
  | cons entry rest ih =>
    obtain ⟨held, old⟩ := entry
    rw [Entries.put, List.lookup_cons]
    cases isHeld : Value.text name == held with
    | true =>
      have other : (held == key) = false :=
        (beq_of_bare held ((text_beq_iff name held).mp isHeld) key).trans apart
      rw [other, if_neg Bool.false_ne_true, List.lookup_cons, isHeld]
    | false =>
      split
      · rw [List.lookup_cons, isHeld]
      · rw [List.lookup_cons, isHeld, ih]

theorem lookup_foldl_put_text {name : String} {pairs : List (Value × Value)}
    (absent : pairs.lookup (.text name) = none) (entries : List (Value × Value)) :
    (pairs.foldl (fun entries pair => Entries.put pair.1 pair.2 entries) entries).lookup
      (.text name) = entries.lookup (.text name) := by
  induction pairs generalizing entries with
  | nil => rfl
  | cons pair rest ih =>
    rw [List.lookup_cons] at absent
    cases isKey : Value.text name == pair.1 with
    | true =>
      rw [isKey] at absent
      cases absent
    | false =>
      rw [isKey] at absent
      rw [List.foldl_cons, ih absent, lookup_put_text isKey]

end Value

/-! ## Mappings -/

def Record.graphKeys : List String :=
  ["@id", "@type", "owner", "source", "target"]

/-- No property is under a key that tells what the record is in the graph. -/
def Record.IsUnmixed (record : Record) : Prop :=
  ∀ key ∈ graphKeys, record.property? key = none

/-- The source and the target say something, if there are any. -/
structure Record.IsFull (record : Record) : Prop where
  source : record.source ≠ some (.text "")
  target : record.target ≠ some (.text "")

theorem Key.isSpelled_of_full {id? : Option Key} (texts : ∀ id ∈ id?, ∃ name, id = .text name)
    (full : id? ≠ some (.text "")) : Key.IsSpelled id? := by
  intro id isId
  obtain ⟨name, rfl⟩ := texts id isId
  refine ⟨name, ?_, rfl⟩
  rintro rfl
  exact full isId

namespace Record

variable {record : Record}

/-- The entries of a mapping: the fields, then the properties, then further fields. -/
theorem toMapping_foldl (record : Record) (owned : List Key) :
    record.toMapping owned = .map
      ((Value.underTexts (record.trailingFields owned)).foldl
        (fun entries pair => Entries.put pair.1 pair.2 entries)
        (record.properties.foldl (fun entries pair => Entries.put pair.1 pair.2 entries)
          (Value.underTexts record.leadingFields))) := by
  have distinct : (record.leadingFields.map (·.1)).Nodup :=
    (leadingFields_keys record).nodup (by decide)
  have apart := Value.underTexts_apart distinct
  rw [leadingFields, trailingFields] at *
  simp only [List.append_assoc, Value.underTexts_append] at apart ⊢
  have whole := Entries.foldl_put apart
  simp only [List.foldl_append] at whole ⊢
  rw [← whole]
  simp only [toMapping, Value.putField_eq]
  rfl

/-- The mapping of a record tells what it is in the graph, if no property does. -/
theorem toMapping_points (unmixed : record.IsUnmixed) (owned : List Key) :
    ∃ entries, record.toMapping owned = .map entries ∧ record.Points entries := by
  refine ⟨_, toMapping_foldl record owned, ?_⟩
  have field : ∀ key ∈ graphKeys,
      ((Value.underTexts (record.trailingFields owned)).foldl
        (fun entries pair => Entries.put pair.1 pair.2 entries)
        (record.properties.foldl (fun entries pair => Entries.put pair.1 pair.2 entries)
          (Value.underTexts record.leadingFields))).lookup (.text key) =
      record.leadingFields.lookup key := by
    intro key isKey
    have notLater : (Value.underTexts (record.trailingFields owned)).lookup (.text key) = none := by
      have others : ∀ key ∈ graphKeys, key ≠ "provenance" ∧ key ≠ "ownedMember" := by decide
      obtain ⟨first, second⟩ := others key isKey
      simp [Value.lookup_underTexts, trailingFields, List.lookup_append, Value.lookup_under?, first,
        second]
    rw [Value.lookup_foldl_put_text notLater, Value.lookup_foldl_put_text (unmixed key isKey),
      Value.lookup_underTexts]
  constructor <;>
    · rw [field _ (by decide)]
      simp [leadingFields, List.lookup_append, Value.lookup_under?, List.lookup_cons]

/-- A record is read with the same place in the graph from entries that tell it. -/
theorem ofMapping_vertex {entries : List (Value × Value)} (points : record.Points entries)
    (received : record.Received) (full : record.IsFull) :
    ∃ found, ofMapping (.map entries) = .ok found ∧ found.vertex = record.vertex := by
  obtain ⟨id, someId, isId⟩ := received.id
  have someKind : (Value.text record.kind).isAbsent = false := by
    simpa [Value.isAbsent] using received.kind
  have someId : (Value.text id).isAbsent = false := by simpa [Value.isAbsent] using someId
  have source := referenced_reference (Key.isSpelled_of_full received.source full.source)
  have target := referenced_reference (Key.isSpelled_of_full received.target full.target)
  rw [ofMapping]
  simp only [Value.entries?, Value.opened, points.id, points.kind, points.owner, points.source,
    points.target, isId, Key.text, Option.getD_some, someId, someKind, Bool.false_eq_true,
    ↓reduceIte, referenced_reference received.owner, source, target]
  refine ⟨_, rfl, ?_⟩
  rw [vertex, vertex, isId]
  rfl

end Record

namespace Document

variable {document : Document}

/-- No record leads to, and no name stands for, an id without a character. -/
structure IsFull (document : Document) : Prop where
  records : ∀ record ∈ document.records, record.IsFull
  external : ∀ reference ∈ document.externalRefs, reference.1 ≠ .text ""

theorem mapM_found {α β ε : Type} {step : α → Except ε β} {relation : α → β → Prop}
    {items : List α} (found : ∀ item ∈ items, ∃ result, step item = .ok result ∧
      relation item result) :
    ∃ results, items.mapM step = .ok results ∧ List.Forall₂ relation items results := by
  induction items with
  | nil => exact ⟨[], rfl, .nil⟩
  | cons item rest ih =>
    obtain ⟨first, others⟩ := List.forall_mem_cons.mp found
    obtain ⟨result, isResult, related⟩ := first
    obtain ⟨results, areResults, allRelated⟩ := ih others
    refine ⟨result :: results, ?_, .cons related allRelated⟩
    rw [List.mapM_cons, isResult, areResults]
    rfl

/-- The records of the mappings have the same places in the graph. -/
theorem mappings_graph (received : document.Received) (full : document.IsFull)
    (unmixed : ∀ record ∈ document.records, record.IsUnmixed) :
    ∃ records, document.mappings.mapM Record.ofMapping = .ok records ∧
      records.map Record.vertex = document.graph := by
  have found : ∀ record ∈ document.records, ∃ result,
      Record.ofMapping (record.toMapping
        (if record.id.isAbsent then [] else document.ownedBy record.id)) = .ok result ∧
      record.vertex = result.vertex := by
    intro record listed
    obtain ⟨entries, isMapping, points⟩ := Record.toMapping_points (unmixed record listed) _
    obtain ⟨result, isResult, same⟩ := Record.ofMapping_vertex points
      (received.records record listed) (full.records record listed)
    exact ⟨result, by rw [isMapping, isResult], same.symm⟩
  obtain ⟨records, areRecords, related⟩ := mapM_found found
  refine ⟨records, ?_, ?_⟩
  · rw [mappings, List.mapM_map]
    exact areRecords
  · exact (related_map related fun _ _ _ _ same => same).symm

/-- The names that stand for ids are read as they are written. -/
theorem externals_read (received : document.Received) (full : document.IsFull) :
    externalsOf (.list document.externalMappings) = .ok document.externalRefs := by
  obtain ⟨names, areNames, distinct⟩ := received.external
  apply externalMappings_read
  refine ⟨names, areNames, distinct, ?_⟩
  rintro name listed isEmpty
  apply full.external (.text name.1, .text name.2)
  · rw [areNames]
    exact List.mem_map_of_mem listed
  · rw [isEmpty]

/-! ## Trees -/

/-- A document that a tree can stand for: every owner is a record, and none is inside of itself. -/
structure IsDrawable (document : Document) : Prop where
  records : ∀ record ∈ document.records, record.Drawable
  owned : ∀ record ∈ document.records, ∀ owner ∈ record.owner, owner ∈ document.ids
  acyclic : ∀ record ∈ document.records, ¬ Relation.TransGen document.HeldBy record record
  external : ∀ reference ∈ document.externalRefs,
    Record.IsClear reference.1.value ∧ Record.IsClear reference.2.value
  metadata : ∃ own : List (String × Value), document.metadata = Value.underTexts own ∧
    (own.map (·.1)).Nodup ∧
      ∀ entry ∈ own, (Xml.isName entry.1 = true ∧ entry.1 ≠ "xmlns") ∧ Record.IsClear entry.2

/-- Where no id is repeated, the texts are all different. -/
theorem nodup_of_repeatedIds {ids : List Key} (texts : ∀ id ∈ ids, ∃ name, id = .text name)
    {seen : List Key} (unique : repeatedIds seen ids = []) :
    ids.Nodup ∧ ∀ id ∈ ids, seen.contains id = false := by
  induction ids generalizing seen with
  | nil => exact ⟨.nil, List.forall_mem_nil _⟩
  | cons id rest ih =>
    obtain ⟨isText, others⟩ := List.forall_mem_cons.mp texts
    rw [repeatedIds] at unique
    cases isSeen : seen.contains id with
    | true =>
      rw [isSeen] at unique
      cases unique
    | false =>
      rw [isSeen, if_neg Bool.false_ne_true] at unique
      obtain ⟨nodup, fresh⟩ := ih others unique
      have later : ∀ other ∈ rest, id ≠ other ∧ seen.contains other = false := by
        intro other listed
        have absent := fresh other listed
        rw [List.contains_cons, Bool.or_eq_false_iff] at absent
        refine ⟨?_, absent.2⟩
        rintro rfl
        simp at absent
      refine ⟨List.nodup_cons.mpr ⟨fun listed => (later id listed).1 rfl, nodup⟩, ?_⟩
      exact List.forall_mem_cons.mpr ⟨isSeen, fun other listed => (later other listed).2⟩

theorem nodup_ids (received : document.Received) (valid : document.problems = []) :
    document.ids.Nodup := by
  have unique := (List.append_eq_nil_iff.mp valid).2
  rw [List.map_eq_nil_iff] at unique
  refine (nodup_of_repeatedIds ?_ unique).1
  intro id isId
  obtain ⟨record, listed, rfl⟩ := List.mem_map.mp isId
  obtain ⟨name, -, isName⟩ := (received.records record listed).id
  exact ⟨name, isName⟩

/-- A document that is received and valid is told by its tree, if a tree can stand for it. -/
theorem IsDrawable.markable (drawable : document.IsDrawable) (received : document.Received)
    (valid : document.problems = []) (full : document.IsFull) : document.Markable where
  records := by
    intro record listed
    have isReceived := received.records record listed
    have isFull := full.records record listed
    exact
      { toDrawable := drawable.records record listed
        id := isReceived.id
        source := Key.isSpelled_of_full isReceived.source isFull.source
        target := Key.isSpelled_of_full isReceived.target isFull.target }
  nested :=
    { id := by
        intro record listed
        obtain ⟨name, -, isName⟩ := (received.records record listed).id
        exact ⟨name, isName⟩
      ids := nodup_ids received valid
      owned := by
        intro record listed
        cases isOwner : record.owner with
        | none => exact .inl rfl
        | some id =>
          obtain ⟨owner, isRecord, isId⟩ :=
            List.mem_map.mp (drawable.owned record listed id isOwner)
          exact .inr ⟨owner, isRecord, by rw [isOwner, isId]⟩
      acyclic := drawable.acyclic }
  external := by
    obtain ⟨names, areNames, distinct⟩ := received.external
    refine ⟨names, areNames, distinct, ?_⟩
    intro name listed
    have isReference : (Key.text name.1, Key.text name.2) ∈ document.externalRefs := by
      rw [areNames]
      exact List.mem_map_of_mem listed
    obtain ⟨clearId, clearName⟩ := drawable.external _ isReference
    refine ⟨?_, clearId, clearName⟩
    intro isEmpty
    exact full.external _ isReference (congrArg Key.text isEmpty)
  metadata := drawable.metadata

/-! ## Archives -/

/-- The manifest of the document's archive is read as it is written. -/
def IsAnnounced (document : Document) : Prop :=
  ∀ text, Json.render true document.manifest = .ok text → Json.read text = .ok document.manifest

/-- What is read from the archive of a document is what is read from its XMI. -/
theorem ofKpar_toKpar (packed : document.IsPacked) (announced : document.IsAnnounced)
    {octets : List UInt8} (written : document.toKpar = .ok octets) :
    ∃ model, document.toXmi = .ok model ∧ ofKpar ⟨octets.toArray⟩ = ofXmi model.toUTF8 := by
  obtain ⟨manifest, isManifest, written⟩ := result_bind_ok written
  obtain ⟨summary, isSummary, written⟩ := result_bind_ok written
  obtain ⟨model, isModel, written⟩ := result_bind_ok written
  cases written
  refine ⟨model, isModel, ?_⟩
  apply ofKpar_entries (packed manifest summary model isManifest isSummary isModel)
  · exact ⟨_, announced manifest isManifest, Value.lookup_underTexts "model" _⟩
  · exact Text.Utf8.toList_data _

end Document

/-! ## Formats -/

namespace Format

/-- What a format needs of a document to give its graph back. -/
def Keeps (format : Format) (document : Document) : Prop :=
  match format with
  | .xmi => document.IsDrawable
  | .yaml =>
      (∀ record ∈ document.records, record.IsUnmixed) ∧ Yaml.Carries document.yamlPayload
  | .jsonLd =>
      (∀ record ∈ document.records, record.IsUnmixed) ∧ Json.Carries document.jsonLdPayload
  | .kpar => document.IsDrawable ∧ document.IsPacked ∧ document.IsAnnounced

/-- A valid document that a reader gives, and that a format writes, is read from it with the same
graph, if no id in it is empty and the format has a place for each part of it. -/
theorem read_write_graph {origin format : Format} {source octets : ByteArray}
    {document : Document} (isRead : origin.read source = .ok document)
    (valid : document.problems = []) (written : format.write document = .ok octets)
    (full : document.IsFull) (keeps : format.Keeps document) :
    ∃ again, format.read octets = .ok again ∧ again.graph.Perm document.graph := by
  have received := read_received isRead
  cases format with
  | xmi =>
    have markable := Document.IsDrawable.markable keeps received valid full
    obtain ⟨text, isText, rfl⟩ := result_map_ok written
    exact Document.ofXmi_graph markable isText
  | yaml =>
    obtain ⟨unmixed, carried⟩ := keeps
    obtain ⟨records, areRecords, same⟩ := Document.mappings_graph received full unmixed
    have isAgain := Document.ofYamlPayload_parts areRecords (Document.externals_read received full)
    obtain ⟨others, isWritten, isAgain⟩ := yaml_carried carried isAgain
    obtain rfl := Except.ok.inj (written.symm.trans isWritten)
    exact ⟨_, isAgain, .of_eq same⟩
  | jsonLd =>
    obtain ⟨unmixed, carried⟩ := keeps
    obtain ⟨records, areRecords, same⟩ := Document.mappings_graph received full unmixed
    have isAgain := Document.ofJsonLdPayload_parts areRecords
      (Document.externals_read received full)
    obtain ⟨others, isWritten, isAgain⟩ := jsonLd_carried carried isAgain
    obtain rfl := Except.ok.inj (written.symm.trans isWritten)
    exact ⟨_, isAgain, .of_eq same⟩
  | kpar =>
    obtain ⟨drawable, packed, announced⟩ := keeps
    have markable := drawable.markable received valid full
    obtain ⟨archive, isArchive, rfl⟩ := result_map_ok written
    obtain ⟨model, isModel, same⟩ := Document.ofKpar_toKpar packed announced isArchive
    obtain ⟨again, isAgain, sameGraph⟩ := Document.ofXmi_graph markable isModel
    exact ⟨again, same.trans isAgain, sameGraph⟩

/-- A package with an attribute that has the name of a field of mappings. -/
def mixedText : String :=
  "<Package xmlns:xmi=\"http://www.omg.org/spec/XMI/20131001\" xmi:id=\"a\" owner=\"b\"/>"

/-- What is read from the package: the attribute is a property. -/
def mixed : Document :=
  .make [{ id := "a", kind := "Package", properties := [(.text "owner", .text "b")] }] [] []

theorem mixedText_read :
    ∃ document, xmi.read mixedText.toUTF8 = .ok document ∧ document.problems = [] ∧
      document.jsonLdPayload = mixed.jsonLdPayload ∧
        ∀ record ∈ document.records, record.owner = none := by
  have checked : ((xmi.read mixedText.toUTF8).toOption.any fun document =>
      document.problems.isEmpty && Value.identical document.jsonLdPayload mixed.jsonLdPayload &&
        document.records.all fun record => record.owner.isNone) = true := by
    decide +kernel
  cases isRead : xmi.read mixedText.toUTF8 with
  | error failure =>
    rw [isRead] at checked
    cases checked
  | ok document =>
    rw [isRead] at checked
    simp only [Except.toOption, Option.any_some, Bool.and_eq_true, List.all_eq_true,
      Option.isNone_iff_eq_none] at checked
    obtain ⟨⟨valid, same⟩, owners⟩ := checked
    exact ⟨document, rfl, List.isEmpty_iff.mp valid, Value.eq_of_identical _ _ same, owners⟩

theorem mixed_owned :
    ∃ again, Document.ofJsonLdPayload mixed.jsonLdPayload = .ok again ∧
      ∃ record ∈ again.records, record.owner ≠ none := by
  have checked : ((Document.ofJsonLdPayload mixed.jsonLdPayload).toOption.any fun again =>
      again.records.any fun record => record.owner.isSome) = true := by
    decide +kernel
  cases isRead : Document.ofJsonLdPayload mixed.jsonLdPayload with
  | error failure =>
    rw [isRead] at checked
    cases checked
  | ok again =>
    rw [isRead] at checked
    simp only [Except.toOption, Option.any_some, List.any_eq_true] at checked
    obtain ⟨record, listed, owned⟩ := checked
    exact ⟨again, rfl, record, listed, Option.isSome_iff_ne_none.mp owned⟩

/-- In JSON-LD the property is the owner. -/
theorem read_write_graph_mixed :
    ∃ document octets again, xmi.read mixedText.toUTF8 = .ok document ∧ document.problems = [] ∧
      jsonLd.write document = .ok octets ∧ jsonLd.read octets = .ok again ∧
        ¬ ∀ vertex, vertex ∈ again.graph ↔ vertex ∈ document.graph := by
  obtain ⟨document, isRead, valid, same, unowned⟩ := mixedText_read
  obtain ⟨again, isAgain, record, listed, owned⟩ := mixed_owned
  have carried : Json.Carries document.jsonLdPayload := by
    rw [same]
    exact Json.carries_of_isPlain (by decide +kernel)
  rw [← same] at isAgain
  obtain ⟨octets, isWritten, isReadAgain⟩ := jsonLd_carried carried isAgain
  refine ⟨document, octets, again, isRead, valid, isWritten, isReadAgain, ?_⟩
  intro alike
  obtain ⟨before, isBefore, sameVertex⟩ :=
    List.mem_map.mp ((alike record.vertex).mp (List.mem_map_of_mem listed))
  have sameOwner : before.owner = record.owner := congrArg Vertex.owner sameVertex
  rw [unowned before isBefore] at sameOwner
  exact owned sameOwner.symm

theorem heldPart_mappable : heldPart.Mappable where
  records := by
    intro record listed
    simp only [heldPart, Document.make, List.mem_cons, List.not_mem_nil, or_false] at listed
    rcases listed with rfl | rfl | rfl
    · exact
        { id := ⟨"x", by decide, rfl⟩, kind := by decide
          owner := by rintro _ ⟨⟩; exact ⟨"p", by decide, rfl⟩
          source := by rintro _ ⟨⟩, target := by rintro _ ⟨⟩, shortName := .inl rfl, doc := .inl rfl
          properties := ⟨[("direction", .text "in"), ("big", .bool true)], rfl, by decide,
            by decide⟩ }
    · exact
        { id := ⟨"p", by decide, rfl⟩, kind := by decide, owner := by rintro _ ⟨⟩, source := by rintro _ ⟨⟩
          target := by rintro _ ⟨⟩, shortName := .inl rfl, doc := .inr (by decide +kernel)
          properties := ⟨[], rfl, by decide, by rintro _ ⟨⟩⟩ }
    · exact
        { id := ⟨"t", by decide, rfl⟩, kind := by decide
          owner := by rintro _ ⟨⟩; exact ⟨"x", by decide, rfl⟩
          source := by rintro _ ⟨⟩; exact ⟨"x", by decide, rfl⟩
          target := by rintro _ ⟨⟩; exact ⟨"e", by decide, rfl⟩
          shortName := .inl rfl, doc := .inl rfl
          properties := ⟨[], rfl, by decide, by rintro _ ⟨⟩⟩ }
  external := ⟨[("e", "Lib::T")], rfl, by decide, by decide⟩

theorem heldPart_full : heldPart.IsFull where
  records := by
    intro record listed
    simp only [heldPart, Document.make, List.mem_cons, List.not_mem_nil, or_false] at listed
    rcases listed with rfl | rfl | rfl <;> constructor <;> simp [Key.text]
  external := by simp [heldPart, Document.make, Key.text]

theorem heldPart_drawable : heldPart.IsDrawable where
  records := fun record listed => (heldPart_taggable.records record listed).markable.toDrawable
  owned := by
    intro record listed owner isOwner
    rcases heldPart_nested.owned record listed with absent | ⟨holder, isHolder, isOwned⟩
    · rw [absent] at isOwner
      cases isOwner
    · rw [isOwned] at isOwner
      cases isOwner
      exact List.mem_map_of_mem isHolder
  acyclic := heldPart_nested.acyclic
  external := by
    unfold Record.IsClear
    decide +kernel
  metadata := heldPart_taggable.markable.metadata

theorem read_write_graph_held :
    ∃ source octets, jsonLd.read source = .ok heldPart ∧ heldPart.problems = [] ∧
      xmi.write heldPart = .ok octets ∧ heldPart.IsFull ∧ xmi.Keeps heldPart ∧
        ∃ again, xmi.read octets = .ok again ∧ again.graph.Perm heldPart.graph := by
  have complete : Document.completed heldPart.metadata = heldPart.metadata :=
    Document.completed_completed _
  have carried : Json.Carries heldPart.jsonLdPayload := Json.carries_of_isPlain (by decide +kernel)
  obtain ⟨source, -, isRead⟩ := jsonLd_read_write heldPart_mappable complete carried
  obtain ⟨text, -, isText, -, -⟩ := Document.xmi_read_write heldPart_taggable complete
  have isWritten : xmi.write heldPart = .ok text.toUTF8 := by
    rw [write, isText]
    rfl
  have valid : heldPart.problems = [] := by decide +kernel
  exact ⟨source, text.toUTF8, isRead, valid, isWritten, heldPart_full, heldPart_drawable,
    read_write_graph isRead valid isWritten heldPart_full heldPart_drawable⟩

end Format

end Sysml
