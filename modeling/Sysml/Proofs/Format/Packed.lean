import Sysml.Format
import Sysml.Proofs.Archive
import Sysml.Proofs.Format.Interchanged
import Sysml.Proofs.Format.Mapped

/-!
# Documents in archives

The archive of a document holds its XMI under a name that the manifest tells, so what is read from
the archive is what is read from the XMI. Main statement: both give the records of a document back
in the order of the tree, with the same external references and metadata (`tagged_read_write`).
-/

set_option autoImplicit false

namespace Sysml

namespace Document

variable {document : Document}

def kparEntries (manifest summary model : String) : List ArchiveEntry :=
  [⟨manifestEntry, manifest.toUTF8.toList⟩, ⟨summaryEntry, summary.toUTF8.toList⟩,
    ⟨modelEntry, model.toUTF8.toList⟩]

theorem metadata?_isPlain (taggable : document.Taggable) (key : String) {other : Value}
    (plain : Json.isPlain other = true) :
    Json.isPlain ((document.metadata? key).getD other) = true := by
  obtain ⟨own, isOwn, -, words⟩ := taggable.metadata
  rw [metadata?, isOwn, Value.lookup_underTexts]
  cases found : own.lookup key with
  | none => exact plain
  | some value =>
    obtain ⟨held, -, listed⟩ := Entries.exists_mem_of_lookup found
    obtain ⟨-, word, -⟩ := words _ listed
    rcases word with ⟨b, rfl⟩ | ⟨s, -, -, rfl⟩ <;> rfl

theorem manifest_isPlain (taggable : document.Taggable) :
    Json.isPlain document.manifest = true := by
  have name : Json.isPlain ((document.metadata? "name").getD (.text "model")) = true :=
    metadata?_isPlain taggable "name" rfl
  have version : Json.isPlain ((document.metadata? "version").getD (.text "")) = true :=
    metadata?_isPlain taggable "version" rfl
  simp [manifest, Value.object, Json.isPlain, Json.areKept, Value.text?, name, version]

theorem summary_isPlain (taggable : document.Taggable)
    (counted : Decimal.hasText document.records.length = true) :
    Json.isPlain document.summary = true := by
  have tool : Json.isPlain ((document.metadata? "tool").getD .null) = true :=
    metadata?_isPlain taggable "tool" rfl
  simp [summary, Value.object, Json.isPlain, Json.areKept, Value.text?, tool, counted]

/-- The document's archive gives its entries back. -/
def IsPacked (document : Document) : Prop :=
  ∀ manifest summary model, Json.render true document.manifest = .ok manifest →
    Json.render true document.summary = .ok summary → document.toXmi = .ok model →
      Archive.Carries (kparEntries manifest summary model)

theorem names_kparEntries (manifest summary model : String) :
    (kparEntries manifest summary model).map (·.name) =
      [manifestEntry, summaryEntry, modelEntry] := rfl

theorem length_entryNames : (Archive.nameOctets manifestEntry).length = 13 ∧
    (Archive.nameOctets summaryEntry).length = 10 ∧
    (Archive.nameOctets modelEntry).length = 9 := by
  decide +kernel

theorem kparEntries_plain (manifest summary model : String) :
    (Archive.slice (Archive.write (kparEntries manifest summary model))
      (Archive.endPlace (kparEntries manifest summary model) - 20) 20).take 4 ≠
        [0x50, 0x4b, 6, 7] := by
  obtain ⟨-, -, name⟩ := length_entryNames
  obtain ⟨before, place, directory⟩ : ∃ before place,
      Archive.directory 0 (kparEntries manifest summary model) =
        before ++ Archive.centralRecord place ⟨modelEntry, model.toUTF8.toList⟩ := by
    simp only [kparEntries, Archive.directory, List.append_nil]
    rw [← List.append_assoc]
    exact ⟨_, _, rfl⟩
  -- the last twenty bytes of the directory begin inside of the header of the model
  have start : Archive.endPlace (kparEntries manifest summary model) - 20 =
      (((kparEntries manifest summary model).flatMap Archive.localRecord) ++ before).length + 35 := by
    rw [Archive.endPlace, directory, List.length_append, List.length_append,
      Archive.length_centralRecord, name]
    omega
  rw [start, Archive.slice, ← List.drop_drop, Archive.write, directory, List.append_assoc,
    List.append_assoc, ← List.append_assoc _ before, List.drop_left]
  simp only [Archive.centralRecord, Archive.facts, Archive.littleEndian, List.cons_append,
    List.nil_append, List.drop_succ_cons, List.drop_zero, List.take_succ_cons, List.take_zero]
  decide

/-- An archive that is no longer than an archive may be gives its entries back. -/
theorem kparEntries_carried {manifest summary model : String}
    (short : manifest.toUTF8.toList.length + summary.toUTF8.toList.length +
      model.toUTF8.toList.length < 4000000000) :
    Archive.Carries (kparEntries manifest summary model) := by
  obtain ⟨first, second, third⟩ := length_entryNames
  apply Archive.carries
  · constructor
    · simp only [kparEntries, List.forall_mem_cons]
      refine ⟨?_, ?_, ?_, List.forall_mem_nil _⟩
      all_goals
        constructor
        · simp only [first, second, third]
          decide
        · change List.length _ < 4294967296
          simp only
          omega
    · simp only [kparEntries, List.flatMap_cons, List.flatMap_nil, List.length_append,
        Archive.length_localRecord, first, second, third, List.length_nil]
      change _ < 4294967296
      omega
    · simp only [kparEntries, Archive.directory, List.length_append, Archive.length_centralRecord,
        first, second, third, List.length_nil]
      decide
    · exact kparEntries_plain manifest summary model
  · rw [names_kparEntries]
    decide
  · simp only [kparEntries, List.forall_mem_cons]
    exact ⟨by decide, by decide, by decide, List.forall_mem_nil _⟩

/-- What is read from an archive with a manifest is what is read from the model that it names. -/
theorem ofKpar_entries {manifest summary model : String}
    (carried : Archive.Carries (kparEntries manifest summary model))
    (named : ∃ entries, Json.read manifest = .ok (.map entries) ∧
      entries.lookup (.text "model") = some (.text modelEntry)) {octets : ByteArray}
    (written : octets.toList = Archive.write (kparEntries manifest summary model)) :
    ofKpar octets = ofXmi model.toUTF8 := by
  obtain ⟨archive, isOpened, names, contents⟩ := carried
  obtain ⟨entries, isRead, isNamed⟩ := named
  rw [names_kparEntries] at names
  have content : ∀ entry ∈ kparEntries manifest summary model,
      entryContent archive entry.name = .ok entry.octets := by
    intro entry listed
    rw [entryContent, contents entry listed]
  simp only [kparEntries, List.forall_mem_cons] at content
  obtain ⟨manifestContent, -, modelContent, -⟩ := content
  have isModel : modelNamed archive = .ok (.text modelEntry) := by
    have listed : archive.names.contains manifestEntry = true := by
      rw [names]
      decide
    have held : (Value.map entries).entries? = some entries := rfl
    rw [modelNamed, if_pos listed, manifestContent]
    simp only [bind, Except.bind, readJson, Text.Utf8.toArray_toList,
      Text.Utf8.fromUTF8?_toUTF8, isRead, Except.mapError, held, isNamed]
    rfl
  have chosen : archive.names.find? (Value.text modelEntry).isText = some modelEntry := by
    rw [names]
    decide
  unfold ofKpar
  simp only [written, isOpened, isModel, chosen, bind, Except.bind, Option.some_or, modelContent,
    Text.Utf8.toArray_toList]

end Document

namespace Format

variable {document : Document}

theorem kpar_read_write (taggable : document.Taggable)
    (counted : Decimal.hasText document.records.length = true)
    {model : String} (isModel : document.toXmi = .ok model)
    (packed : document.IsPacked) :
    ∃ octets, kpar.write document = .ok octets ∧
      kpar.read octets = Document.ofXmi model.toUTF8 := by
  obtain ⟨manifest, isManifest, isRead, -⟩ :=
    Json.read_render true (Document.manifest_isPlain taggable)
  obtain ⟨summary, isSummary, -, -⟩ :=
    Json.read_render true (Document.summary_isPlain taggable counted)
  have archive : document.toKpar =
      .ok (Archive.write (Document.kparEntries manifest summary model)) := by
    rw [Document.toKpar, isManifest, isSummary, isModel]
    rfl
  refine ⟨⟨(Archive.write (Document.kparEntries manifest summary model)).toArray⟩, ?_, ?_⟩
  · rw [write, archive]
    rfl
  · apply Document.ofKpar_entries (packed manifest summary model isManifest isSummary isModel)
    · exact ⟨_, isRead, Value.lookup_underTexts "model" _⟩
    · exact Text.Utf8.toList_data _

/-- A document is read back from its XMI with its records in the order of the tree, its external
references in theirs, and the same metadata; and from its archive likewise, if the archive gives its
entries back. -/
theorem tagged_read_write {records : List Record} {externalRefs : List (Key × Key)}
    {metadata : List (Value × Value)}
    (taggable : (Document.make records externalRefs metadata).Taggable) :
    let document := Document.make records externalRefs metadata
    ∃ listed told, Hierarchy.InOrder document.inside document.roots listed ∧
      listed.Perm records ∧ told.Perm document.metadata ∧
      (∃ octets, xmi.write document = .ok octets ∧
        xmi.read octets = .ok ⟨listed, externalRefs, told⟩) ∧
      (Decimal.hasText records.length = true → document.IsPacked →
        ∃ octets, kpar.write document = .ok octets ∧
          kpar.read octets = .ok ⟨listed, externalRefs, told⟩) := by
  intro document
  obtain ⟨model, told, isModel, sameMetadata, isRead⟩ :=
    Document.xmi_read_write taggable (Document.completed_completed metadata)
  have nested := taggable.nested
  have shallow : Hierarchy.deep document.inside document.roots (records.length + 1) = [] := by
    have listed : document.roots ⊆ document.records := fun _ isRoot => (List.mem_filter.mp isRoot).1
    exact List.subset_nil.mp (nested.ends ▸ Hierarchy.deep_subset document.inside listed _)
  have inOrder := Hierarchy.walk_inOrder shallow
  rw [← Document.written_eq] at inOrder
  refine ⟨_, told, inOrder, nested.written_perm, sameMetadata, ?_, ?_⟩
  · refine ⟨model.toUTF8, ?_, isRead⟩
    rw [write, isModel]
    rfl
  · intro counted packed
    obtain ⟨octets, isWritten, same⟩ := kpar_read_write taggable counted isModel packed
    exact ⟨octets, isWritten, same.trans isRead⟩

/-- A part that stands before its package, and its type from elsewhere. -/
def heldPart : Document :=
  .make
    [{ id := "x", kind := "PartUsage", name := .text "x", qualifiedName := .text "P::x"
       owner := some "p", properties := [(.text "direction", .text "in"), (.text "big", .bool true)] },
     { id := "p", kind := "Package", name := .text "P", qualifiedName := .text "P"
       doc := .text "a < b" },
     { id := "t", kind := "FeatureTyping", owner := some "x", source := some "x"
       target := some "e" }]
    [("e", "Lib::T")] [(.text "name", .text "m")]

theorem heldPart_nested : heldPart.Nested where
  id := by simp [heldPart, Document.make, Key.text]
  ids := by simp [heldPart, Document.make, Document.ids, Key.text]
  owned := by
    have isPart : ∃ record ∈ heldPart.records, record.id = "x" := ⟨_, List.mem_cons_self, rfl⟩
    have isPackage : ∃ record ∈ heldPart.records, record.id = "p" :=
      ⟨_, List.mem_cons_of_mem _ List.mem_cons_self, rfl⟩
    have owned {record : Record} {id : Key} (isHeld : ∃ owner ∈ heldPart.records, owner.id = id)
        (isOwner : record.owner = some id) : ∃ owner, heldPart.HeldBy record owner := by
      obtain ⟨owner, listed, isId⟩ := isHeld
      exact ⟨owner, listed, isId ▸ isOwner⟩
    intro record listed
    simp only [heldPart, Document.make, List.mem_cons, List.not_mem_nil, or_false] at listed
    rcases listed with rfl | rfl | rfl
    · exact .inr (owned isPackage rfl)
    · exact .inl rfl
    · exact .inr (owned isPart rfl)
  acyclic := by
    intro record _
    apply Hierarchy.acyclic_of_rank fun record : Record =>
      (record.owner.bind Key.text?).elim 0 fun id => if id = "p" then 1 else if id = "x" then 2 else 3
    intro inner outer heldBy
    obtain ⟨listed, isOwner⟩ := heldBy
    simp only [heldPart, Document.make, List.mem_cons, List.not_mem_nil, or_false] at listed
    rw [isOwner]
    rcases listed with rfl | rfl | rfl <;> decide

theorem heldPart_taggable : heldPart.Taggable where
  records := by
    intro record listed
    simp only [heldPart, Document.make, List.mem_cons, List.not_mem_nil, or_false] at listed
    rcases listed with rfl | rfl | rfl
    · exact
        { id := ⟨"x", by decide, rfl⟩, kind := ⟨by decide +kernel, by decide⟩
          name := ⟨some "x", rfl⟩, qualifiedName := ⟨some "P::x", rfl⟩
          named := fun _ _ => by simp
          source := nofun, target := nofun, shortName := ⟨none, nofun, rfl⟩
          doc := ⟨none, nofun, rfl⟩, provenance := ⟨"model", rfl⟩
          properties := ⟨[("direction", .text "in"), ("big", .bool true)],
            ⟨rfl, by decide, by decide +kernel, by decide⟩, by
              simp [Record.IsWord]⟩
          clear := by unfold Record.IsClear; decide +kernel
          kept := by decide +kernel }
    · exact
        { id := ⟨"p", by decide, rfl⟩, kind := ⟨by decide +kernel, by decide⟩
          name := ⟨some "P", rfl⟩, qualifiedName := ⟨some "P", rfl⟩
          named := fun _ _ => by simp
          source := nofun, target := nofun, shortName := ⟨none, nofun, rfl⟩
          doc := ⟨some "a < b", by simp, rfl⟩, provenance := ⟨"model", rfl⟩
          properties := ⟨[], ⟨rfl, by decide, nofun, nofun⟩, nofun⟩
          clear := by unfold Record.IsClear; decide +kernel
          kept := by decide +kernel }
    · exact
        { id := ⟨"t", by decide, rfl⟩, kind := ⟨by decide +kernel, by decide⟩
          name := ⟨none, rfl⟩, qualifiedName := ⟨none, rfl⟩
          named := nofun
          source := by rintro _ ⟨⟩; exact ⟨"x", by decide, rfl⟩
          target := by rintro _ ⟨⟩; exact ⟨"e", by decide, rfl⟩
          shortName := ⟨none, nofun, rfl⟩
          doc := ⟨none, nofun, rfl⟩, provenance := ⟨"model", rfl⟩
          properties := ⟨[], ⟨rfl, by decide, nofun, nofun⟩, nofun⟩
          clear := by unfold Record.IsClear; decide +kernel
          kept := by decide +kernel }
  nested := heldPart_nested
  external := ⟨[("e", "Lib::T")], rfl, by decide, by decide⟩
  metadata := by
    refine ⟨[("name", .text "m")] ++ Document.ownMetadata, ?_, by decide, ?_⟩
    · simp [heldPart, Document.make, Document.completed, Entries.putNew, List.lookup_cons,
        Value.text_beq, Document.ownMetadata, Value.underTexts]
    · simp only [Document.ownMetadata, List.cons_append, List.nil_append, List.forall_mem_cons]
      refine ⟨?_, ?_, ?_, ?_, nofun⟩
      · exact ⟨⟨by decide +kernel, by decide⟩, .inr ⟨"m", by decide, by decide, rfl⟩,
          by unfold Record.IsClear; decide +kernel⟩
      · exact ⟨⟨by decide +kernel, by decide⟩, .inr ⟨_, by decide, by decide, rfl⟩,
          by unfold Record.IsClear; decide +kernel⟩
      · exact ⟨⟨by decide +kernel, by decide⟩, .inr ⟨_, by decide, by decide, rfl⟩,
          by unfold Record.IsClear; decide +kernel⟩
      · exact ⟨⟨by decide +kernel, by decide⟩, .inl ⟨_, rfl⟩,
          by unfold Record.IsClear; decide +kernel⟩

/-- The namespaces that the part's XMI names, in the order in which they are met. -/
def heldSpaces : List (String × String) :=
  [(Document.xmiSpace, "xmi"), (Document.modelSpace, "sysml")]

theorem heldPart_declarations : Xml.declarationsText heldSpaces =
    " xmlns:sysml=\"http://www.omg.org/spec/SysML/20230201\"" ++
      " xmlns:xmi=\"http://www.omg.org/spec/XMI/20131001\"" := by
  have order : ¬ "xmi" ≤ "sysml" := by decide
  have sorted : heldSpaces.mergeSort (fun a b => a.2 ≤ b.2) =
      [(Document.modelSpace, "sysml"), (Document.xmiSpace, "xmi")] := by
    simp [heldSpaces, List.mergeSort, List.MergeSort.Internal.splitInTwo, List.splitAt,
      List.splitAt.go, order]
  unfold Xml.declarationsText
  simp only [sorted]
  rfl

theorem heldPart_short {model : String} (isModel : heldPart.toXmi = .ok model) :
    model.toUTF8.toList.length < 2000 := by
  have areUsed : Xml.useElement (Document.xmiAbbreviations ++ Xml.wellKnown) [] heldPart.xmiRoot =
      some heldSpaces := by decide +kernel
  have isText : Xml.render? Document.xmiAbbreviations heldPart.xmiRoot = some model := by
    rw [Document.toXmi, Document.xmiFault?_none heldPart_taggable] at isModel
    cases isText : Xml.render? Document.xmiAbbreviations heldPart.xmiRoot with
    | none => rw [isText] at isModel; cases isModel
    | some text => rw [isText] at isModel; rw [Except.ok.inj isModel]
  simp only [Xml.render?, areUsed, Option.bind_eq_bind, Option.bind_some, heldPart_declarations,
    Option.some.injEq] at isText
  rw [← isText]
  decide +kernel

theorem heldPart_packed : heldPart.IsPacked := by
  intro manifest summary model isManifest isSummary isModel
  have short {written : Except Failure String} (isShort : (written.toOption.all fun text =>
      decide (text.toUTF8.toList.length < 2000)) = true) {text : String}
      (isText : written = .ok text) : text.toUTF8.toList.length < 2000 := by
    rw [isText] at isShort
    exact of_decide_eq_true isShort
  have shortManifest := short (by decide +kernel) isManifest
  have shortSummary := short (by decide +kernel) isSummary
  have shortModel := heldPart_short isModel
  apply Document.kparEntries_carried
  omega

theorem tagged_read_write_held :
    heldPart.Taggable ∧ heldPart.IsPacked ∧
      ∃ listed told, Hierarchy.InOrder heldPart.inside heldPart.roots listed ∧
        listed.Perm heldPart.records ∧ told.Perm heldPart.metadata ∧
        (∃ octets, xmi.write heldPart = .ok octets ∧
          xmi.read octets = .ok ⟨listed, heldPart.externalRefs, told⟩) ∧
        ∃ octets, kpar.write heldPart = .ok octets ∧
          kpar.read octets = .ok ⟨listed, heldPart.externalRefs, told⟩ := by
  obtain ⟨listed, told, inOrder, all, same, asXmi, asKpar⟩ := tagged_read_write heldPart_taggable
  exact ⟨heldPart_taggable, heldPart_packed, listed, told, inOrder, all, same, asXmi,
    asKpar (by decide +kernel) heldPart_packed⟩

end Format

end Sysml
