import Sysml.Document.Companion
import Sysml.Proofs.Document.Told
import Sysml.Proofs.Workspace.Pinning

/-!
# Ids that are found again

The symbols of a document's source text are given the ids of its records by the companion
data: a reference by the relationship of its kind that comes next, and what is imported by the
next relationship of such a kind (`Told.foldl_onto_recalls`).
-/

set_option autoImplicit false

namespace Sysml

namespace Entries

variable {κ ν : Type} [BEq κ]

def spread (entries : List (κ × List ν)) : List (κ × ν) :=
  entries.flatMap fun entry => entry.2.map (entry.1, ·)

theorem spread_grouped_map {μ : Type} (change : ν → μ) (pairs : List (κ × ν)) :
    spread (grouped (pairs.map fun pair => (pair.1, change pair.2))) =
      (spread (grouped pairs)).map fun pair => (pair.1, change pair.2) := by
  simp [spread, grouped, List.flatMap_map, List.map_flatMap, List.filter_map, Function.comp_def]

/-- Grouping puts the pairs of a key together, in order. -/
theorem spread_grouped [LawfulBEq κ] (pairs : List (κ × ν)) :
    spread (grouped pairs) =
      (pairs.map (·.1)).eraseDups.flatMap fun key => pairs.filter (·.1 == key) := by
  rw [spread, grouped, List.flatMap_map]
  refine List.flatMap_congr fun key _ => ?_
  have alone : ∀ pair ∈ pairs.filter (·.1 == key), (key, pair.2) = pair := by
    intro pair listed
    rw [← eq_of_beq (List.mem_filter.mp listed).2]
  rw [List.map_map]
  exact (List.map_congr_left alone).trans (List.map_id' _)

theorem spread_grouped_perm [LawfulBEq κ] (pairs : List (κ × ν)) :
    (spread (grouped pairs)).Perm pairs := by
  induction isSize : pairs.length using Nat.strongRecOn generalizing pairs with
  | ind size ih =>
    cases pairs with
    | nil => exact .nil
    | cons pair rest =>
      obtain ⟨key, value⟩ := pair
      have fewer : (rest.filter fun pair => !(pair.1 == key)).length < size := by
        rw [← isSize, List.length_cons]
        exact Nat.lt_succ_of_le (List.length_filter_le ..)
      have alone : ((rest.filter (·.1 == key)).map (·.2)).map (key, ·) =
          rest.filter (·.1 == key) := by
        rw [List.map_map]
        refine (List.map_congr_left fun pair listed => ?_).trans (List.map_id' _)
        rw [Function.comp, ← eq_of_beq (List.mem_filter.mp listed).2]
      rw [grouped_cons, spread, List.flatMap_cons, List.map_cons, alone, List.cons_append]
      exact (((ih _ fewer _ rfl).append_left _).trans (List.filter_append_perm _ _)).cons _

/-- Before a pair stand only pairs of other keys and earlier pairs. -/
theorem spread_grouped_split [LawfulBEq κ] (before after : List (κ × ν)) (pair : κ × ν) :
    ∃ first second, spread (grouped (before ++ pair :: after)) = first ++ pair :: second ∧
      ∀ other ∈ first, other.1 = pair.1 → other ∈ before := by
  have isKey : pair.1 ∈ ((before ++ pair :: after).map (·.1)).eraseDups :=
    List.mem_eraseDups.mpr (by simp)
  obtain ⟨keys, others, whole, fresh⟩ := List.eq_append_cons_of_mem isKey
  have own : (pair :: after).filter (·.1 == pair.1) = pair :: after.filter (·.1 == pair.1) :=
    List.filter_cons_of_pos BEq.rfl
  refine ⟨(keys.flatMap fun key => (before ++ pair :: after).filter (·.1 == key)) ++
    before.filter (·.1 == pair.1), after.filter (·.1 == pair.1) ++
      others.flatMap fun key => (before ++ pair :: after).filter (·.1 == key), ?_, ?_⟩
  · rw [spread_grouped, whole, List.flatMap_append, List.flatMap_cons]
    simp [own]
  · intro other listed same
    rcases List.mem_append.mp listed with earlier | inside
    · obtain ⟨key, isKey, isOther⟩ := List.mem_flatMap.mp earlier
      have sameKey := eq_of_beq (List.mem_filter.mp isOther).2
      exact absurd isKey (sameKey.symm.trans same ▸ fresh)
    · exact (List.mem_filter.mp inside).1

end Entries

namespace Document

def referencesOf (document : Document) (record : Record) : List (RefKind × Record) :=
  (document.relationshipsOf record.id).filterMap fun relation =>
    (RefKind.ofMetaclass? relation.kind).map (·, relation)

def clausesOf (document : Document) (record : Record) : List (RefKind × Record) :=
  Entries.spread (Entries.grouped (document.referencesOf record))

def importsOf (document : Document) (record : Record) : List Record :=
  (document.relationshipsOf record.id).filter fun relation => Record.isImportKind relation.kind

end Document

variable {document : Document}

/-- A reference that stands for a relationship, and has its id if that was found again. -/
structure Reference.Recalls (document : Document) (done : List Record) (entry : RefKind × Record)
    (reference : Reference) : Prop where
  kind : reference.kind = entry.1
  target : reference.target = .text (document.targetPath entry.2)
  targetId : reference.targetId = none
  targetName : reference.targetName = none
  found : entry.2 ∈ done → reference.elementId = some entry.2.id
  missing : entry.2 ∉ done → reference.elementId = none

/-- An import that stands for a relationship, and has its id if that was found again. -/
structure Import.Recalls (document : Document) (done : List Record) (relation : Record)
    (i : Import) : Prop where
  path : i.path = .text (document.targetPath relation)
  stars : (i.isNamespace || i.isRecursive) = (relation.kind == Record.namespaceImport)
  targetId : i.targetId = none
  found : relation ∈ done → i.elementId = some relation.id
  missing : relation ∉ done → i.elementId = none

/-- A symbol that stands for an element, where some relationships were found again. -/
structure Symbol.Recalls (document : Document) (done : List Record) (record : Record)
    (symbol : Symbol) : Prop where
  name : symbol.name = .text record.ownName
  qualifiedName : symbol.qualifiedName = .text record.path
  shortName : symbol.shortName = .text (record.shortName.text?.getD "")
  kind : symbol.kind = SymbolKind.ofMetaclass record.kind
  owner : record.owner = none ∧ symbol.owner = none ∨
    ∃ owner, document.OwnedBy record owner ∧ symbol.owner = some (.text owner.path)
  library : symbol.isLibrary = false
  elementId : symbol.elementId = some record.id
  references : List.Forall₂ (Reference.Recalls document done) (document.clausesOf record)
    symbol.references
  imports : List.Forall₂ (Import.Recalls document done) (document.importsOf record) symbol.imports

theorem Reference.Recalls.mono {done more : List Record} {entry : RefKind × Record}
    {reference : Reference} (recalls : reference.Recalls document done entry)
    (same : entry.2 ∈ more ↔ entry.2 ∈ done) : reference.Recalls document more entry :=
  ⟨recalls.kind, recalls.target, recalls.targetId, recalls.targetName,
    fun listed => recalls.found (same.mp listed), fun fresh => recalls.missing (mt same.mpr fresh)⟩

theorem Import.Recalls.mono {done more : List Record} {relation : Record} {i : Import}
    (recalls : i.Recalls document done relation) (same : relation ∈ more ↔ relation ∈ done) :
    i.Recalls document more relation :=
  ⟨recalls.path, recalls.stars, recalls.targetId, fun listed => recalls.found (same.mp listed),
    fun fresh => recalls.missing (mt same.mpr fresh)⟩

namespace Document

def pinOf (document : Document) (relation : Record) : Pin :=
  .relationship relation.id ⟨document.nameOf relation.origin⟩ (.text relation.kind)
    (.text (document.targetPath relation))

section Step

variable {record relation : Record} {symbol : Symbol} {before after : List Record}

theorem referenceKinds_metaclass (kind : RefKind) :
    Pin.isImportKind (.text kind.metaclass) = false ∧
      Pin.referenceKinds.lookup kind.metaclass = some kind := by
  cases kind <;> decide

theorem meansKind_metaclass (kind : RefKind) (reference : Reference) :
    Pin.meansKind (.text kind.metaclass) reference = .ok (kind == reference.kind) := by
  have proper : Key.proper ⟨.text kind.metaclass⟩ = .ok (.text kind.metaclass) := rfl
  have listed : (Key.text kind.metaclass).text?.bind
      (fun kind => Pin.referenceKinds.lookup kind) = some kind := (referenceKinds_metaclass kind).2
  rw [Pin.meansKind, proper, ok_bind, listed]
  rfl

/-- A reference with an id, or of another kind, is passed over. -/
theorem fitsReference_passed {done : List Record} {entry : RefKind × Record} {kind : RefKind}
    {reference : Reference} (path : String) (recalls : reference.Recalls document done entry)
    (typed : ∃ id, id ≠ "" ∧ entry.2.id = .text id)
    (passed : entry.1 = kind → entry.2 ∈ done) :
    Pin.fitsReference (.text kind.metaclass) (.text path) reference = .ok false := by
  unfold Pin.fitsReference
  by_cases listed : entry.2 ∈ done
  · obtain ⟨id, someId, isId⟩ := typed
    rw [recalls.found listed, isId, Key.given?_text someId]
    rfl
  · have apart : (kind == reference.kind) = false := by
      rw [recalls.kind]
      exact beq_eq_false_iff_ne.mpr fun same => listed (passed same.symm)
    obtain ⟨means, isMeans⟩ := @Pin.meansTarget_ok path reference
    rw [recalls.missing listed, isMeans, ok_bind, meansKind_metaclass, apart]
    cases means <;> rfl

theorem fitsReference_next {done : List Record} {kind : RefKind} {reference : Reference}
    (recalls : reference.Recalls document done (kind, relation)) (fresh : relation ∉ done) :
    Pin.fitsReference (.text kind.metaclass) (.text (document.targetPath relation)) reference =
      .ok true := by
  have same : (kind == reference.kind) = true := by
    rw [recalls.kind]
    exact BEq.rfl
  have means : Pin.meansTarget (.text (document.targetPath relation)) reference = .ok true := by
    rw [Pin.meansTarget, recalls.target]
    refine if_pos ?_
    rw [Bool.or_eq_true]
    exact .inl BEq.rfl
  rw [Pin.fitsReference, recalls.missing fresh, means, ok_bind, meansKind_metaclass, same]
  rfl

/-- An import with an id is passed over. -/
theorem fitsImport_passed {done : List Record} {i : Import} (path : String)
    (recalls : i.Recalls document done relation) (typed : ∃ id, id ≠ "" ∧ relation.id = .text id)
    (listed : relation ∈ done) : Pin.fitsImport (.text path) i = false := by
  obtain ⟨id, someId, isId⟩ := typed
  rw [Pin.fitsImport, recalls.found listed, isId, Key.given?_text someId]
  simp

theorem fitsImport_next {done : List Record} {i : Import}
    (recalls : i.Recalls document done relation) (fresh : relation ∉ done) :
    Pin.fitsImport (.text (document.targetPath relation)) i = true := by
  have same : (Key.text (document.targetPath relation) ==
    ⟨.text (document.targetPath relation)⟩) = true := BEq.rfl
  rw [Pin.fitsImport, recalls.path, recalls.missing fresh, same]
  rfl

end Step

theorem mem_clausesOf {record : Record} {entry : RefKind × Record} :
    entry ∈ document.clausesOf record ↔ entry.2 ∈ document.relationshipsOf record.id ∧
      RefKind.ofMetaclass? entry.2.kind = some entry.1 := by
  rw [clausesOf, (Entries.spread_grouped_perm _).mem_iff, referencesOf, List.mem_filterMap]
  constructor
  · rintro ⟨relation, listed, made⟩
    obtain ⟨kind, isKind, rfl⟩ := Option.map_eq_some_iff.mp made
    exact ⟨listed, isKind⟩
  · rintro ⟨listed, isKind⟩
    exact ⟨entry.2, listed, by rw [isKind]; rfl⟩

section Told

variable (told : document.Told) {record relation : Record} {symbol : Symbol}
  {before after : List Record}

include told

omit told in
theorem mem_relationshipsOf (listed : relation ∈ document.relationshipsOf record.id) :
    relation ∈ document.relationships ∧ relation ∈ document.records := by
  have inside := (List.mem_filter.mp listed).1
  exact ⟨inside, (List.mem_filter.mp inside).1⟩

theorem Told.relationshipsOf_nodup (record : Record) :
    (document.relationshipsOf record.id).Nodup :=
  ((List.Nodup.of_map _ told.portable.ids).filter _).filter _

/-- A relationship is a reference of one kind, or an import. -/
theorem Told.relation_kind (listed : relation ∈ document.relationshipsOf record.id) :
    (∃ kind : RefKind, relation.kind = kind.metaclass) ∨
      Record.isImportKind relation.kind = true ∧ RefKind.ofMetaclass? relation.kind = none := by
  obtain ⟨_, _, _, _, joins⟩ :=
    told.portable.relationships relation (mem_relationshipsOf listed).1
  rcases joins.2 with ⟨kind, same⟩ | ⟨isNamespace, isRecursive, _, same⟩
  · exact .inl ⟨kind, by rw [same]⟩
  · have isImport : Record.isImportKind relation.kind = true := by
      rw [same]
      exact importKind_isImport isNamespace isRecursive
    exact .inr ⟨isImport, ofMetaclass?_import isImport⟩

theorem Told.origin_eq (member : record ∈ document.elements)
    (listed : relation ∈ document.relationshipsOf record.id) : relation.origin = record.id := by
  obtain ⟨source, sourceIn, target, targetIn, joins⟩ :=
    told.portable.relationships relation (mem_relationshipsOf listed).1
  have isOrigin := told.portable.origin_eq sourceIn joins
  have same : (source.id == record.id) = true := isOrigin ▸ (List.mem_filter.mp listed).2
  rw [isOrigin, told.portable.typed.eq_of_id_beq (elements_subset document sourceIn)
    (elements_subset document member) same]

theorem Told.clausesOf_nodup (record : Record) : ((document.clausesOf record).map (·.2)).Nodup := by
  have perm := (Entries.spread_grouped_perm (document.referencesOf record)).map (·.2)
  rw [clausesOf, perm.nodup_iff, referencesOf, List.map_filterMap]
  refine (told.relationshipsOf_nodup record).filterMap fun one other held first second => ?_
  obtain ⟨_, made, rfl⟩ := Option.map_eq_some_iff.mp first
  obtain ⟨_, madeToo, same⟩ := Option.map_eq_some_iff.mp second
  obtain ⟨_, _, rfl⟩ := Option.map_eq_some_iff.mp made
  obtain ⟨_, _, rfl⟩ := Option.map_eq_some_iff.mp madeToo
  exact same.symm

theorem Told.clausesOf_split {kind : RefKind} (isKind : relation.kind = kind.metaclass)
    (whole : document.relationshipsOf record.id = before ++ relation :: after) :
    ∃ first second, document.clausesOf record = first ++ (kind, relation) :: second ∧
      (∀ entry ∈ first, entry.1 = kind → entry.2 ∈ before) ∧
      ∀ entry ∈ first ++ second, entry.2 ≠ relation := by
  have pairs : document.referencesOf record =
      (before.filterMap fun relation =>
        (RefKind.ofMetaclass? relation.kind).map (·, relation)) ++
      (kind, relation) :: after.filterMap fun relation =>
        (RefKind.ofMetaclass? relation.kind).map (·, relation) := by
    rw [referencesOf, whole, List.filterMap_append, List.filterMap_cons, isKind,
      (RefKind.ofMetaclass?_metaclass kind).2]
    rfl
  obtain ⟨first, second, spread, earlier⟩ := Entries.spread_grouped_split
    (before.filterMap fun relation => (RefKind.ofMetaclass? relation.kind).map (·, relation))
    (after.filterMap fun relation => (RefKind.ofMetaclass? relation.kind).map (·, relation))
    (kind, relation)
  rw [← pairs] at spread
  have distinct := told.clausesOf_nodup record
  refine ⟨first, second, spread, ?_, ?_⟩
  · intro entry listed sameKind
    obtain ⟨other, isOther, made⟩ := List.mem_filterMap.mp (earlier entry listed sameKind)
    obtain ⟨_, _, rfl⟩ := Option.map_eq_some_iff.mp made
    exact isOther
  · intro entry listed same
    rw [clausesOf, spread, List.map_append, List.map_cons, List.nodup_middle, List.nodup_cons,
      ← List.map_append] at distinct
    exact distinct.1 (List.mem_map.mpr ⟨entry, listed, same⟩)

theorem Told.relationshipsOf_split
    (whole : document.relationshipsOf record.id = before ++ relation :: after) :
    relation ∉ before ∧ relation ∉ after := by
  have distinct := told.relationshipsOf_nodup record
  rw [whole, List.nodup_middle, List.nodup_cons, List.mem_append, not_or] at distinct
  exact distinct.1

omit told in
theorem mem_recalled {other : Record} (apart : other ≠ relation) :
    other ∈ before ++ [relation] ↔ other ∈ before := by
  simp [apart]

/-- The pin of the next relationship that is a reference gives its id to that reference. -/
theorem Told.reference_recalls {kind : RefKind} (isKind : relation.kind = kind.metaclass)
    (whole : document.relationshipsOf record.id = before ++ relation :: after)
    (recalls : symbol.Recalls document before record) :
    ∃ references, (document.pinOf relation).changed? symbol = .ok (some { symbol with references }) ∧
      List.Forall₂ (Reference.Recalls document (before ++ [relation])) (document.clausesOf record)
        references := by
  obtain ⟨first, second, spread, earlier, others⟩ := told.clausesOf_split isKind whole
  have references := recalls.references
  rw [spread] at references
  obtain ⟨left, reference, right, areReferences, relatedLeft, relatedOne, relatedRight⟩ :=
    related_split references
  refine ⟨left ++ { reference with elementId := some relation.id } :: right, ?_, ?_⟩
  · have passed : ∀ other ∈ left, Pin.fitsReference (.text relation.kind)
        (.text (document.targetPath relation)) other = .ok false := by
      intro other inside
      obtain ⟨entry, isEntry, recallsEntry⟩ := exists_related relatedLeft inside
      have member : entry ∈ document.clausesOf record := by simp [spread, isEntry]
      have listed := (mem_clausesOf.mp member).1
      rw [isKind]
      exact fitsReference_passed _ recallsEntry
        (told.portable.typed.id_text (mem_relationshipsOf listed).2) (earlier entry isEntry)
    have next : Pin.fitsReference (.text relation.kind) (.text (document.targetPath relation))
        reference = .ok true := by
      rw [isKind]
      exact fitsReference_next relatedOne (told.relationshipsOf_split whole).1
    have found := @Pin.changeFirst?_found Reference _ (fun reference =>
      { reference with elementId := some relation.id }) left right _ passed next
    have noImport : Pin.isImportKind (.text relation.kind) = false := by
      rw [isKind]
      exact (referenceKinds_metaclass kind).1
    simp only [Pin.changed?, pinOf, Pin.onSymbol?, noImport, areReferences]
    rw [if_neg Bool.false_ne_true, found]
    rfl
  · rw [spread]
    refine List.rel_append ?_ (.cons ?_ ?_)
    · exact related_imp relatedLeft fun entry inside other holds =>
        holds.mono (mem_recalled (others entry (List.mem_append_left _ inside)))
    · exact ⟨relatedOne.kind, relatedOne.target, relatedOne.targetId, relatedOne.targetName,
        fun _ => rfl, fun missing => absurd (by simp) missing⟩
    · exact related_imp relatedRight fun entry inside other holds =>
        holds.mono (mem_recalled (others entry (List.mem_append_right _ inside)))

/-- The pin of the next relationship that is an import gives its id to that import. -/
theorem Told.import_recalls (isImport : Record.isImportKind relation.kind = true)
    (whole : document.relationshipsOf record.id = before ++ relation :: after)
    (recalls : symbol.Recalls document before record) :
    ∃ imports, (document.pinOf relation).changed? symbol = .ok (some { symbol with imports }) ∧
      List.Forall₂ (Import.Recalls document (before ++ [relation])) (document.importsOf record)
        imports := by
  obtain ⟨fresh, notAfter⟩ := told.relationshipsOf_split whole
  have spread : document.importsOf record =
      (before.filter fun relation => Record.isImportKind relation.kind) ++
        relation :: after.filter fun relation => Record.isImportKind relation.kind := by
    rw [importsOf, whole, List.filter_append, List.filter_cons, if_pos isImport]
  have imports := recalls.imports
  rw [spread] at imports
  obtain ⟨left, i, right, areImports, relatedLeft, relatedOne, relatedRight⟩ :=
    related_split imports
  refine ⟨left ++ { i with elementId := some relation.id } :: right, ?_, ?_⟩
  · have passed : ∀ other ∈ left, (.ok (Pin.fitsImport (.text (document.targetPath relation)) other) :
        Except Failure Bool) = .ok false := by
      intro other inside
      obtain ⟨entry, isEntry, recallsEntry⟩ := exists_related relatedLeft inside
      have isBefore := (List.mem_filter.mp isEntry).1
      have listed : entry ∈ document.relationshipsOf record.id :=
        whole ▸ List.mem_append_left _ isBefore
      rw [fitsImport_passed _ recallsEntry
        (told.portable.typed.id_text (mem_relationshipsOf listed).2) isBefore]
    have next : (.ok (Pin.fitsImport (.text (document.targetPath relation)) i) :
        Except Failure Bool) = .ok true := by
      rw [fitsImport_next relatedOne fresh]
    have found := @Pin.changeFirst?_found Import _ (fun i =>
      { i with elementId := some relation.id }) left right _ passed next
    have isImportKind : Pin.isImportKind (.text relation.kind) = true := isImport
    simp only [Pin.changed?, pinOf, Pin.onSymbol?, isImportKind, areImports]
    rw [if_pos trivial, found]
    rfl
  · rw [spread]
    refine List.rel_append ?_ (.cons ?_ ?_)
    · exact related_imp relatedLeft fun other inside i holds => holds.mono (mem_recalled
        (fun isRelation => fresh (isRelation ▸ (List.mem_filter.mp inside).1)))
    · exact ⟨relatedOne.path, relatedOne.stars, relatedOne.targetId, fun _ => rfl,
        fun missing => absurd (by simp) missing⟩
    · exact related_imp relatedRight fun other inside i holds => holds.mono (mem_recalled
        (fun isRelation => notAfter (isRelation ▸ (List.mem_filter.mp inside).1)))

/-- The pin of the next relationship of an element gives its id to what stands for it. -/
theorem Told.onto_recalls (member : record ∈ document.elements)
    (whole : document.relationshipsOf record.id = before ++ relation :: after)
    (recalls : symbol.Recalls document before record) :
    ((document.pinOf relation).onto symbol).Recalls document (before ++ [relation]) record := by
  have listed : relation ∈ document.relationshipsOf record.id := by simp [whole]
  have isSubject : (symbol.qualifiedName == (document.pinOf relation).subject) = true := by
    change (symbol.qualifiedName == ⟨document.nameOf relation.origin⟩) = true
    rw [told.origin_eq member listed, told.portable.nameOf_eq member, recalls.qualifiedName]
    exact BEq.rfl
  rcases told.relation_kind listed with ⟨kind, isKind⟩ | ⟨isImport, noReference⟩
  · obtain ⟨references, changed, recalled⟩ := told.reference_recalls isKind whole recalls
    rw [Pin.onto_of_changed isSubject changed]
    refine ⟨recalls.name, recalls.qualifiedName, recalls.shortName, recalls.kind, recalls.owner,
      recalls.library, recalls.elementId, recalled, ?_⟩
    refine related_imp recalls.imports fun other inside i holds => holds.mono (mem_recalled ?_)
    rintro rfl
    have isImport := (List.mem_filter.mp inside).2
    rw [isKind, (RefKind.ofMetaclass?_metaclass kind).1] at isImport
    cases isImport
  · obtain ⟨imports, changed, recalled⟩ := told.import_recalls isImport whole recalls
    rw [Pin.onto_of_changed isSubject changed]
    refine ⟨recalls.name, recalls.qualifiedName, recalls.shortName, recalls.kind, recalls.owner,
      recalls.library, recalls.elementId, ?_, recalled⟩
    refine related_imp recalls.references fun entry inside reference holds =>
      holds.mono (mem_recalled fun isRelation => ?_)
    have kinds := (mem_clausesOf.mp inside).2
    rw [isRelation, noReference] at kinds
    cases kinds

end Told

end Document

end Sysml
