import Sysml.Proofs.Document.TakingIn
import Sysml.Proofs.Workspace.Ending

/-!
# The symbols of a portable document

The symbols that a portable document becomes are bound to each other by ids, so that
their records are those of the document again.
-/

set_option autoImplicit false

namespace Sysml

open Scope

def Document.relationsOf (document : Document) (record : Record) : List Record :=
  document.relationships.filter fun relation => some record.id == some relation.origin

/-- The symbol of an element with the references and imports that come from it. -/
def Document.symbolFor (document : Document) (source : String) (names : List (Key × Key))
    (record : Record) : Symbol :=
  { document.bare source record with
    references := (document.relationsOf record).filterMap (Record.asReference? names)
    imports := (document.relationsOf record).filterMap (Record.asImport? names) }

theorem foldl_attach (names : List (Key × Key)) (symbol : Symbol) (records : List Record) :
    records.foldl (Symbol.attach names) symbol =
      { symbol with
        references := symbol.references ++ records.filterMap (Record.asReference? names)
        imports := symbol.imports ++ records.filterMap (Record.asImport? names) } := by
  induction records generalizing symbol with
  | nil => simp
  | cons record rest ih =>
    rw [List.foldl_cons, ih]
    simp only [Symbol.attach, List.append_assoc, List.filterMap_cons]
    cases record.asReference? names <;> cases record.asImport? names <;> rfl

/-- The symbol of an element, under any serial number. -/
def Symbol.Mirrors (document : Document) (source : String) (names : List (Key × Key))
    (symbol : Symbol) (record : Record) : Prop :=
  ∃ serial, symbol = { document.symbolFor source names record with serial }

namespace Symbol.Mirrors

variable {document : Document} {source : String} {names : List (Key × Key)} {symbol : Symbol}
  {record : Record} (mirrored : symbol.Mirrors document source names record)

include mirrored

theorem name : symbol.name = Document.nameOrEmpty record.name := by
  obtain ⟨_, rfl⟩ := mirrored
  rfl

theorem qualifiedName : symbol.qualifiedName = document.fullName record := by
  obtain ⟨_, rfl⟩ := mirrored
  rfl

theorem kind : symbol.kind = SymbolKind.ofMetaclass record.kind := by
  obtain ⟨_, rfl⟩ := mirrored
  rfl

theorem owner : symbol.owner = (document.ownerOf? record).map document.fullName := by
  obtain ⟨_, rfl⟩ := mirrored
  rfl

theorem elementId : symbol.elementId = some record.id := by
  obtain ⟨_, rfl⟩ := mirrored
  rfl

theorem isLibrary : symbol.isLibrary = record.provenance.isText Record.inlinedProvenance := by
  obtain ⟨_, rfl⟩ := mirrored
  rfl

theorem references : symbol.references =
    (document.relationsOf record).filterMap (Record.asReference? names) := by
  obtain ⟨_, rfl⟩ := mirrored
  rfl

theorem imports : symbol.imports =
    (document.relationsOf record).filterMap (Record.asImport? names) := by
  obtain ⟨_, rfl⟩ := mirrored
  rfl

end Symbol.Mirrors

structure Scope.Index.Mirrors (index : Index) (document : Document) (source : String)
    (names : List (Key × Key)) : Prop where
  symbols : List.Forall₂ (Symbol.Mirrors document source names) index.symbols document.elements
  ids : index.byId = index.symbols.filterMap fun symbol =>
    (Key.given? symbol.elementId).map fun id => (id, symbol)

/-- The relationships that come from an element, as a symbol adds them: imports come last. -/
def Document.linkRecords (document : Document) (record : Record) : List Record :=
  ((document.relationsOf record).filter fun relation => !Record.isImportKind relation.kind) ++
    (document.relationsOf record).filter fun relation => Record.isImportKind relation.kind

namespace Document.Typed

variable {document : Document} {record other : Record} (typed : document.Typed)

include typed

theorem records_nodup : document.records.Nodup :=
  List.Nodup.of_map _ typed.ids

/-- Records that are not repeated have different ids. -/
theorem ids_nodup {records : List Record} (nodup : records.Nodup)
    (part : records ⊆ document.records) : (records.map (·.id)).Nodup :=
  nodup.map_on fun _ oneIn _ otherIn same => typed.eq_of_id (part oneIn) (part otherIn) same

omit typed in
theorem mem_linkRecords :
    other ∈ document.linkRecords record ↔ other ∈ document.relationsOf record := by
  rw [linkRecords, List.mem_append, List.mem_filter, List.mem_filter]
  constructor
  · rintro (⟨has, _⟩ | ⟨has, _⟩) <;> exact has
  · intro has
    cases isImport : Record.isImportKind other.kind with
    | true => exact .inr ⟨has, rfl⟩
    | false => exact .inl ⟨has, rfl⟩

theorem linkRecords_nodup (record : Record) : (document.linkRecords record).Nodup := by
  have relations : (document.relationsOf record).Nodup :=
    (typed.records_nodup.filter _).filter _
  refine List.nodup_append.mpr ⟨relations.filter _, relations.filter _, ?_⟩
  intro one first two second same
  have isImport := (List.mem_filter.mp second).2
  have noImport := (List.mem_filter.mp first).2
  rw [same, isImport] at noImport
  cases noImport

omit typed in
theorem linkRecords_subset (record : Record) : document.linkRecords record ⊆ document.records :=
  fun _ member =>
    (List.mem_filter.mp (List.mem_filter.mp (mem_linkRecords.mp member)).1).1

omit typed in
theorem linkRecords_isRelationship (member : other ∈ document.linkRecords record) :
    other.isRelationship = true :=
  (List.mem_filter.mp (List.mem_filter.mp (mem_linkRecords.mp member)).1).2

/-- A relationship comes from one element. -/
theorem source_unique {relation : Record} (member : record ∈ document.elements)
    (otherIn : other ∈ document.elements) (first : relation ∈ document.linkRecords record)
    (second : relation ∈ document.linkRecords other) : record = other := by
  have origin := (List.mem_filter.mp (mem_linkRecords.mp first)).2
  have originToo := (List.mem_filter.mp (mem_linkRecords.mp second)).2
  have same : (record.id == other.id) = true := BEq.trans origin (BEq.symm originToo)
  exact typed.eq_of_id_beq (List.mem_filter.mp member).1 (List.mem_filter.mp otherIn).1 same

/-- No relationship comes from two elements. -/
theorem linkRecords_apart : (document.elements.flatMap document.linkRecords).Nodup := by
  refine List.nodup_flatMap.mpr ⟨fun record _ => typed.linkRecords_nodup record, ?_⟩
  refine List.Pairwise.imp_of_mem ?_ (typed.records_nodup.filter _)
  intro one other oneIn otherIn isApart relation first second
  exact isApart (typed.source_unique oneIn otherIn first second)

end Document.Typed

/-- A relationship of a symbol leads to a symbol, and its record is one of a document under
the id that it came with. -/
structure Link.Mirrors (index : Index) (symbol : Symbol) (link : Link) (relation : Record) :
    Prop where
  carried : link.carried = some relation.id
  goal : ∃ target ∈ index.symbols, link.goal = .loaded target
  record : link.record index symbol.provenance (Draft.idOf index symbol) relation.id = relation

theorem targetName_text {names : List (Key × Key)} (texts : TextNames names) (record : Record) :
    ∃ name, record.targetName names = .text name := by
  unfold Record.targetName
  cases looked : names.lookup ((Key.given? record.target).getD (.text "")) with
  | none => exact ⟨"", rfl⟩
  | some name =>
    obtain ⟨held, _, entry⟩ := Entries.exists_mem_of_lookup looked
    exact texts _ entry

theorem SymbolKind.ofMetaclass_metaclass (kind : SymbolKind) :
    SymbolKind.ofMetaclass kind.metaclass = kind := by
  have every : ∀ kind ∈ SymbolKind.all, SymbolKind.ofMetaclass kind.metaclass = kind := by
    decide +kernel
  exact every kind kind.mem_all

section Mirrored

variable {document : Document} {source : String} {names : List (Key × Key)} {index : Index}
  {symbol : Symbol} {record : Record}

section Typed

variable (typed : document.Typed) (mirrors : index.Mirrors document source names)

include typed

theorem mirrors_unique {one other : Record}
    (first : symbol.Mirrors document source names one) (oneIn : one ∈ document.elements)
    (second : symbol.Mirrors document source names other) (otherIn : other ∈ document.elements) :
    one = other :=
  typed.eq_of_id (List.mem_filter.mp oneIn).1 (List.mem_filter.mp otherIn).1
    (Option.some.inj (first.elementId.symm.trans second.elementId))

theorem elements_nodup : document.elements.Nodup :=
  (List.Nodup.of_map _ typed.ids).filter _

include mirrors

/-- An element has one symbol. -/
theorem eq_of_mirrors {one other : Symbol} (member : record ∈ document.elements)
    (oneIn : one ∈ index.symbols) (first : one.Mirrors document source names record)
    (otherIn : other ∈ index.symbols) (second : other.Mirrors document source names record) :
    one = other := by
  refine related_unique mirrors.symbols (elements_nodup typed) ?_ oneIn first otherIn second
  intro symbol _ mirrored another inside mirroredToo
  exact mirrors_unique typed mirroredToo inside mirrored member

omit typed in
/-- The symbol of an element. -/
theorem symbol_of (member : record ∈ document.elements) :
    ∃ symbol ∈ index.symbols, symbol.Mirrors document source names record :=
  exists_related mirrors.symbols member

omit typed in
theorem record_of (inside : symbol ∈ index.symbols) :
    ∃ record ∈ document.elements, symbol.Mirrors document source names record :=
  exists_related_right mirrors.symbols inside

variable (member : record ∈ document.elements) (inside : symbol ∈ index.symbols)
  (mirrored : symbol.Mirrors document source names record)

include member inside mirrored

/-- The symbol of an element is found by its id. -/
theorem boundTo_mirrored : boundTo index (some record.id) = .ok (some symbol) := by
  have given := typed.id_given (List.mem_filter.mp member).1
  have listed : record.id ∈ index.byId.map (·.1) := by
    refine List.mem_map.mpr ⟨(record.id, symbol), ?_, rfl⟩
    rw [mirrors.ids]
    refine List.mem_filterMap.mpr ⟨symbol, inside, ?_⟩
    exact Option.map_eq_some_iff.mpr ⟨record.id, mirrored.elementId ▸ given, rfl⟩
  obtain ⟨found, looked⟩ : ∃ found, index.lookupId record.id = some found := by
    refine Option.isSome_iff_exists.mp ?_
    rw [Index.lookupId, Entries.lookup_isSome]
    exact List.contains_iff_exists_mem_beq.mpr ⟨_, listed, BEq.rfl⟩
  obtain ⟨held, same, entry⟩ := Entries.exists_mem_of_lookup looked
  rw [mirrors.ids] at entry
  obtain ⟨other, otherIn, pair⟩ := List.mem_filterMap.mp entry
  obtain ⟨otherRecord, recordIn, alike⟩ := record_of mirrors otherIn
  rw [alike.elementId, typed.id_given (List.mem_filter.mp recordIn).1] at pair
  cases pair
  have isRecord := typed.eq_of_id_beq (List.mem_filter.mp member).1
    (List.mem_filter.mp recordIn).1 same
  have isSymbol := eq_of_mirrors typed mirrors member otherIn (isRecord ▸ alike) inside mirrored
  obtain ⟨id, _, isId⟩ := typed.id_text (List.mem_filter.mp member).1
  have proper : record.id.proper = .ok record.id := by rw [isId]; rfl
  rw [boundTo, given]
  change index.lookupId <$> record.id.proper = _
  rw [proper, ← isSymbol, ← looked]
  rfl

omit typed mirrors member inside in
theorem importText_mirrored (texts : TextNames names) :
    ∀ i ∈ symbol.imports, i.text.isProper = true := by
  intro i asked
  rw [mirrored.imports] at asked
  obtain ⟨relation, has, made⟩ := List.mem_filterMap.mp asked
  unfold Record.asImport? at made
  split at made
  · cases made
    obtain ⟨name, isText⟩ := targetName_text texts relation
    exact Import.text_isProper isText
  · cases made

omit member inside in
/-- The references and imports of a symbol whose relationships lead to elements are bound. -/
theorem bound_mirrored (texts : TextNames names)
    (targets : ∀ relation ∈ document.relationsOf record, ∃ target ∈ document.elements,
      relation.target = some target.id) : symbol.Bound index := by
  have bound {relation : Record} (has : relation ∈ document.relationsOf record) :
      ∃ target ∈ index.symbols, boundTo index relation.target = .ok (some target) := by
    obtain ⟨target, targetIn, isTarget⟩ := targets relation has
    obtain ⟨goal, goalIn, isGoal⟩ := symbol_of mirrors targetIn
    rw [isTarget]
    exact ⟨goal, goalIn, boundTo_mirrored typed mirrors targetIn goalIn isGoal⟩
  refine ⟨fun reference asked => ?_, fun i asked => ?_, importText_mirrored mirrored texts⟩
  · rw [mirrored.references] at asked
    obtain ⟨relation, has, made⟩ := List.mem_filterMap.mp asked
    unfold Record.asReference? at made
    split at made
    · cases made
    · obtain ⟨kind, _, rfl⟩ := Option.map_eq_some_iff.mp made
      exact bound has
  · rw [mirrored.imports] at asked
    obtain ⟨relation, has, made⟩ := List.mem_filterMap.mp asked
    unfold Record.asImport? at made
    split at made
    · cases made
      exact bound has
    · cases made

variable (apart : (document.elements.map document.fullName).Nodup)

include apart

/-- The symbol of an element is found by its qualified name, where no two share one. -/
theorem lookup_mirrored : index.lookup (document.fullName record) = some symbol := by
  have named : (symbol.qualifiedName == document.fullName record) = true := by
    rw [mirrored.qualifiedName]
    exact BEq.rfl
  obtain ⟨found, looked⟩ := Option.isSome_iff_exists.mp
    (List.find?_isSome.mpr ⟨symbol, inside, named⟩ :
      (index.symbols.find? fun held =>
        held.qualifiedName == document.fullName record).isSome = true)
  have foundIn := List.mem_of_find?_eq_some looked
  have equal : (found.qualifiedName == document.fullName record) = true := by
    simpa using List.find?_some looked
  obtain ⟨other, otherIn, alike⟩ := record_of mirrors foundIn
  have same : other = record := by
    refine List.inj_on_of_nodup_map apart otherIn member ?_
    obtain ⟨_, name, _, isName⟩ := typed.fullName_text (List.mem_filter.mp otherIn).1
    obtain ⟨_, wanted, _, isWanted⟩ := typed.fullName_text (List.mem_filter.mp member).1
    rw [alike.qualifiedName, isName, isWanted, Key.text_beq] at equal
    rw [isName, isWanted, beq_iff_eq.mp equal]
  rw [Index.lookup, looked,
    eq_of_mirrors typed mirrors member foundIn (same ▸ alike) inside mirrored]

/-- The symbol of an element has the element's id, where no two share a qualified name. -/
theorem idOf_mirrored : Draft.idOf index symbol = record.id := by
  have canonical : Draft.canonical index symbol = symbol := by
    unfold Draft.canonical
    rw [mirrored.qualifiedName,
      lookup_mirrored typed mirrors member inside mirrored apart]
    simp
  rw [Draft.idOf, canonical, mirrored.elementId,
    typed.id_given (List.mem_filter.mp member).1]
  rfl

end Typed

/-- The relationships of a symbol are related to those of its element, where each of its
references and each of its imports gives a relationship that is. -/
theorem links_related {relates : Link → Record → Prop} {memo : Memo}
    (mirrored : symbol.Mirrors document source names record)
    (references : ∀ relation ∈ document.relationsOf record,
      Record.isImportKind relation.kind = false →
      ∃ link, ((relation.asReference? names).bind fun reference =>
        reference.link? symbol (meaning index memo symbol reference)) = some link ∧
          relates link relation)
    (imports : ∀ relation ∈ document.relationsOf record,
      Record.isImportKind relation.kind = true →
      ∃ link, ((relation.asImport? names).bind fun i =>
        (i.link? symbol (naming index (some symbol.qualifiedName) i)).toOption.join) = some link ∧
          relates link relation) :
    List.Forall₂ relates (links index memo symbol) (document.linkRecords record) := by
  rw [links, mirrored.references, mirrored.imports, List.filterMap_filterMap,
    List.filterMap_filterMap]
  refine List.rel_append ?_ ?_
  · refine related_filterMap (fun relation has other => ?_) fun relation has isImport => ?_
    · exact references relation has (by simpa using other)
    · unfold Record.asReference?
      rw [if_pos (by simpa using isImport)]
      rfl
  · refine related_filterMap (imports · · ·) fun relation has other => ?_
    unfold Record.asImport?
    rw [if_neg (by simp [other])]
    rfl

variable {selfContained : Bool} (portable : document.Portable selfContained)
  (mirrors : index.Mirrors document source names)
  (member : record ∈ document.elements) (inside : symbol ∈ index.symbols)
  (mirrored : symbol.Mirrors document source names record)

include portable mirrors member inside mirrored

omit mirrors inside in
theorem provenance_mirrored : record.provenance = .text symbol.provenance := by
  obtain ⟨id, name, qualifiedName, shortName, direction, kind, isLibrary, _, _, _, same⟩ :=
    portable.elements record member
  have given : record.provenance =
      .text (if isLibrary then Record.inlinedProvenance else Record.modelProvenance) := by
    rw [same]
  rw [Symbol.provenance, mirrored.isLibrary, given]
  cases isLibrary <;> rfl

omit inside in
/-- The owner of a symbol is the symbol of the element's owner. -/
theorem ownerOf_mirrored :
    (Draft.ownerOf index symbol).map (Draft.idOf index) = record.owner := by
  unfold Draft.ownerOf
  rw [mirrored.owner, Document.ownerOf?]
  cases has : record.owner with
  | none => rfl
  | some id =>
    obtain ⟨owner, ownerIn, rfl⟩ := portable.owners record member id has
    have known := (List.mem_filter.mp ownerIn).1
    obtain ⟨holder, holderIn, holds⟩ := symbol_of mirrors ownerIn
    obtain ⟨_, name, someName, isName⟩ := portable.typed.fullName_text known
    have given : Key.given? (some (document.fullName owner)) = some (document.fullName owner) := by
      rw [isName]
      simp [Key.given?, Key.isAbsent, Value.isAbsent, Key.text, someName]
    have looked := lookup_mirrored portable.typed mirrors ownerIn holderIn holds portable.fullNames
    rw [portable.typed.id_given known, Option.bind_some, portable.typed.last?_eq known,
      Option.map_some, given, Option.bind_some, looked, Option.map_some,
      idOf_mirrored portable.typed mirrors ownerIn holderIn holds portable.fullNames]

/-- The record of a symbol is the element that it was made of. -/
theorem elementRecord_mirrored :
    Draft.elementRecord index symbol.provenance symbol = record := by
  have id := idOf_mirrored portable.typed mirrors member inside mirrored portable.fullNames
  have owner := ownerOf_mirrored portable mirrors member mirrored
  have provenance := provenance_mirrored portable member mirrored
  have fullName := portable.fullName_eq member
  obtain ⟨_, name, qualifiedName, shortName, direction, kind, isLibrary, _, someName, _, same⟩ :=
    portable.elements record member
  have nameKept : symbol.name.value = record.name := by
    rw [mirrored.name, same]
    exact congrArg Key.value (Document.nameOrEmpty_text someName)
  have kindKept : symbol.kind.metaclass = record.kind := by
    rw [mirrored.kind, same]
    exact congrArg SymbolKind.metaclass (SymbolKind.ofMetaclass_metaclass kind)
  have qualifiedNameKept : symbol.qualifiedName.value = record.qualifiedName := by
    rw [mirrored.qualifiedName, fullName]
  have shortNameKept : (if symbol.shortName.isAbsent then .null else symbol.shortName.value) =
      record.shortName := by
    obtain ⟨serial, rfl⟩ := mirrored
    change (if (Document.nameOrEmpty record.shortName).isAbsent then .null
      else (Document.nameOrEmpty record.shortName).value) = record.shortName
    rw [same]
    by_cases none_ : shortName.isEmpty
    · simp [none_, Document.nameOrEmpty, Value.isAbsent, Key.isAbsent, Key.text]
    · simp [none_, Document.nameOrEmpty, Value.isAbsent, Key.isAbsent]
  have directionKept : (if symbol.direction.isEmpty then []
      else [((.text "direction" : Value), .text symbol.direction)]) = record.properties := by
    obtain ⟨serial, rfl⟩ := mirrored
    change (if (((record.property? "direction").getD (.text "")).display).isEmpty then _
      else [(_, Value.text ((record.property? "direction").getD (.text "")).display)]) = _
    rw [same]
    unfold Record.property?
    cases none_ : direction.isEmpty with
    | true => rfl
    | false =>
      simp only [Bool.false_eq_true, ↓reduceIte, List.lookup_cons, Value.text_beq, BEq.rfl,
        Option.getD_some]
      exact if_neg (Bool.eq_false_iff.mp none_)
  have noSource : record.source = none := by rw [same]
  have noTarget : record.target = none := by rw [same]
  unfold Draft.elementRecord
  rw [id, owner, nameKept, kindKept, qualifiedNameKept, shortNameKept, directionKept, ← provenance]
  obtain ⟨serial, rfl⟩ := mirrored
  cases record
  cases noSource
  cases noTarget
  rfl

omit mirrors inside mirrored in
/-- The relationships that come from an element join it to another. -/
theorem relation_joins {relation : Record} (has : relation ∈ document.relationsOf record) :
    relation ∈ document.records ∧ ∃ target ∈ document.elements, relation.Joins record target := by
  obtain ⟨listed, isOrigin⟩ := List.mem_filter.mp has
  obtain ⟨source, sourceIn, target, targetIn, joins⟩ := portable.relationships relation listed
  rw [portable.origin_eq sourceIn joins] at isOrigin
  obtain rfl : record = source :=
    portable.typed.eq_of_id_beq (List.mem_filter.mp member).1 (List.mem_filter.mp sourceIn).1 isOrigin
  exact ⟨(List.mem_filter.mp listed).1, target, targetIn, joins⟩

/-- The references of a symbol stand for the relationships that they were made of. -/
theorem reference_mirrored (memo : Memo) {relation : Record}
    (has : relation ∈ document.relationsOf record)
    (noImport : Record.isImportKind relation.kind = false) :
    ∃ link, ((relation.asReference? names).bind fun reference =>
        reference.link? symbol (meaning index memo symbol reference)) = some link ∧
      link.Mirrors index symbol relation := by
  obtain ⟨_, target, targetIn, joins⟩ := relation_joins portable member has
  obtain ⟨goal, goalIn, isGoal⟩ := symbol_of mirrors targetIn
  have id := idOf_mirrored portable.typed mirrors member inside mirrored portable.fullNames
  have goalId := idOf_mirrored portable.typed mirrors targetIn goalIn isGoal portable.fullNames
  have provenance := provenance_mirrored portable member mirrored
  have isTarget := joins.ends.2.2
  rcases joins.2 with ⟨kind, same⟩ | ⟨isNamespace, isRecursive, visibility, same⟩
  · have isKind : relation.kind = kind.metaclass := by rw [same]
    have made : relation.asReference? names = some
        { kind, target := relation.targetName names, targetId := relation.target
          targetName := some (relation.targetName names), elementId := some relation.id } := by
      unfold Record.asReference?
      rw [isKind, (RefKind.ofMetaclass?_metaclass kind).1, (RefKind.ofMetaclass?_metaclass kind).2]
      rfl
    rw [made, Option.bind_some]
    generalize asked : (⟨kind, relation.targetName names, {}, relation.target,
      some (relation.targetName names), some relation.id⟩ : Reference) = reference
    have isBound : boundTo index reference.targetId = .ok (some goal) := by
      rw [← asked]
      change boundTo index relation.target = _
      rw [isTarget]
      exact boundTo_mirrored portable.typed mirrors targetIn goalIn isGoal
    have meant : meaning index memo symbol reference = some goal := by
      rw [meaning, resolveReference_bound isBound]
      rfl
    rw [meant]
    subst asked
    refine ⟨_, rfl, rfl, ⟨goal, goalIn, rfl⟩, ?_⟩
    rw [Link.record, Goal.id, goalId, id, ← provenance]
    exact same.symm
  · rw [same, importKind_isImport] at noImport
    cases noImport

omit portable mirrors member inside mirrored in
/-- What an import's relationship becomes again. -/
theorem asImport?_eq (names : List (Key × Key)) {relation target : Record}
    {isNamespace isRecursive : Bool} {visibility : String}
    (same : relation =
      { id := relation.id
        kind :=
          if isNamespace || isRecursive then Record.namespaceImport
          else Record.membershipImport
        name := target.name, owner := some record.id, source := some record.id
        target := some target.id
        properties := [(.text "isRecursive", .bool isRecursive),
          (.text "visibility", .text visibility)]
        provenance := record.provenance }) :
    ∃ isNamespaceNow, relation.asImport? names = some
        { path := relation.targetName names, isNamespace := isNamespaceNow, isRecursive, visibility
          elementId := some relation.id, targetId := relation.target } ∧
      (if isNamespaceNow || isRecursive then Record.namespaceImport
        else Record.membershipImport) = relation.kind := by
  have kindIs : relation.kind = if isNamespace || isRecursive then Record.namespaceImport
      else Record.membershipImport := by rw [same]
  have recursion : relation.property? "isRecursive" = some (.bool isRecursive) := by
    rw [same]
    unfold Record.property?
    dsimp only
    rw [List.lookup_cons, Value.text_beq]
    rfl
  have visible : relation.property? "visibility" = some (.text visibility) := by
    rw [same]
    unfold Record.property?
    dsimp only
    rw [List.lookup_cons, Value.text_beq, List.lookup_cons, Value.text_beq]
    rfl
  have isImport : Record.isImportKind relation.kind = true := by
    rw [kindIs]
    exact importKind_isImport isNamespace isRecursive
  refine ⟨relation.kind == Record.namespaceImport, ?_, ?_⟩
  · unfold Record.asImport?
    rw [if_pos isImport, recursion, visible]
    cases isRecursive <;> rfl
  · rw [kindIs]
    cases isNamespace <;> cases isRecursive <;> decide

/-- The imports of a symbol stand for the relationships that they were made of. -/
theorem import_mirrored {relation : Record} (has : relation ∈ document.relationsOf record)
    (isImport : Record.isImportKind relation.kind = true) :
    ∃ link, ((relation.asImport? names).bind fun i =>
        (i.link? symbol (naming index (some symbol.qualifiedName) i)).toOption.join) = some link ∧
      link.Mirrors index symbol relation := by
  obtain ⟨_, target, targetIn, joins⟩ := relation_joins portable member has
  obtain ⟨goal, goalIn, isGoal⟩ := symbol_of mirrors targetIn
  have id := idOf_mirrored portable.typed mirrors member inside mirrored portable.fullNames
  have goalId := idOf_mirrored portable.typed mirrors targetIn goalIn isGoal portable.fullNames
  have provenance := provenance_mirrored portable member mirrored
  have isTarget := joins.ends.2.2
  rcases joins.2 with ⟨kind, same⟩ | ⟨isNamespace, isRecursive, visibility, same⟩
  · rw [same, (RefKind.ofMetaclass?_metaclass kind).1] at isImport
    cases isImport
  · obtain ⟨isNamespaceNow, made, kindKept⟩ := asImport?_eq names same
    rw [made, Option.bind_some]
    generalize asked : (⟨relation.targetName names, isNamespaceNow, isRecursive, visibility, {},
      some relation.id, relation.target⟩ : Import) = i
    have isBound : boundTo index i.targetId = .ok (some goal) := by
      rw [← asked]
      change boundTo index relation.target = _
      rw [isTarget]
      exact boundTo_mirrored portable.typed mirrors targetIn goalIn isGoal
    have named : naming index (some symbol.qualifiedName) i = some goal := by
      rw [naming, resolveImport_bound isBound]
      rfl
    have goalName : goal.name.value = target.name := by
      obtain ⟨_, _, _, _, _, _, _, _, someName, _, isElement⟩ :=
        portable.elements target targetIn
      rw [isGoal.name, isElement]
      exact congrArg Key.value (Document.nameOrEmpty_text someName)
    rw [named]
    subst asked
    refine ⟨_, rfl, rfl, ⟨goal, goalIn, rfl⟩, ?_⟩
    change ({
      id := relation.id
      kind := if isNamespaceNow || isRecursive then Record.namespaceImport
        else Record.membershipImport
      name := goal.name.value, owner := some (Draft.idOf index symbol)
      source := some (Draft.idOf index symbol), target := some (Draft.idOf index goal)
      properties := [(.text "isRecursive", .bool isRecursive),
        (.text "visibility", .text visibility)]
      provenance := .text symbol.provenance } : Record) = relation
    have kindIs : relation.kind = if isNamespace || isRecursive then Record.namespaceImport
        else Record.membershipImport := by rw [same]
    rw [kindKept, kindIs, goalName, id, goalId, ← provenance]
    exact same.symm

/-- The relationships of a symbol are those of its element. -/
theorem links_mirrored (memo : Memo) :
    List.Forall₂ (Link.Mirrors index symbol) (links index memo symbol)
      (document.linkRecords record) :=
  links_related mirrored
    (fun _ has => reference_mirrored portable mirrors member inside mirrored memo has)
    fun _ has => import_mirrored portable mirrors member inside mirrored has

end Mirrored

end Sysml
