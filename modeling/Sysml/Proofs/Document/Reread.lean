import Sysml.Proofs.Document.Recalled

/-!
# Reading a document again

The source text of a document and its companion data give a workspace in which each element
of the document has a symbol that recalls all of it, and there are no other symbols
(`Told.reread`).
-/

set_option autoImplicit false

namespace Sysml

namespace Pin

/-- Entries that describe pins give these. -/
theorem ofValues_map {α : Type} {items : List α} {entry : α → Value} {pin : α → Pin}
    (describes : ∀ item ∈ items, ofValue? (entry item) = .ok (some (pin item))) :
    ofValues (items.map entry) = (items.map pin, none) := by
  induction items with
  | nil => rfl
  | cons item rest ih =>
    obtain ⟨first, others⟩ := List.forall_mem_cons.mp describes
    rw [List.map_cons, ofValues, first, ih others]
    rfl

theorem ofValues_append {entries others : List Value} {pins : List Pin}
    (first : ofValues entries = (pins, none)) :
    ofValues (entries ++ others) = (pins ++ (ofValues others).1, (ofValues others).2) := by
  induction entries generalizing pins with
  | nil =>
    cases first
    rfl
  | cons entry rest ih =>
    rw [ofValues] at first
    rw [List.cons_append, ofValues]
    cases described : ofValue? entry with
    | error failure => simp [described] at first
    | ok pin =>
      simp only [described, Prod.mk.injEq] at first ⊢
      obtain ⟨rfl, noFailure⟩ := first
      rw [ih (Prod.ext rfl noFailure)]
      exact ⟨by rw [List.append_assoc], rfl⟩

/-- Pins that are about other names do nothing to a symbol. -/
theorem foldl_onto_apart {pins : List Pin} {symbol : Symbol}
    (apart : ∀ pin ∈ pins, (symbol.qualifiedName == pin.subject) = false) :
    pins.foldl (fun symbol pin => pin.onto symbol) symbol = symbol := by
  induction pins with
  | nil => rfl
  | cons pin rest ih =>
    obtain ⟨first, others⟩ := List.forall_mem_cons.mp apart
    rw [List.foldl_cons, onto_of_apart first]
    exact ih others

end Pin

theorem Value.field?_object (key : String) (entries : List (String × Value)) :
    (Value.object entries).field? key = entries.lookup key := by
  have entries? : (Value.object entries).entries? =
      some (entries.map fun entry => (.text entry.1, entry.2)) := rfl
  rw [field?, entries?, Option.bind_some]
  induction entries with
  | nil => rfl
  | cons entry rest ih =>
    have same := ih rfl
    rw [List.map_cons, List.lookup_cons, List.lookup_cons, same]
    rw [show (Value.text key == Value.text entry.1) = (key == entry.1) from Value.text_beq ..]

namespace Pin

variable {id kind source target path : String}

theorem ofValue?_element (some_ : id ≠ "") :
    ofValue? (.object [("id", .text id), ("kind", .text kind), ("qualifiedName", .text path)]) =
      .ok (some (.element (.text id) (.text path))) := by
  have present : (Value.text id).isAbsent = false := by simpa [Value.isAbsent] using some_
  have mapping (entries : List (String × Value)) :
      (Value.object entries).entries?.isNone = false := rfl
  have proper (name : String) : Key.proper ⟨.text name⟩ = .ok ⟨.text name⟩ := rfl
  simp [ofValue?, mapping, Value.field?_object, List.lookup_cons, Key.isAbsent, present,
    proper, Key.text, pure, Except.pure, bind, Except.bind]

theorem ofValue?_relationship (some_ : id ≠ "") :
    ofValue? (.object [("id", .text id), ("kind", .text kind), ("source", .text source),
        ("target", .text target)]) =
      .ok (some (.relationship (.text id) (.text source) (.text kind) (.text target))) := by
  have present : (Value.text id).isAbsent = false := by simpa [Value.isAbsent] using some_
  have mapping (entries : List (String × Value)) :
      (Value.object entries).entries?.isNone = false := rfl
  have proper (name : String) : Key.proper ⟨.text name⟩ = .ok ⟨.text name⟩ := rfl
  simp [ofValue?, mapping, Value.field?_object, List.lookup_cons, Key.isAbsent, present,
    proper, Key.text, pure, Except.pure, bind, Except.bind]

end Pin

theorem List.filterMap_of_filter {α β : Type} {items : List α} {make : α → Option β}
    {takes : α → Bool} {made : α → β}
    (taken : ∀ item ∈ items, takes item = true → make item = some (made item))
    (passed : ∀ item ∈ items, takes item = false → make item = none) :
    items.filterMap make = (items.filter takes).map made := by
  rw [← List.filterMap_eq_map, List.filterMap_filter]
  refine List.filterMap_congr fun item member => ?_
  cases takes? : takes item with
  | true => simp [taken item member takes?]
  | false => simp [passed item member takes?]

namespace Document

variable {document : Document} {record relation : Record}

def elementPin (record : Record) : Pin :=
  .element record.id (.text record.path)

def pins (document : Document) : List Pin :=
  document.elements.map elementPin ++ document.relationships.map document.pinOf

section Companion

variable (told : document.Told)

include told

theorem Told.elementEntry (member : record ∈ document.elements) :
    elementEntry? record = some (.object [("id", record.id.value), ("kind", .text record.kind),
        ("qualifiedName", record.qualifiedName)]) ∧
      Pin.ofValue? (.object [("id", record.id.value), ("kind", .text record.kind),
        ("qualifiedName", record.qualifiedName)]) = .ok (some (elementPin record)) := by
  obtain ⟨inside, isElement⟩ := List.mem_filter.mp member
  obtain ⟨id, someId, isId⟩ := told.portable.typed.id_text inside
  obtain ⟨_, _, isPath, somePath⟩ := (told.portable.elements record member).texts
  have present : record.qualifiedName.isAbsent = false := by
    rw [isPath]
    simpa [Value.isAbsent] using somePath
  have noRelationship : record.isRelationship = false := by simpa using isElement
  constructor
  · rw [ elementEntry?, noRelationship, present]
    rfl
  · rw [elementPin, isId, isPath]
    exact Pin.ofValue?_element someId

theorem Told.relationshipEntry (member : relation ∈ document.relationships) :
    document.relationshipEntry? relation = some (.object [("id", relation.id.value),
        ("kind", .text relation.kind), ("source", document.nameOf relation.origin),
        ("target", .text (document.targetPath relation))]) ∧
      Pin.ofValue? (.object [("id", relation.id.value),
        ("kind", .text relation.kind), ("source", document.nameOf relation.origin),
        ("target", .text (document.targetPath relation))]) =
          .ok (some (document.pinOf relation)) := by
  obtain ⟨inside, isRelationship⟩ := List.mem_filter.mp member
  obtain ⟨id, someId, isId⟩ := told.portable.typed.id_text inside
  obtain ⟨source, sourceIn, target, targetIn, joins⟩ := told.portable.relationships relation member
  have isSource : document.nameOf relation.origin = .text source.path := by
    rw [told.portable.origin_eq sourceIn joins, told.portable.nameOf_eq sourceIn]
  have isTarget : document.nameOf ((Key.given? relation.target).getD (.text "")) =
      .text (document.targetPath relation) := by
    rw [joins.ends.2.2, told.portable.typed.id_given (elements_subset document targetIn),
      Option.getD_some, told.portable.nameOf_eq targetIn,
      told.portable.targetPath_eq targetIn joins.ends.2.2]
  constructor
  · rw [ relationshipEntry?, isRelationship, if_pos rfl, isTarget]
  · rw [pinOf, isId, isSource]
    exact Pin.ofValue?_relationship someId

/-- The companion data of a document describe its pins. -/
theorem Told.companion_pins (source : String) :
    ∃ entries, companionEntries (document.companion source) = .ok entries ∧
      Pin.ofValues entries = (document.pins, none) := by
  have elements : document.records.filterMap elementEntry? = document.elements.map fun record =>
      .object [("id", record.id.value), ("kind", .text record.kind),
        ("qualifiedName", record.qualifiedName)] := by
    refine List.filterMap_of_filter (fun record inside isElement => ?_) fun record _ passed => ?_
    · exact (told.elementEntry (List.mem_filter.mpr ⟨inside, isElement⟩)).1
    · have isRelationship : record.isRelationship = true := by simpa using passed
      rw [ elementEntry?, isRelationship]
      rfl
  have relationships : document.records.filterMap document.relationshipEntry? =
      document.relationships.map fun relation => .object [("id", relation.id.value),
        ("kind", .text relation.kind), ("source", document.nameOf relation.origin),
        ("target", .text (document.targetPath relation))] := by
    refine List.filterMap_of_filter (fun record inside isRelationship => ?_)
      fun record _ passed => ?_
    · exact (told.relationshipEntry (List.mem_filter.mpr ⟨inside, isRelationship⟩)).1
    · rw [ relationshipEntry?, passed]
      rfl
  have held : (document.companion source).field? "elements" =
        some (.list (document.records.filterMap elementEntry?)) ∧
      (document.companion source).field? "relationships" =
        some (.list (document.records.filterMap document.relationshipEntry?)) := by
    simp [companion, Value.field?_object, List.lookup_cons]
  have entries : companionEntries (document.companion source) =
      .ok (document.records.filterMap elementEntry? ++
        document.records.filterMap document.relationshipEntry?) := by
    have isMap : ∃ fields, document.companion source = .map fields := ⟨_, rfl⟩
    obtain ⟨fields, isMap⟩ := isMap
    rw [isMap] at held ⊢
    rw [companionEntries, held.1, held.2]
    refine congrArg Except.ok (List.filter_eq_self.mpr fun entry member => ?_)
    rw [elements, relationships] at member
    rcases List.mem_append.mp member with first | second
    · obtain ⟨_, _, rfl⟩ := List.mem_map.mp first
      rfl
    · obtain ⟨_, _, rfl⟩ := List.mem_map.mp second
      rfl
  refine ⟨_, entries, ?_⟩
  rw [elements, relationships, Pin.ofValues_append
      (Pin.ofValues_map fun record member => (told.elementEntry member).2),
    Pin.ofValues_map fun relation member => (told.relationshipEntry member).2]
  rfl

end Companion

/-! ## What the source text says -/

/-- An element stands where its owner says. -/
def Placed (document : Document) (place : Option String) (record : Record) : Prop :=
  place = none ∧ record.owner = none ∨
    ∃ owner, document.OwnedBy record owner ∧ place = some owner.path

end Document

/-- A symbol that was read of an element where it stands. -/
def Symbol.Reads (document : Document) (record : Record) (symbol : Symbol) : Prop :=
  ∃ file place, document.Placed place record ∧ symbol.unplaced =
    { (document.entryOf record).symbol file false place with serial := symbol.serial }

/-- A symbol that stands for an element with all its relationships. -/
abbrev Symbol.RecallsAll (document : Document) (record : Record) (symbol : Symbol) : Prop :=
  symbol.Recalls document (document.relationshipsOf record.id) record

namespace Document

variable {document : Document} {record relation : Record}

section Placing

variable (told : document.Told)

include told

/-- The name of an element inside of its owner is its qualified name. -/
theorem Told.path_eq {place : Option String} (member : record ∈ document.elements)
    (placed : document.Placed place record) :
    (place.elim (document.titleOf record).name fun owner =>
      QualifiedName.join owner (document.titleOf record).name) = record.path := by
  rcases placed with ⟨rfl, unowned⟩ | ⟨owner, ownedBy, rfl⟩
  · rcases told.nested record member with ⟨_, isPath⟩ | ⟨other, isOther, _⟩
    · exact isPath.symm
    · rw [OwnedBy, unowned] at isOther
      cases isOther.2
  · rcases told.nested record member with ⟨unowned, _⟩ | ⟨other, isOther, isPath⟩
    · rw [OwnedBy, unowned] at ownedBy
      cases ownedBy.2
    · rw [told.legible.owner_unique ownedBy isOther]
      exact isPath.symm

/-- A walk meets each element where it stands. -/
theorem Told.walk_placed {place : Option String} {records : List Record}
    {walk : List (Option String × Record)}
    (isWalk : Walk document (fun record => (document.titleOf record).name) place records walk)
    (listed : records ⊆ document.elements)
    (placed : ∀ record ∈ records, document.Placed place record) :
    ∀ met ∈ walk, document.Placed met.1 met.2 := by
  induction isWalk with
  | nil =>
    intro met member
    cases member
  | @cons place record rest inner others below after ihBelow ihAfter =>
    obtain ⟨isElement, further⟩ := List.cons_subset.mp listed
    obtain ⟨first, later⟩ := List.forall_mem_cons.mp placed
    have inside : ∀ met ∈ inner, document.Placed met.1 met.2 := by
      refine ihBelow (below_subset document _) fun other member => .inr ⟨record, ?_, ?_⟩
      · exact ((told.legible.mem_below isElement).mp member).2
      · rw [told.path_eq isElement first]
    intro met member
    rcases List.mem_cons.mp member with rfl | member
    · exact first
    · rcases List.mem_append.mp member with below | behind
      · exact inside met below
      · exact ihAfter further later met behind

/-- Reading the source text of a document gives a symbol for each element. -/
theorem Told.parse_reads (path : String) :
    ∃ text, document.sourceText = .ok text ∧ (Notation.parse path text false).imports = [] ∧
      ∃ records, records.Perm document.elements ∧
        List.Forall₂ (Symbol.Reads document) records
          (Workspace.numbered 0 (Notation.parse path text false).symbols) := by
  obtain ⟨outline, isText, sound, walk, isWalk, symbols⟩ := told.legible.sourceText_outline
  obtain ⟨_, noImports, parsed⟩ := Notation.parse_outline sound path false
  have perm := told.legible.walk_perm isWalk
  have placed := told.walk_placed isWalk (below_subset document none) fun record root =>
    .inl ⟨rfl, (told.legible.mem_roots.mp root).2⟩
  refine ⟨outline.text, isText, noImports, walk.map (·.2), perm, List.forall₂_map_left_iff.mpr ?_⟩
  have unnumbered : (Workspace.numbered 0 (Notation.parse path outline.text false).symbols).map
        (fun symbol => { symbol.unplaced with serial := 0 }) =
      walk.map fun met =>
        { (document.entryOf met.2).symbol path false met.1 with serial := 0 } := by
    rw [symbols path false] at parsed
    have bare := congrArg (List.map fun symbol : Symbol => { symbol with serial := 0 }) parsed
    rw [List.map_map, List.map_map] at bare
    rw [Workspace.map_numbered fun _ _ => rfl]
    exact bare
  refine related_of_map unnumbered.symm fun met member symbol same => ?_
  exact ⟨path, met.1, placed met member,
    congrArg (fun read : Symbol => { read with serial := symbol.serial }) same.symm⟩

end Placing

/-- The references of a text are those of its element, without ids. -/
theorem references_recall {references : List Reference}
    (same : references.map Reference.unplaced =
      (document.titleOf record).clauses.flatMap Notation.clauseReferences) :
    List.Forall₂ (Reference.Recalls document []) (document.clausesOf record) references := by
  have pairs : document.referencePairs record =
      (document.referencesOf record).map fun entry => (entry.1, document.targetPath entry.2) := by
    rw [referencesOf, referencePairs, List.map_filterMap]
    refine List.filterMap_congr fun relation _ => ?_
    cases RefKind.ofMetaclass? relation.kind <;> rfl
  have spread (clauses : List (RefKind × List String)) :
      clauses.flatMap Notation.clauseReferences = (Entries.spread clauses).map fun pair =>
        ({ kind := pair.1, target := .text pair.2 } : Reference) := by
    rw [Entries.spread, List.map_flatMap]
    refine List.flatMap_congr fun clause _ => ?_
    rw [List.map_map]
    rfl
  have listed : references.map Reference.unplaced = (document.clausesOf record).map fun entry =>
      ({ kind := entry.1, target := .text (document.targetPath entry.2) } : Reference) := by
    rw [same, titleOf, pairs, spread, Entries.spread_grouped_map, List.map_map]
    rfl
  refine related_of_map listed.symm fun entry _ reference isReference => ?_
  obtain ⟨kind, target, span, targetId, targetName, elementId⟩ := reference
  cases isReference
  exact ⟨rfl, rfl, rfl, rfl, fun listed => (by cases listed), fun _ => rfl⟩

/-- The imports of a text are those of its element, without ids. -/
theorem imports_recall {imports : List Import}
    (same : imports.map Import.unplaced =
      (document.importLines record).map Notation.ImportLine.imported) :
    List.Forall₂ (Import.Recalls document []) (document.importsOf record) imports := by
  rw [importLines, List.map_map] at same
  refine related_of_map same.symm fun relation _ i isImport => ?_
  have isImport : (document.importLineOf relation).imported = i.unplaced := isImport
  have path : (document.importLineOf relation).imported.path = i.path :=
    (congrArg Import.path isImport).trans rfl
  have isNamespace : ((document.importLineOf relation).reach == .members) = i.isNamespace :=
    (congrArg Import.isNamespace isImport).trans rfl
  have isRecursive : ((document.importLineOf relation).reach == .below) = i.isRecursive :=
    (congrArg Import.isRecursive isImport).trans rfl
  have targetId : none = i.targetId := (congrArg Import.targetId isImport).trans rfl
  have elementId : none = i.elementId := (congrArg Import.elementId isImport).trans rfl
  refine ⟨path.symm, ?_, targetId.symm, fun listed => (by cases listed), fun _ => elementId.symm⟩
  rw [← isNamespace, ← isRecursive, importLineOf]
  by_cases isWildcard : relation.kind = Record.namespaceImport
  · rw [isWildcard]
    cases ((relation.property? "isRecursive").getD .null).isAbsent <;> rfl
  · rw [if_neg isWildcard, beq_eq_false_iff_ne.mpr isWildcard]
    rfl

/-! ## What pins make of a text -/

section Pinning

variable (told : document.Told) {symbol : Symbol}

include told

theorem Told.path_apart {other : Record} (member : record ∈ document.elements)
    (otherIn : other ∈ document.elements) (apart : other ≠ record) : record.path ≠ other.path := by
  intro same
  obtain ⟨_, _, isPath, _⟩ := (told.portable.elements record member).texts
  obtain ⟨_, _, isOther, _⟩ := (told.portable.elements other otherIn).texts
  exact apart (List.inj_on_of_nodup_map told.portable.names otherIn member
    (by rw [isPath, isOther, same]))

theorem Told.read_name (reads : symbol.Reads document record)
    (member : record ∈ document.elements) : symbol.qualifiedName = .text record.path := by
  obtain ⟨file, place, placed, same⟩ := reads
  exact (congrArg Symbol.qualifiedName same).trans (congrArg Key.text (told.path_eq member placed))

/-- What is read of an element recalls it when it has its id. -/
theorem Told.elementPin_recalls (reads : symbol.Reads document record)
    (member : record ∈ document.elements) :
    ((elementPin record).onto symbol).Recalls document [] record := by
  have qualifiedName := told.read_name reads member
  obtain ⟨file, place, placed, same⟩ := reads
  have isSubject : (symbol.qualifiedName == (elementPin record).subject) = true := by
    rw [qualifiedName]
    exact BEq.rfl
  have changed : (elementPin record).changed? symbol =
      .ok (some { symbol with elementId := some record.id }) := rfl
  rw [Pin.onto_of_changed isSubject changed]
  have owner : symbol.owner = place.map .text := (congrArg Symbol.owner same).trans rfl
  refine ⟨(congrArg Symbol.name same).trans rfl, qualifiedName,
    (congrArg Symbol.shortName same).trans rfl, (congrArg Symbol.kind same).trans rfl, ?_,
    (congrArg Symbol.isLibrary same).trans rfl, rfl,
    references_recall ((congrArg Symbol.references same).trans rfl),
    imports_recall ((congrArg Symbol.imports same).trans rfl)⟩
  rcases placed with ⟨rfl, unowned⟩ | ⟨above, ownedBy, rfl⟩
  · exact .inl ⟨unowned, owner⟩
  · exact .inr ⟨above, ownedBy, owner⟩

/-- The pins of elements give a symbol the id of its own one. -/
theorem Told.foldl_elementPins (member : record ∈ document.elements)
    (qualifiedName : symbol.qualifiedName = .text record.path) :
    (document.elements.map elementPin).foldl (fun symbol pin => pin.onto symbol) symbol =
      (elementPin record).onto symbol := by
  obtain ⟨before, after, whole⟩ := List.append_of_mem member
  have distinct : document.elements.Nodup := (List.Nodup.of_map _ told.portable.ids).filter _
  rw [whole, List.nodup_middle, List.nodup_cons] at distinct
  have apart {symbol : Symbol} (isName : symbol.qualifiedName = .text record.path)
      {others : List Record} (part : others ⊆ before ++ after) :
      (others.map elementPin).foldl (fun symbol pin => pin.onto symbol) symbol = symbol := by
    refine Pin.foldl_onto_apart fun pin listed => ?_
    obtain ⟨other, inside, rfl⟩ := List.mem_map.mp listed
    have otherIn : other ∈ document.elements := by
      rw [whole]
      rcases List.mem_append.mp (part inside) with first | second
      · exact List.mem_append_left _ first
      · exact List.mem_append_right _ (List.mem_cons_of_mem _ second)
    have isApart : other ≠ record := by
      rintro rfl
      exact distinct.1 (part inside)
    change (symbol.qualifiedName == Key.text other.path) = false
    rw [isName, Key.text_beq, beq_eq_false_iff_ne]
    exact told.path_apart member otherIn isApart
  rw [whole, List.map_append, List.map_cons, List.foldl_append, List.foldl_cons,
    apart qualifiedName (List.subset_append_left _ _),
    apart (((elementPin record).onto_keeps symbol).2.trans qualifiedName)
      (List.subset_append_right _ _)]

/-- The pins of relationships give a symbol the ids of its own ones, one after the other. -/
theorem Told.foldl_recalls (member : record ∈ document.elements) {before rest : List Record}
    (inside : rest ⊆ document.relationships)
    (whole : document.relationshipsOf record.id =
      before ++ rest.filter fun relation => relation.origin == record.id)
    (recalls : symbol.Recalls document before record) :
    ((rest.map document.pinOf).foldl (fun symbol pin => pin.onto symbol) symbol).Recalls document
      (document.relationshipsOf record.id) record := by
  induction rest generalizing before symbol with
  | nil =>
    rw [whole, List.filter_nil, List.append_nil]
    exact recalls
  | cons relation rest ih =>
    obtain ⟨isRelationship, further⟩ := List.cons_subset.mp inside
    rw [List.map_cons, List.foldl_cons]
    rw [List.filter_cons] at whole
    split at whole
    · refine ih further ?_ (told.onto_recalls member whole recalls)
      rw [whole, List.append_assoc]
      rfl
    · next apart =>
      obtain ⟨source, sourceIn, _, _, joins⟩ :=
        told.portable.relationships relation isRelationship
      have isOrigin := told.portable.origin_eq sourceIn joins
      have isApart : source ≠ record := by
        rintro rfl
        exact apart (by rw [isOrigin]; exact BEq.rfl)
      rw [Pin.onto_of_apart]
      · exact ih further whole recalls
      · change (symbol.qualifiedName == ⟨document.nameOf relation.origin⟩) = false
        rw [isOrigin, told.portable.nameOf_eq sourceIn, recalls.qualifiedName]
        change (Key.text record.path == Key.text source.path) = false
        rw [Key.text_beq, beq_eq_false_iff_ne]
        exact told.path_apart member sourceIn isApart

/-- All pins together make a symbol that was read of an element recall all of it. -/
theorem Told.pins_recall (member : record ∈ document.elements)
    (reads : symbol.Reads document record) :
    (document.pins.foldl (fun symbol pin => pin.onto symbol) symbol).RecallsAll document record := by
  rw [pins, List.foldl_append, told.foldl_elementPins member (told.read_name reads member)]
  exact told.foldl_recalls member (List.Subset.refl _) (List.nil_append _).symm
    (told.elementPin_recalls reads member)

/-- The symbols that were read of different elements have different names. -/
theorem Told.names_nodup {records : List Record} (perm : records.Perm document.elements)
    {symbols : List Symbol} (related : List.Forall₂ (Symbol.Reads document) records symbols) :
    (symbols.map (·.qualifiedName)).Nodup := by
  have names : records.map (fun record => Key.mk record.qualifiedName) =
      symbols.map (·.qualifiedName) :=
    related_map related fun record listed symbol _ reads => by
      have member := perm.subset listed
      rw [told.read_name reads member, (told.portable.elements record member).texts.2.2.1]
      rfl
  have distinct := told.portable.names.map fun (one other : Value) same => congrArg Key.value same
  rw [List.map_map] at distinct
  rw [← names]
  exact (perm.map _).nodup_iff.mpr distinct

omit told in
/-- What companion data say are texts. -/
theorem pins_textual : ∀ pin ∈ document.pins, pin.Textual := by
  intro pin listed
  rcases List.mem_append.mp listed with first | second
  · obtain ⟨record, _, rfl⟩ := List.mem_map.mp first
    trivial
  · obtain ⟨relation, _, rfl⟩ := List.mem_map.mp second
    exact ⟨⟨_, rfl⟩, _, rfl⟩

end Pinning

end Document

/-- A workspace before its index is built, where the elements of a document have one symbol
each, and nothing else has. -/
structure Workspace.Recalls (w : Workspace) (document : Document) : Prop where
  unindexed : w.Unindexed
  user : ∀ file ∈ w.files, file.isLibrary = false
  roots : ∀ file ∈ w.files, file.imports = []
  known : ∀ symbol ∈ w.symbols, ∃ record ∈ document.elements, symbol.RecallsAll document record
  told : ∀ record ∈ document.elements, ∃ symbol ∈ w.symbols, symbol.RecallsAll document record

/-- The source text of a document and its companion data give a workspace that recalls it. -/
theorem Document.Told.reread {document : Document} (told : document.Told) (path : String) :
    ∃ text entries, document.sourceText = .ok text ∧
      Document.companionEntries (document.companion path) = .ok entries ∧
      ∃ total later, (({} : Workspace).load path text false).applyEntries entries =
        (.ok total, later) ∧ later.Recalls document := by
  obtain ⟨text, isText, noImports, records, perm, related⟩ := told.parse_reads path
  obtain ⟨entries, companion, described⟩ := told.companion_pins path
  refine ⟨text, entries, isText, companion, ?_⟩
  set w := ({} : Workspace).load path text false
  have isSymbols : w.symbols = Workspace.numbered 0 (Notation.parse path text false).symbols :=
    Workspace.put_symbols _ _
  have files : ∃ faults, w.files = [⟨path, text, false, w.symbols, [], faults⟩] := by
    refine ⟨(Notation.parse path text false).diagnostics, ?_⟩
    rw [isSymbols, ← noImports]
    rfl
  rw [← isSymbols] at related
  have read {symbol : Symbol} (member : symbol ∈ w.symbols) :
      ∃ record ∈ document.elements, symbol.Reads document record := by
    obtain ⟨record, listed, reads⟩ := exists_related related member
    exact ⟨record, perm.subset listed, reads⟩
  have unindexed : w.Unindexed := by
    refine ⟨rfl, rfl, ?_, fun one oneIn other otherIn same => ?_⟩
    · rw [isSymbols, Workspace.numbered_serials]
      exact List.nodup_range'
    · refine List.inj_on_of_nodup_map (told.names_nodup perm related) oneIn otherIn ?_
      obtain ⟨record, member, reads⟩ := read oneIn
      obtain ⟨next, memberToo, readsToo⟩ := read otherIn
      rw [told.read_name reads member, told.read_name readsToo memberToo, Key.text_beq,
        beq_iff_eq] at same
      rw [told.read_name reads member, told.read_name readsToo memberToo, same]
  obtain ⟨total, ran⟩ := unindexed.applyPins_onto document.pins_textual
  refine ⟨total, _, ?_, unindexed.adjusted (Pin.foldl_keeps document.pins), ?_, ?_, ?_, ?_⟩
  · have proper : (w.symbols.any fun symbol => !symbol.qualifiedName.isProper) = false := by
      refine List.any_eq_false.mpr fun symbol member => ?_
      obtain ⟨record, inside, reads⟩ := read member
      rw [told.read_name reads inside]
      exact Bool.false_ne_true
    rw [Workspace.applyEntries, proper, described]
    exact ran
  · intro file member
    obtain ⟨faults, isFile⟩ := files
    rw [Workspace.adjust, isFile] at member
    rw [List.mem_singleton.mp member]
  · intro file member
    obtain ⟨faults, isFile⟩ := files
    rw [Workspace.adjust, isFile] at member
    rw [List.mem_singleton.mp member]
  · intro symbol member
    rw [Workspace.adjust_symbols] at member
    obtain ⟨old, held, rfl⟩ := List.mem_map.mp member
    obtain ⟨record, inside, reads⟩ := read held
    exact ⟨record, inside, told.pins_recall inside reads⟩
  · intro record member
    obtain ⟨old, held, reads⟩ := exists_related_right related (perm.symm.subset member)
    refine ⟨_, ?_, told.pins_recall member reads⟩
    rw [Workspace.adjust_symbols]
    exact List.mem_map_of_mem held

end Sysml
