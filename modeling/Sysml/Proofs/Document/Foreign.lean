import Sysml.Proofs.Document.Carried
import Sysml.Proofs.Document.Mirrored

/-!
# Documents of any origin

In a document that was not made by an export, elements may share qualified names, and
relationships may lead outside. Still each relationship of its symbols stands for one of
the document, under the id that it came with (`links_stem`). Packages that share a
qualified name become pieces of one package, which has the id of the first (`standIn`).
-/

set_option autoImplicit false

namespace Sysml

open Scope

/-- The kind that a relationship has when it is made again: an import of all that is below
an element imports a namespace. -/
def Record.kindAgain (relation : Record) : String :=
  if Record.isImportKind relation.kind &&
      !((relation.property? "isRecursive").getD (.bool false)).isAbsent then
    Record.namespaceImport
  else relation.kind

def Record.meant (relation : Record) (index : Index) (memo : Memo) (names : List (Key × Key))
    (symbol : Symbol) : Option Symbol :=
  ((relation.asReference? names).bind (meaning index memo symbol)).or
    ((relation.asImport? names).bind (naming index (some symbol.qualifiedName)))

/-- A relationship of a symbol stands for one of a document: it has its id and leads to
what that leads to. -/
structure Link.Stems (index : Index) (memo : Memo) (names : List (Key × Key)) (symbol : Symbol)
    (link : Link) (relation : Record) : Prop where
  carried : link.carried = some relation.id
  kind : link.kind = relation.kindAgain
  loaded : ∀ target, relation.meant index memo names symbol = some target →
    link.goal = .loaded target
  outside : relation.meant index memo names symbol = none → ∃ id name,
    relation.target = some id ∧ link.goal = .outside id name

/-- The element whose id the symbol of an element has: of packages that share a qualified
name the first, if nothing else of that name comes before. -/
def Document.standIn (document : Document) (record : Record) : Record :=
  if (SymbolKind.ofMetaclass record.kind).isPackage then
    ((document.elements.find? fun other => document.fullName other == document.fullName record).filter
      fun first => (SymbolKind.ofMetaclass first.kind).isPackage).getD record
  else record

section Standing

variable {document : Document} {source : String} {names : List (Key × Key)} {index : Index}
  {symbol : Symbol} {record : Record}

theorem standIn_mem (member : record ∈ document.elements) :
    document.standIn record ∈ document.elements := by
  unfold Document.standIn
  split
  · cases found : (document.elements.find? fun other =>
        document.fullName other == document.fullName record).filter
          fun first => (SymbolKind.ofMetaclass first.kind).isPackage with
    | none => exact member
    | some first => exact List.mem_of_find?_eq_some (Option.filter_eq_some_iff.mp found).1
  · exact member

/-- What stands in for an element stands for itself. -/
theorem standIn_standIn (record : Record) :
    document.standIn (document.standIn record) = document.standIn record := by
  cases isPackage : (SymbolKind.ofMetaclass record.kind).isPackage with
  | false => simp [Document.standIn, isPackage]
  | true =>
    cases found : (document.elements.find? fun other =>
        document.fullName other == document.fullName record).filter
          fun first => (SymbolKind.ofMetaclass first.kind).isPackage with
    | none =>
      have itself : document.standIn record = record := by
        rw [Document.standIn, if_pos isPackage, found]
        rfl
      rw [itself, itself]
    | some first =>
      have isFirst : document.standIn record = first := by
        rw [Document.standIn, if_pos isPackage, found]
        rfl
      obtain ⟨looked, firstPackage⟩ := Option.filter_eq_some_iff.mp found
      have same : (document.fullName first == document.fullName record) = true := by
        simpa using List.find?_some looked
      have sought : (fun other => document.fullName other == document.fullName first) =
          fun other => document.fullName other == document.fullName record := by
        funext other
        rw [Bool.eq_iff_iff]
        exact ⟨fun alike => BEq.trans alike same, fun alike => BEq.trans alike (BEq.symm same)⟩
      rw [isFirst, Document.standIn, if_pos firstPackage, sought, found]
      rfl

/-- The id of a symbol is that of the element that stands in for its own. -/
theorem idOf_standIn (typed : document.Typed) (mirrors : index.Mirrors document source names)
    (member : record ∈ document.elements)
    (mirrored : symbol.Mirrors document source names record) :
    Draft.idOf index symbol = (document.standIn record).id := by
  have idOf_of {other : Symbol} {standsFor : Record} (isElement : standsFor ∈ document.elements)
      (alike : other.Mirrors document source names standsFor)
      (canonical : Draft.canonical index symbol = other) :
      Draft.idOf index symbol = standsFor.id := by
    rw [Draft.idOf, canonical, alike.elementId,
      typed.id_given (List.mem_filter.mp isElement).1]
    rfl
  have looked : Option.Rel (Symbol.Mirrors document source names)
      (index.lookup symbol.qualifiedName)
      (document.elements.find? fun other =>
        document.fullName other == document.fullName record) := by
    refine related_find? mirrors.symbols fun one _ other _ alike => ?_
    rw [alike.qualifiedName, mirrored.qualifiedName]
  unfold Document.standIn
  rw [← mirrored.kind]
  cases isPackage : symbol.kind.isPackage with
  | false =>
    refine idOf_of member mirrored ?_
    rw [Draft.canonical, isPackage]
    rfl
  | true =>
    rw [if_pos rfl]
    cases found : index.lookup symbol.qualifiedName with
    | none =>
      rw [found] at looked
      cases first : document.elements.find? fun other =>
          document.fullName other == document.fullName record with
      | some other => rw [first] at looked; cases looked
      | none =>
        refine idOf_of member mirrored ?_
        rw [Draft.canonical, isPackage, found]
        rfl
    | some other =>
      rw [found] at looked
      cases first : document.elements.find? fun other =>
          document.fullName other == document.fullName record with
      | none => rw [first] at looked; cases looked
      | some standsFor =>
        rw [first] at looked
        cases looked with
        | some alike =>
          rw [Option.filter_some, ← alike.kind]
          cases otherPackage : other.kind.isPackage with
          | true =>
            refine idOf_of (List.mem_of_find?_eq_some first) alike ?_
            rw [Draft.canonical, isPackage, found]
            simp [otherPackage]
          | false =>
            refine idOf_of member mirrored ?_
            rw [Draft.canonical, isPackage, found]
            simp [otherPackage]

end Standing

section Stemming

variable {document : Document} {source : String} {names : List (Key × Key)} {index : Index}
  {symbol : Symbol} {record relation : Record}

/-- A reference stands for the relationship that it was made of, whatever it means. -/
theorem reference_stems (memo : Memo) (supported : Record.isRelationshipKind relation.kind = true)
    (noImport : Record.isImportKind relation.kind = false) {id : Key}
    (given : Key.given? relation.target = some id) :
    ∃ link, ((relation.asReference? names).bind fun reference =>
        reference.link? symbol (meaning index memo symbol reference)) = some link ∧
      link.Stems index memo names symbol relation := by
  have isReference : (RefKind.ofMetaclass? relation.kind).isSome = true := by
    rwa [Record.isRelationshipKind, noImport, Bool.or_false] at supported
  obtain ⟨kind, isKind⟩ := Option.isSome_iff_exists.mp isReference
  have metaclass : kind.metaclass = relation.kind := by simpa using List.find?_some isKind
  have kindKept : relation.kindAgain = relation.kind := by
    rw [Record.kindAgain, noImport]
    rfl
  have hasTarget : relation.target = some id := (Option.filter_eq_some_iff.mp given).1
  have noNaming : relation.asImport? names = none := by
    rw [Record.asImport?, noImport]
    rfl
  have made : relation.asReference? names = some
      { kind, target := relation.targetName names, targetId := relation.target
        targetName := some (relation.targetName names), elementId := some relation.id } := by
    unfold Record.asReference?
    rw [noImport, isKind]
    rfl
  generalize asked : (⟨kind, relation.targetName names, {}, relation.target,
    some (relation.targetName names), some relation.id⟩ : Reference) = reference at made
  have meant : relation.meant index memo names symbol = meaning index memo symbol reference := by
    rw [Record.meant, made, noNaming]
    exact Option.or_none
  rw [made, Option.bind_some]
  cases found : meaning index memo symbol reference with
  | some target =>
    rw [found] at meant
    subst asked
    refine ⟨_, rfl, rfl, metaclass.trans kindKept.symm, fun other same => ?_, fun none_ => ?_⟩
    · rw [meant] at same
      rw [Option.some.inj same]
    · rw [meant] at none_
      cases none_
  | none =>
    rw [found] at meant
    subst asked
    unfold Reference.link?
    dsimp only
    rw [given]
    refine ⟨_, rfl, rfl, metaclass.trans kindKept.symm, fun other same => ?_, fun _ => ?_⟩
    · rw [meant] at same
      cases same
    · exact ⟨id, _, hasTarget, rfl⟩

/-- An import stands for the relationship that it was made of, whatever it names. -/
theorem import_stems (memo : Memo) (texts : TextNames names)
    (isImport : Record.isImportKind relation.kind = true) {id : Key}
    (given : Key.given? relation.target = some id) :
    ∃ link, ((relation.asImport? names).bind fun i =>
        (i.link? symbol (naming index (some symbol.qualifiedName) i)).toOption.join) = some link ∧
      link.Stems index memo names symbol relation := by
  have hasTarget : relation.target = some id := (Option.filter_eq_some_iff.mp given).1
  have noReference : relation.asReference? names = none := if_pos isImport
  have made : relation.asImport? names = some
      { path := relation.targetName names
        isNamespace := relation.kind == Record.namespaceImport
        isRecursive := !((relation.property? "isRecursive").getD (.bool false)).isAbsent
        visibility := ((relation.property? "visibility").getD (.text "private")).display
        elementId := some relation.id, targetId := relation.target } := if_pos isImport
  have kindIs : (if (relation.kind == Record.namespaceImport) ||
      !((relation.property? "isRecursive").getD (.bool false)).isAbsent then
        Record.namespaceImport else Record.membershipImport) = relation.kindAgain := by
    rw [Record.kindAgain, isImport]
    cases isRecursive : !((relation.property? "isRecursive").getD (.bool false)).isAbsent with
    | true => simp
    | false =>
      rcases Bool.or_eq_true_iff.mp isImport with space | one
      · rw [space, beq_iff_eq.mp space]
        rfl
      · rw [beq_iff_eq.mp one]
        decide
  generalize asked : (⟨relation.targetName names, relation.kind == Record.namespaceImport,
    !((relation.property? "isRecursive").getD (.bool false)).isAbsent,
    ((relation.property? "visibility").getD (.text "private")).display, {}, some relation.id,
    relation.target⟩ : Import) = i at made
  have meant : relation.meant index memo names symbol =
      naming index (some symbol.qualifiedName) i := by
    rw [Record.meant, made, noReference]
    rfl
  rw [made, Option.bind_some]
  cases found : naming index (some symbol.qualifiedName) i with
  | some target =>
    rw [found] at meant
    subst asked
    refine ⟨_, rfl, rfl, kindIs, fun other same => ?_, fun none_ => ?_⟩
    · rw [meant] at same
      rw [Option.some.inj same]
    · rw [meant] at none_
      cases none_
  | none =>
    rw [found] at meant
    subst asked
    obtain ⟨name, isText⟩ := targetName_text texts relation
    have last : lastPiece (relation.targetName names) =
        .ok ((QualifiedName.pieces name).getLast?.getD "") := by
      rw [isText]
      rfl
    unfold Import.link?
    dsimp only
    rw [given]
    dsimp only
    rw [last]
    refine ⟨_, rfl, rfl, kindIs, fun other same => ?_, fun _ => ?_⟩
    · rw [meant] at same
      cases same
    · exact ⟨id, _, hasTarget, rfl⟩

theorem imports_linked (texts : TextNames names)
    (mirrored : symbol.Mirrors document source names record)
    (given : ∀ relation ∈ document.relationships, ∃ id, Key.given? relation.target = some id) :
    ∀ i ∈ symbol.imports, ∃ link?,
      i.link? symbol (naming index (some symbol.qualifiedName) i) = .ok link? := by
  intro i has
  rw [mirrored.imports] at has
  obtain ⟨relation, from_, made⟩ := List.mem_filterMap.mp has
  have isImport : Record.isImportKind relation.kind = true := by
    by_contra other
    rw [Record.asImport?, if_neg other] at made
    cases made
  obtain ⟨id, isGiven⟩ := given relation (List.mem_filter.mp from_).1
  obtain ⟨link, linked, _⟩ := @import_stems names index symbol relation [] texts isImport id isGiven
  rw [made, Option.bind_some] at linked
  exact ⟨some link, toOption_join_eq_some.mp linked⟩

/-- The relationships of a symbol stand for those of its element. -/
theorem links_stem (memo : Memo) (texts : TextNames names)
    (mirrored : symbol.Mirrors document source names record)
    (supported : ∀ relation ∈ document.relationships,
      Record.isRelationshipKind relation.kind = true)
    (given : ∀ relation ∈ document.relationships, ∃ id, Key.given? relation.target = some id) :
    List.Forall₂ (Link.Stems index memo names symbol) (links index memo symbol)
      (document.linkRecords record) := by
  refine links_related mirrored (fun relation has noImport => ?_) fun relation has isImport => ?_
  · have listed := (List.mem_filter.mp has).1
    obtain ⟨id, isGiven⟩ := given relation listed
    exact reference_stems memo (supported relation listed) noImport isGiven
  · obtain ⟨id, isGiven⟩ := given relation (List.mem_filter.mp has).1
    exact import_stems memo texts isImport isGiven

end Stemming

section Carrying

variable {document : Document} {source : String} {names : List (Key × Key)} {index : Index}
  {memo : Memo} (typed : document.Typed) (mirrors : index.Mirrors document source names)
  (stemmed : ∀ symbol ∈ index.symbols, ∀ record ∈ document.elements,
    symbol.Mirrors document source names record →
      List.Forall₂ (Link.Stems index memo names symbol) (links index memo symbol)
        (document.linkRecords record))

include typed mirrors stemmed

omit typed in
/-- A relationship of a symbol stands for one of the document's. -/
theorem relation_of_link {symbol : Symbol} (inside : symbol ∈ index.symbols) {link : Link}
    (linked : link ∈ links index memo symbol) : ∃ relation ∈ document.relationships,
      link.Stems index memo names symbol relation := by
  obtain ⟨record, member, mirrored⟩ := record_of mirrors inside
  obtain ⟨relation, has, stems⟩ :=
    exists_related_right (stemmed symbol inside record member mirrored) linked
  exact ⟨relation, (List.mem_filter.mp (Document.Typed.mem_linkRecords.mp has)).1, stems⟩

/-- All relationships of the symbols of a document came with ids of their own. -/
theorem carries_mirrored : Carries index memo where
  ids := by
    intro symbol inside link linked
    obtain ⟨relation, listed, stems⟩ := relation_of_link mirrors stemmed inside linked
    obtain ⟨id, someId, isId⟩ := typed.id_text (List.mem_filter.mp listed).1
    exact ⟨id, someId, stems.carried.trans (by rw [isId])⟩
  apart := by
    have same : (index.symbols.flatMap fun symbol => (links index memo symbol).map (·.carried)) =
        ((document.elements.flatMap document.linkRecords).map (·.id)).map some := by
      rw [List.map_map, List.map_flatMap, List.flatMap_def, List.flatMap_def]
      refine congrArg List.flatten (related_map mirrors.symbols ?_)
      intro symbol inside record member mirrored
      exact related_map (stemmed symbol inside record member mirrored)
        fun link _ relation _ stems => stems.carried
    have ids := typed.ids_nodup typed.linkRecords_apart fun relation member => by
      obtain ⟨record, _, has⟩ := List.mem_flatMap.mp member
      exact Document.Typed.linkRecords_subset record has
    rw [same]
    exact ids.map fun _ _ => Option.some.inj
  elements := by
    intro symbol inside
    obtain ⟨record, member, mirrored⟩ := record_of mirrors inside
    obtain ⟨id, _, isId⟩ := typed.id_text (List.mem_filter.mp (standIn_mem member)).1
    exact ⟨id, (idOf_standIn typed mirrors member mirrored).trans isId⟩
  strange := by
    intro symbol inside link linked other otherIn same
    obtain ⟨relation, listed, stems⟩ := relation_of_link mirrors stemmed inside linked
    obtain ⟨record, member, mirrored⟩ := record_of mirrors otherIn
    obtain ⟨known, isRelationship⟩ := List.mem_filter.mp listed
    obtain ⟨knownToo, isElement⟩ := List.mem_filter.mp (standIn_mem member)
    rw [stems.carried, idOf_standIn typed mirrors member mirrored] at same
    rw [typed.eq_of_id known knownToo (Option.some.inj same)] at isRelationship
    rw [isRelationship] at isElement
    cases isElement

/-- The ids of the records that are made: those of the elements that stand in for others or
for themselves, and those of all relationships. -/
theorem mem_ids_carrying {draft : Draft} (carrying : Draft.Carrying index memo index.symbols draft)
    (sources : ∀ relation ∈ document.relationships, ∃ record ∈ document.elements,
      relation.source = some record.id) (id : Key) :
    id ∈ draft.records.map (·.id) ↔
      (∃ record ∈ document.elements, (document.standIn record).id = id) ∨
        ∃ relation ∈ document.relationships, relation.id = id := by
  have keptId {symbol : Symbol} {link : Link} {relation : Record}
      (stems : link.Stems index memo names symbol relation) :
      (link.kept index symbol).id = relation.id := by
    simp [Link.kept, Link.record, stems.carried]
  have made : ∀ record ∈ draft.records,
      (∃ element ∈ document.elements, (document.standIn element).id = record.id) ∨
        ∃ relation ∈ document.relationships, relation.id = record.id := by
    intro record member
    rcases carrying.mem record member with ⟨symbol, inside, rfl⟩ | ⟨symbol, inside, link, linked, rfl⟩
    · obtain ⟨element, listed, mirrored⟩ := record_of mirrors inside
      exact .inl ⟨element, listed, (idOf_standIn typed mirrors listed mirrored).symm⟩
    · obtain ⟨relation, listed, stems⟩ := relation_of_link mirrors stemmed inside linked
      exact .inr ⟨relation, listed, (keptId stems).symm⟩
  constructor
  · intro has
    obtain ⟨record, member, rfl⟩ := List.mem_map.mp has
    exact made record member
  · rintro (⟨element, listed, rfl⟩ | ⟨relation, listed, rfl⟩)
    · obtain ⟨symbol, inside, mirrored⟩ := symbol_of mirrors listed
      obtain ⟨record, member, same⟩ := List.any_eq_true.mp (carrying.elements symbol inside)
      rw [idOf_standIn typed mirrors listed mirrored] at same
      have isText : ∃ other ∈ document.records, other.id = record.id := by
        rcases made record member with ⟨other, otherIn, alike⟩ | ⟨other, otherIn, alike⟩
        · exact ⟨_, (List.mem_filter.mp (standIn_mem otherIn)).1, alike⟩
        · exact ⟨other, (List.mem_filter.mp otherIn).1, alike⟩
      obtain ⟨other, otherIn, alike⟩ := isText
      rw [← alike] at same
      have isOther := typed.eq_of_id_beq otherIn (List.mem_filter.mp (standIn_mem listed)).1 same
      exact List.mem_map.mpr ⟨record, member, by rw [← alike, isOther]⟩
    · obtain ⟨element, isElement, isSource⟩ := sources relation listed
      obtain ⟨symbol, inside, mirrored⟩ := symbol_of mirrors isElement
      have has : relation ∈ document.linkRecords element := by
        refine Document.Typed.mem_linkRecords.mpr (List.mem_filter.mpr ⟨listed, ?_⟩)
        rw [Record.origin, isSource, typed.id_given (List.mem_filter.mp isElement).1]
        exact BEq.rfl
      obtain ⟨link, linked, stems⟩ :=
        exists_related (stemmed symbol inside element isElement mirrored) has
      exact List.mem_map.mpr ⟨_, carrying.relationships symbol inside link linked, keptId stems⟩

end Carrying

end Sysml
