import Sysml.Proofs.Document.Carried
import Sysml.Proofs.Document.Rejoined

/-!
# Documents that are restored

What is composed of an index that recalls a document has the ids of the document, where each
reference means something (`compose`): elements and relationships keep the ids that they were
given.
-/

set_option autoImplicit false

namespace Sysml

open Scope

/-- What is made of some items has what these have. -/
theorem sublist_map_filterMap {α β γ : Type} {make : α → Option β} {first : α → γ}
    {second : β → γ} {items : List α}
    (same : ∀ item made, make item = some made → second made = first item) :
    ((items.filterMap make).map second).Sublist (items.map first) := by
  induction items with
  | nil => exact .slnil
  | cons item rest ih =>
    cases isMade : make item with
    | none =>
      rw [List.filterMap_cons_none isMade]
      exact ih.cons _
    | some made =>
      rw [List.filterMap_cons_some isMade, List.map_cons, List.map_cons, same item made isMade]
      exact ih.cons_cons _

theorem Reference.link?_carried {reference : Reference} {symbol : Symbol} {meant : Option Symbol}
    {link : Link} (made : reference.link? symbol meant = some link) :
    link.carried = reference.elementId := by
  cases meant with
  | some target =>
    cases made
    rfl
  | none =>
    obtain ⟨id, _, rfl⟩ := Option.map_eq_some_iff.mp made
    rfl

theorem Import.link?_carried {i : Import} {symbol : Symbol} {named : Option Symbol} {link : Link}
    (made : i.link? symbol named = .ok (some link)) : link.carried = i.elementId := by
  cases named with
  | some target =>
    cases made
    rfl
  | none =>
    unfold Import.link? at made
    dsimp only at made
    split at made
    · cases made
    · obtain ⟨name, _, same⟩ := result_map_ok made
      cases same
      rfl

/-- The ids that the links of a symbol came with are those of its references and imports. -/
theorem links_carried (index : Index) (memo : Memo) (symbol : Symbol) :
    ((links index memo symbol).map (·.carried)).Sublist
      (symbol.references.map (·.elementId) ++ symbol.imports.map (·.elementId)) := by
  rw [links, List.map_append]
  refine (sublist_map_filterMap fun reference link made => ?_).append
    (sublist_map_filterMap fun i link made => ?_)
  · exact Reference.link?_carried made
  · exact Import.link?_carried (toOption_join_eq_some.mp made)

namespace Document

variable {document : Document} {record relation : Record} {symbol : Symbol}

/-- The relationships of an element in the order of its symbol: references, then imports. -/
def linesOf (document : Document) (record : Record) : List Record :=
  (document.clausesOf record).map (·.2) ++ document.importsOf record

theorem mem_linesOf (listed : relation ∈ document.linesOf record) :
    relation ∈ document.relationshipsOf record.id := by
  rcases List.mem_append.mp listed with clause | isImport
  · obtain ⟨entry, inside, rfl⟩ := List.mem_map.mp clause
    exact (mem_clausesOf.mp inside).1
  · exact (List.mem_filter.mp isImport).1

theorem Told.linesOf_nodup (told : document.Told) (record : Record) :
    (document.linesOf record).Nodup := by
  refine List.nodup_append.mpr ⟨told.clausesOf_nodup record,
    (told.relationshipsOf_nodup record).filter _, ?_⟩
  rintro relation clause other isImport rfl
  obtain ⟨entry, inside, rfl⟩ := List.mem_map.mp clause
  obtain ⟨listed, isKind⟩ := mem_clausesOf.mp inside
  rw [ofMetaclass?_import (List.mem_filter.mp isImport).2] at isKind
  cases isKind

/-- The ids of references and imports are those of the relationships. -/
theorem carried_linesOf (recalls : symbol.RecallsAll document record) :
    symbol.references.map (·.elementId) ++ symbol.imports.map (·.elementId) =
      (document.linesOf record).map fun relation => some relation.id := by
  rw [linesOf, List.map_append, List.map_map]
  congr 1
  · refine (related_map recalls.references fun entry listed reference _ isRecalled => ?_).symm
    exact (isRecalled.found (mem_clausesOf.mp listed).1).symm
  · refine (related_map recalls.imports fun relation listed i _ isRecalled => ?_).symm
    exact (isRecalled.found (List.mem_filter.mp listed).1).symm

/-- A link of a symbol came with the id of a relationship of its element. -/
theorem carried_mem {index : Index} {memo : Memo} (recalls : symbol.RecallsAll document record)
    {link : Link} (linked : link ∈ links index memo symbol) :
    ∃ relation ∈ document.relationshipsOf record.id, link.carried = some relation.id := by
  have listed := (links_carried index memo symbol).subset (List.mem_map_of_mem linked)
  rw [carried_linesOf recalls] at listed
  obtain ⟨relation, isLine, same⟩ := List.mem_map.mp listed
  exact ⟨relation, mem_linesOf isLine, same.symm⟩

end Document

namespace Scope.Index.Recalls

variable {index : Index} {document : Document} {record target relation : Record}
  {symbol : Symbol} {memo : Memo} (recalls : index.Recalls document) (told : document.Told)

include recalls

/-- A package is declared in one piece. -/
theorem canonical (known : symbol ∈ index.symbols) : Draft.canonical index symbol = symbol := by
  unfold Draft.canonical
  split
  · split
    · next first looked =>
      have same : first = symbol := recalls.names first (List.mem_of_find?_eq_some looked) symbol
        known (by simpa using List.find?_some looked)
      rw [same]
      split <;> rfl
    · rfl
  · rfl

include told

/-- A symbol has the id of its element. -/
theorem idOf (known : symbol ∈ index.symbols) (member : record ∈ document.elements)
    (isElement : symbol.RecallsAll document record) : Draft.idOf index symbol = record.id := by
  rw [Draft.idOf, recalls.canonical known, isElement.elementId,
    told.portable.typed.id_given (Document.elements_subset document member)]
  rfl

/-- All relationships come with ids, which are apart. -/
theorem carries (serials : (index.symbols.map (·.serial)).Nodup) : Carries index memo := by
  have typed := told.portable.typed
  have alike {one other : Record} {first second : Record}
      (listed : one ∈ document.relationshipsOf first.id)
      (listedToo : other ∈ document.relationshipsOf second.id)
      (same : (some one.id : Option Key) = some other.id) : one = other :=
    typed.eq_of_id (Document.mem_relationshipsOf listed).2
      (Document.mem_relationshipsOf listedToo).2 (Option.some.inj same)
  constructor
  · intro symbol known link linked
    obtain ⟨record, _, isElement⟩ := recalls.known symbol known
    obtain ⟨relation, listed, carried⟩ := Document.carried_mem isElement linked
    obtain ⟨id, someId, isId⟩ := typed.id_text (Document.mem_relationshipsOf listed).2
    exact ⟨id, someId, carried.trans (by rw [isId])⟩
  · refine List.nodup_flatMap.mpr ⟨fun symbol known => ?_, ?_⟩
    · obtain ⟨record, _, isElement⟩ := recalls.known symbol known
      have whole := links_carried index memo symbol
      rw [Document.carried_linesOf isElement] at whole
      refine whole.nodup (List.Nodup.map_on ?_ (told.linesOf_nodup record))
      intro one listed other listedToo same
      exact alike (Document.mem_linesOf listed) (Document.mem_linesOf listedToo) same
    · refine (List.Nodup.of_map _ serials).pairwise_of_forall_ne ?_
      intro one oneIn other otherIn apart carried first second
      obtain ⟨link, linked, isCarried⟩ := List.mem_map.mp first
      obtain ⟨another, linkedToo, isCarriedToo⟩ := List.mem_map.mp second
      obtain ⟨record, member, isElement⟩ := recalls.known one oneIn
      obtain ⟨next, memberToo, isNext⟩ := recalls.known other otherIn
      obtain ⟨relation, listed, isId⟩ := Document.carried_mem isElement linked
      obtain ⟨further, listedToo, isIdToo⟩ := Document.carried_mem isNext linkedToo
      have same := alike listed listedToo
        (isId.symm.trans (isCarried.trans (isCarriedToo.symm.trans isIdToo)))
      have sameRecord : record = next := typed.eq_of_id (Document.elements_subset document member)
        (Document.elements_subset document memberToo) ((told.origin_eq member listed).symm.trans
          (same ▸ told.origin_eq memberToo listedToo))
      exact apart (recalls.unique oneIn otherIn isElement (sameRecord ▸ isNext))
  · intro symbol known
    obtain ⟨record, member, isElement⟩ := recalls.known symbol known
    obtain ⟨id, _, isId⟩ := typed.id_text (Document.elements_subset document member)
    exact ⟨id, (recalls.idOf told known member isElement).trans isId⟩
  · intro symbol known link linked other otherIn same
    obtain ⟨record, _, isElement⟩ := recalls.known symbol known
    obtain ⟨next, member, isNext⟩ := recalls.known other otherIn
    obtain ⟨relation, listed, carried⟩ := Document.carried_mem isElement linked
    obtain ⟨isRelationship, inside⟩ := Document.mem_relationshipsOf listed
    have sameRecord : relation = next := typed.eq_of_id inside
      (Document.elements_subset document member) (Option.some.inj (carried.symm.trans
        (same.trans (congrArg some (recalls.idOf told otherIn member isNext)))))
    have noRelationship := (List.mem_filter.mp member).2
    rw [← sameRecord, (List.mem_filter.mp isRelationship).2] at noRelationship
    cases noRelationship

end Scope.Index.Recalls

/-- Each reference that stands for a relationship means a symbol that its target leads to. -/
def Document.Meant (document : Document) (index : Index) (memo : Memo)
    (leads : Record → Symbol → Prop) : Prop :=
  ∀ symbol ∈ index.symbols, ∀ record ∈ document.elements, symbol.RecallsAll document record →
    ∀ reference ∈ symbol.references, ∀ relation target, document.Relates relation record target →
      reference.StandsFor relation target →
      ∃ goal ∈ index.symbols, meaning index memo symbol reference = some goal ∧ leads target goal

namespace Scope.Index.Recalls

variable {index : Index} {document : Document} {record target relation : Record}
  {symbol : Symbol} {memo : Memo} (recalls : index.Recalls document) (told : document.Told)
  {leads : Record → Symbol → Prop} (meant : document.Meant index memo leads)
  (named : ∀ target goal, goal.RecallsAll document target → leads target goal)

include recalls told meant named

/-- A relationship of an element is a link of its symbol. -/
theorem linked (relates : document.Relates relation record target) (known : symbol ∈ index.symbols)
    (isElement : symbol.RecallsAll document record) :
    ∃ link ∈ links index memo symbol, link.carried = some relation.id ∧
      link.kind = relation.kind ∧
      ∃ goal ∈ index.symbols, link.goal = .loaded goal ∧ leads target goal := by
  rcases told.relates_stands relates isElement with ⟨reference, asked, stands⟩ | ⟨i, asked, stands⟩
  · obtain ⟨goal, goalIn, isMeant, isLed⟩ := meant symbol known record relates.sourceIn isElement
      reference asked relation target relates stands
    obtain ⟨link, made, carried, isKind, isGoal⟩ : ∃ link,
        reference.link? symbol (meaning index memo symbol reference) = some link ∧
          link.carried = reference.elementId ∧ link.kind = reference.kind.metaclass ∧
          link.goal = .loaded goal := by
      rw [isMeant]
      exact ⟨_, rfl, rfl, rfl, rfl⟩
    refine ⟨link, List.mem_append_left _ (List.mem_filterMap.mpr ⟨reference, asked, made⟩), ?_⟩
    exact ⟨carried.trans stands.elementId, isKind.trans stands.kind.symm, goal, goalIn, isGoal, isLed⟩
  · obtain ⟨goal, goalIn, isGoal, resolved⟩ :=
      recalls.resolveImport relates.targetIn stands (some symbol.qualifiedName)
    obtain ⟨link, made, carried, isKind, loaded⟩ : ∃ link,
        i.link? symbol (naming index (some symbol.qualifiedName) i) = .ok (some link) ∧
          link.carried = i.elementId ∧
          link.kind = (if i.isNamespace || i.isRecursive then Record.namespaceImport
            else Record.membershipImport) ∧ link.goal = .loaded goal := by
      rw [naming, resolved]
      exact ⟨_, rfl, rfl, rfl, rfl⟩
    refine ⟨link, List.mem_append_right _ (List.mem_filterMap.mpr ⟨i, asked, ?_⟩),
      carried.trans stands.elementId, isKind.trans ?_, goal, goalIn, loaded, named target goal isGoal⟩
    · rw [made]
      rfl
    · have isImport := stands.kind
      rw [Record.isImportKind, Bool.or_eq_true, beq_iff_eq, beq_iff_eq] at isImport
      rw [stands.stars]
      rcases isImport with same | same
      · rw [same]
        rfl
      · rw [same]
        rfl

/-- What is composed has the ids of the document, and its relationships with their sources. -/
theorem compose (inside : memo.Within index) (serials : (index.symbols.map (·.serial)).Nodup)
    (answered : ∀ symbol ∈ index.symbols, Answered index memo symbol) {selfContained : Bool} :
    ∃ draft, outcome (Draft.compose index selfContained index.symbols) { memo } =
        (.ok ⟨⟩, draft) ∧
      (∀ id, id ∈ draft.records.map (·.id) ↔ id ∈ document.ids) ∧
      ∀ relation source target, document.Relates relation source target →
        ∃ kept ∈ draft.records, kept.id = relation.id ∧ kept.kind = relation.kind ∧
          kept.source = relation.source ∧
          ∃ goal ∈ index.symbols, kept.target = some (Draft.idOf index goal) ∧ leads target goal := by
  have user : ∀ symbol ∈ index.symbols, symbol.isLibrary = false := by
    intro symbol known
    obtain ⟨record, _, isElement⟩ := recalls.known symbol known
    exact isElement.library
  have carries : Carries index memo := recalls.carries told serials
  obtain ⟨draft, ran, carrying⟩ :=
    Draft.compose_settled recalls.ids inside user carries answered serials
  have kept {relation source target : Record} (relates : document.Relates relation source target) :
      ∃ kept ∈ draft.records, kept.id = relation.id ∧ kept.kind = relation.kind ∧
        kept.source = relation.source ∧
        ∃ goal ∈ index.symbols, kept.target = some (Draft.idOf index goal) ∧ leads target goal := by
    obtain ⟨symbol, known, isElement⟩ := recalls.told source relates.sourceIn
    obtain ⟨link, isLink, carried, isKind, goal, goalIn, isGoal, isLed⟩ :=
      recalls.linked told meant named relates known isElement
    refine ⟨_, carrying.relationships symbol known link isLink, ?_, isKind, ?_, goal, goalIn, ?_,
      isLed⟩
    · rw [Link.kept, Link.record, carried]
      rfl
    · rw [relates.joins.ends.2.1, ← recalls.idOf told known relates.sourceIn isElement]
      rfl
    · rw [Link.kept, Link.record, isGoal]
      rfl
  have own {made : Record} (madeIn : made ∈ draft.records) :
      ∃ record ∈ document.records, record.id = made.id := by
    rcases carrying.mem made madeIn with ⟨symbol, known, rfl⟩ | ⟨symbol, known, link, isLink, rfl⟩
    · obtain ⟨record, inside, isElement⟩ := recalls.known symbol known
      exact ⟨record, Document.elements_subset document inside,
        (recalls.idOf told known inside isElement).symm⟩
    · obtain ⟨record, _, isElement⟩ := recalls.known symbol known
      obtain ⟨relation, listed, carried⟩ := Document.carried_mem isElement isLink
      refine ⟨relation, (Document.mem_relationshipsOf listed).2, ?_⟩
      rw [Link.kept, Link.record, carried]
      rfl
  refine ⟨draft, ran, fun id => ⟨fun member => ?_, fun member => ?_⟩, fun _ _ _ => kept⟩
  · obtain ⟨made, madeIn, rfl⟩ := List.mem_map.mp member
    exact List.mem_map.mpr (own madeIn)
  · obtain ⟨record, inside, rfl⟩ := List.mem_map.mp member
    cases isRelationship : record.isRelationship with
    | true =>
      obtain ⟨source, target, relates⟩ :=
        told.relates (List.mem_filter.mpr ⟨inside, isRelationship⟩)
      obtain ⟨made, madeIn, sameId, _⟩ := kept relates
      exact List.mem_map.mpr ⟨made, madeIn, sameId⟩
    | false =>
      have element : record ∈ document.elements :=
        List.mem_filter.mpr ⟨inside, by simp [isRelationship]⟩
      obtain ⟨symbol, known, isElement⟩ := recalls.told record element
      have held := carrying.elements symbol known
      rw [recalls.idOf told known element isElement] at held
      obtain ⟨made, madeIn, same⟩ := List.any_eq_true.mp held
      obtain ⟨other, otherIn, isOther⟩ := own madeIn
      rw [← isOther] at same
      rw [← told.portable.typed.eq_of_id_beq otherIn inside same, isOther]
      exact List.mem_map_of_mem madeIn

end Scope.Index.Recalls

end Sysml
