import Sysml.Proofs.Document.Carried
import Sysml.Proofs.Document.Mirrored
import Sysml.Proofs.Session.Importing
import Sysml.Proofs.Session.Complete

/-!
# Export, import and export again

A document that was built from texts is taken into a new session, and the document that is
built there has the same records (`buildDocument_again`).
-/

set_option autoImplicit false

/-!
## Making a portable document again

The symbols that a portable document became are taken up again: each has the element it
was made of as its record, and then the relationships that come from it, under the ids they
came with. In the end these are the records of the document (`compose_mirrored`).
-/

namespace Sysml

open Scope

def Document.block (document : Document) (record : Record) : List Record :=
  record :: document.linkRecords record

section Blocks

variable {document : Document} {record other : Record}

theorem block_subset (member : record ∈ document.elements) :
    document.block record ⊆ document.records :=
  List.cons_subset.mpr ⟨(List.mem_filter.mp member).1, Document.Typed.linkRecords_subset record⟩

/-- Of what is there because of an element only that is an element. -/
theorem element_of_block (member : record ∈ document.elements)
    (has : record ∈ document.block other) : record = other := by
  rcases List.mem_cons.mp has with same | isLink
  · exact same
  · have isElement := (List.mem_filter.mp member).2
    rw [Document.Typed.linkRecords_isRelationship isLink] at isElement
    cases isElement

end Blocks

namespace Draft

variable {index : Index} {selfContained : Bool} {provenance : String} {owner : Key}
  {symbol : Symbol} {draft later : Draft}

section Queue

theorem mention_length (target : Symbol) (draft : Draft) :
    (draft.mention index selfContained target).pending.length ≤ draft.pending.length + 1 := by
  unfold mention
  split
  · split
    · simp
    · exact Nat.le_succ _
  · exact Nat.le_succ _

theorem declare_length (symbol : Symbol) (draft : Draft) :
    (draft.declare index selfContained provenance symbol).pending.length ≤
      draft.pending.length + 1 := by
  unfold declare
  split
  · exact Nat.le_succ _
  · cases ownerOf index symbol with
    | none => exact Nat.le_succ _
    | some owner => exact mention_length ..

theorem addLinks_length {links : List Link}
    (loaded : ∀ link ∈ links, ∃ target, link.goal = .loaded target)
    (added : addLinks index selfContained provenance owner links draft = .ok later) :
    later.pending.length ≤ draft.pending.length + links.length := by
  induction links generalizing draft with
  | nil =>
    cases added
    exact Nat.le_refl _
  | cons link rest ih =>
    obtain ⟨middle, first, others⟩ := addLinks_cons_ok added
    obtain ⟨id, _, rfl⟩ := addLink_ok first
    obtain ⟨target, goal⟩ := loaded link List.mem_cons_self
    have more := ih (fun other inside => loaded other (List.mem_cons_of_mem _ inside)) others
    have one : (draft.reach index selfContained link.goal).pending.length ≤
        draft.pending.length + 1 := by
      rw [goal]
      exact mention_length ..
    change later.pending.length ≤
      (draft.reach index selfContained link.goal).pending.length + rest.length at more
    rw [List.length_cons]
    omega

/-- A symbol queues no more than its weight. -/
theorem takenUp_length {memo : Memo}
    (goals : ∀ link ∈ links index memo symbol, ∃ target, link.goal = .loaded target ∧
      target ∈ index.symbols)
    (added : addLinks index selfContained symbol.provenance (idOf index symbol)
      (links index memo symbol) (draft.begun index selfContained symbol.provenance symbol) =
        .ok later) : later.pending.length ≤ draft.pending.length + symbol.weight := by
  have one : (draft.begun index selfContained symbol.provenance symbol).pending.length ≤
      draft.pending.length + 1 := declare_length ..
  have more := addLinks_length
    (fun link linked => (goals link linked).imp fun _ goal => goal.1) added
  have many := links_length index memo symbol
  rw [Symbol.weight]
  omega

theorem drainFuel_eq (index : Index) (draft : Draft) :
    drainFuel index draft = draft.pending.length + totalWeight index.symbols := by
  have go (symbols : List Symbol) (count : Nat) :
      symbols.foldl (fun count symbol => count + symbol.references.length +
        symbol.imports.length + 1) count = count + totalWeight symbols := by
    induction symbols generalizing count with
    | nil => rfl
    | cons symbol rest ih =>
      rw [List.foldl_cons, ih, totalWeight, totalWeight, List.map_cons, List.sum_cons,
        Symbol.weight]
      omega
  exact go _ _

end Queue

/-- Relationships that mirror those of a document are added as its records. -/
theorem addLinks_mirrored {links : List Link} {relations : List Record}
    (related : List.Forall₂ (Link.Mirrors index symbol) links relations)
    (texts : ∀ relation ∈ relations, ∃ id, id ≠ "" ∧ relation.id = .text id)
    (apart : (relations.map (·.id)).Nodup)
    (fresh : ∀ relation ∈ relations, draft.holds relation.id = false) :
    ∃ later, addLinks index selfContained symbol.provenance (idOf index symbol) links draft =
        .ok later ∧ later.records = draft.records ++ relations := by
  have carried : links.map (·.carried) = (relations.map (·.id)).map some := by
    rw [List.map_map]
    exact related_map related fun _ _ _ _ mirrors => mirrors.carried
  have kept : (links.map fun link => link.record index symbol.provenance (idOf index symbol)
      (link.carried.getD (.text ""))) = relations := by
    refine (related_map related fun link _ relation _ mirrors => ?_).trans (List.map_id _)
    rw [mirrors.carried]
    exact mirrors.record
  have ids : ∀ link ∈ links, ∃ id, id ≠ "" ∧ link.carried = some (.text id) := by
    intro link linked
    obtain ⟨relation, member, mirrors⟩ := exists_related_right related linked
    obtain ⟨id, someId, isId⟩ := texts relation member
    exact ⟨id, someId, mirrors.carried.trans (by rw [isId])⟩
  have distinct : (links.map (·.carried)).Nodup := by
    rw [carried]
    exact apart.map fun _ _ => Option.some.inj
  obtain ⟨later, added, records⟩ := @addLinks_carried index selfContained symbol.provenance
    (idOf index symbol) draft links ids distinct fun link linked id isCarried => by
      obtain ⟨relation, member, mirrors⟩ := exists_related_right related linked
      rw [← Option.some.inj (mirrors.carried.symm.trans isCarried)]
      exact fresh relation member
  exact ⟨later, added, kept ▸ records⟩

/-- What holds of the symbols that were taken up again, and of those that are queued. -/
structure Retaking (document : Document) (source : String) (names : List (Key × Key))
    (index : Index) (taken : List Symbol) (draft : Draft) : Prop where
  records : ∃ elements ⊆ document.elements,
    List.Forall₂ (Symbol.Mirrors document source names) taken elements ∧
      draft.records = elements.flatMap document.block
  visited : draft.visited = (taken.map (·.serial)).reverse
  distinct : (taken.map (·.serial)).Nodup
  inside : taken ⊆ index.symbols
  queued : ∀ symbol ∈ draft.pending, symbol ∈ index.symbols ∧ symbol.isLibrary = true
  external : draft.externalRefs = []

section Retaking

variable {document : Document} {source : String} {names : List (Key × Key)}
  {taken : List Symbol} (portable : document.Portable selfContained)
  (mirrors : index.Mirrors document source names) (texts : TextNames names)

theorem Retaking.subset (retaking : Retaking document source names index taken draft) :
    draft.records ⊆ document.records := by
  obtain ⟨elements, part, _, whole⟩ := retaking.records
  intro record member
  rw [whole] at member
  obtain ⟨element, listed, has⟩ := List.mem_flatMap.mp member
  exact block_subset (part listed) has

include portable mirrors

/-- No record is there of a symbol that was not taken up. -/
theorem Retaking.fresh (retaking : Retaking document source names index taken draft)
    (known : symbol ∈ index.symbols) (unseen : symbol.serial ∉ taken.map (·.serial))
    {record : Record} (member : record ∈ document.elements)
    (mirrored : symbol.Mirrors document source names record) {other : Record}
    (has : other ∈ document.block record) : draft.holds other.id = false := by
  refine Bool.eq_false_iff.mpr fun held => ?_
  obtain ⟨found, foundIn, same⟩ := List.any_eq_true.mp held
  have otherIn := block_subset member has
  obtain rfl := portable.typed.eq_of_id_beq (retaking.subset foundIn) otherIn same
  obtain ⟨elements, part, related, whole⟩ := retaking.records
  rw [whole] at foundIn
  obtain ⟨element, listed, hasToo⟩ := List.mem_flatMap.mp foundIn
  have isElement : element = record := by
    rcases List.mem_cons.mp has with rfl | isLink
    · exact (element_of_block member hasToo).symm
    · rcases List.mem_cons.mp hasToo with rfl | isLinkToo
      · exact element_of_block (part listed) has
      · exact portable.typed.source_unique (part listed) member isLinkToo isLink
  obtain ⟨one, isTaken, mirroredToo⟩ := exists_related related listed
  have isSymbol := eq_of_mirrors portable.typed mirrors member (retaking.inside isTaken)
    (isElement ▸ mirroredToo) known mirrored
  exact unseen (isSymbol ▸ List.mem_map_of_mem isTaken)

section TakingUp

variable {record : Record} (retaking : Retaking document source names index taken draft)
  (known : symbol ∈ index.symbols) (unseen : symbol.serial ∉ taken.map (·.serial))
  (member : record ∈ document.elements) (mirrored : symbol.Mirrors document source names record)

include known member mirrored

theorem links_loaded (memo : Memo) : ∀ link ∈ links index memo symbol,
    ∃ target, link.goal = .loaded target ∧ target ∈ index.symbols := by
  intro link linked
  obtain ⟨relation, _, alike⟩ :=
    exists_related_right (links_mirrored portable mirrors member known mirrored memo) linked
  obtain ⟨target, targetIn, goal⟩ := alike.goal
  exact ⟨target, goal, targetIn⟩

include retaking unseen

/-- The record of the symbol is added first. -/
theorem Retaking.begun_records :
    (draft.begun index selfContained symbol.provenance symbol).records =
      draft.records ++ [record] := by
  have isId := idOf_mirrored portable.typed mirrors member known mirrored portable.fullNames
  have isRecord := elementRecord_mirrored portable mirrors member known mirrored
  have unheld : (draft.records.any fun held => held.id == idOf index symbol) = false := by
    rw [isId]
    exact retaking.fresh portable mirrors known unseen member mirrored List.mem_cons_self
  refine (declare_records index selfContained symbol _).trans ?_
  change draft.records ++ declared index draft.records symbol = _
  rw [declared, unheld, isRecord]
  rfl

/-- None of the relationships is there when the symbol begins. -/
theorem Retaking.fresh_links : ∀ relation ∈ document.linkRecords record,
    (draft.begun index selfContained symbol.provenance symbol).holds relation.id = false := by
  intro relation isLink
  have begun : (draft.begun index selfContained symbol.provenance symbol).records =
      (draft.add record).records :=
    retaking.begun_records portable mirrors known unseen member mirrored
  have before : draft.holds relation.id = false :=
    retaking.fresh portable mirrors known unseen member mirrored (List.mem_cons_of_mem _ isLink)
  have last : (record.id == relation.id) = false := by
    refine Bool.eq_false_iff.mpr fun same => ?_
    have isRecord := portable.typed.eq_of_id_beq (List.mem_filter.mp member).1
      (Document.Typed.linkRecords_subset record isLink) same
    have isElement := (List.mem_filter.mp member).2
    rw [isRecord, Document.Typed.linkRecords_isRelationship isLink] at isElement
    cases isElement
  rw [holds_of_records begun, holds_add, before, last]
  rfl

/-- All that is there because of the element is added. -/
theorem Retaking.adds_block :
    ∃ later, addLinks index selfContained symbol.provenance (idOf index symbol)
        (links index draft.memo symbol)
        (draft.begun index selfContained symbol.provenance symbol) = .ok later ∧
      later.records = draft.records ++ document.block record := by
  obtain ⟨later, added, records⟩ := @addLinks_mirrored index selfContained symbol
    (draft.begun index selfContained symbol.provenance symbol) _ _
    (links_mirrored portable mirrors member known mirrored draft.memo)
    (fun relation isLink =>
      portable.typed.id_text (Document.Typed.linkRecords_subset record isLink))
    (portable.typed.ids_nodup (portable.typed.linkRecords_nodup record)
      (Document.Typed.linkRecords_subset record))
    (retaking.fresh_links portable mirrors known unseen member mirrored)
  refine ⟨later, added, ?_⟩
  rw [records, retaking.begun_records portable mirrors known unseen member mirrored,
    List.append_assoc]
  rfl

end TakingUp

include texts

/-- One more symbol is taken up again, and queues no more than its weight. -/
theorem Retaking.takeUp (within : index.IdsWithin)
    (retaking : Retaking document source names index taken draft)
    (known : symbol ∈ index.symbols) (unseen : symbol.serial ∉ taken.map (·.serial))
    (plain : selfContained = true ∨ ∀ symbol ∈ index.symbols, symbol.isLibrary = false) :
    ∃ later, outcome (takeUp index selfContained symbol.provenance symbol) draft =
        (.ok ⟨⟩, later) ∧
      Retaking document source names index (taken ++ [symbol]) later ∧
      later.pending.length ≤ draft.pending.length + symbol.weight := by
  obtain ⟨record, member, mirrored⟩ := record_of mirrors known
  obtain ⟨later, added, records⟩ :=
    retaking.adds_block portable mirrors known unseen member mirrored
  have goals := links_loaded portable mirrors known member mirrored draft.memo
  have bound := bound_mirrored portable.typed mirrors mirrored texts fun relation has => by
    obtain ⟨_, target, targetIn, joins⟩ := relation_joins portable member has
    exact ⟨target, targetIn, joins.ends.2.2⟩
  have unseenNow : draft.visited.contains symbol.serial = false := by
    rw [retaking.visited]
    simpa using unseen
  have visited : later.visited = symbol.serial :: draft.visited := by
    rw [(addLinks_keeps added).1]
    exact declare_visited ..
  refine ⟨later, takeUp_ends within unseenNow (bound.answered draft.memo) added, ?_,
    takenUp_length goals added⟩
  constructor
  case records =>
    obtain ⟨elements, part, relatedBefore, whole⟩ := retaking.records
    refine ⟨elements ++ [record], List.append_subset.mpr ⟨part, by simpa using member⟩,
      List.rel_append relatedBefore (.cons mirrored .nil), ?_⟩
    rw [records, whole, List.flatMap_append, List.flatMap_singleton]
  case visited => simp [visited, retaking.visited]
  case distinct =>
    rw [List.map_append, List.map_singleton, ← List.concat_eq_append]
    exact retaking.distinct.concat unseen
  case inside => exact List.append_subset.mpr ⟨retaking.inside, by simpa using known⟩
  case queued => exact takenUp_queued rfl added goals retaking.queued
  case external => exact (takenUp_external rfl added goals plain).trans retaking.external

omit portable mirrors texts in
/-- Taking a symbol from the queue leaves all as it is. -/
theorem Retaking.pop {rest : List Symbol}
    (retaking : Retaking document source names index taken draft)
    (queue : draft.pending = symbol :: rest) :
    Retaking document source names index taken
      { draft with
        pending := rest
        externalRefs := Entries.erase (idOf index symbol) draft.externalRefs } := by
  refine ⟨retaking.records, retaking.visited, retaking.distinct, retaking.inside,
    fun other member => retaking.queued other (queue ▸ List.mem_cons_of_mem _ member), ?_⟩
  rw [retaking.external]
  rfl

/-- The queue is empty before the fuel is used up. -/
theorem Retaking.drain (within : index.IdsWithin) {fuel : Nat}
    (retaking : Retaking document source names index taken draft)
    (plain : selfContained = true ∨ ∀ symbol ∈ index.symbols, symbol.isLibrary = false)
    (enough : draft.pending.length + totalWeight index.symbols ≤ fuel + totalWeight taken) :
    ∃ inlined later, outcome (drain index selfContained fuel) draft = (.ok ⟨⟩, later) ∧
      Retaking document source names index (taken ++ inlined) later := by
  induction fuel generalizing draft taken with
  | zero =>
    have most := totalWeight_le retaking.distinct retaking.inside
    have empty : draft.pending = [] := List.length_eq_zero_iff.mp (by omega)
    refine ⟨[], draft, ?_, by rwa [List.append_nil]⟩
    rw [Draft.drain, outcome_bind_of_ok (outcome_get draft), empty]
    rfl
  | succ fuel ih =>
    rw [Draft.drain, outcome_bind_of_ok (outcome_get draft)]
    cases queue : draft.pending with
    | nil => exact ⟨[], draft, rfl, by rwa [List.append_nil]⟩
    | cons symbol rest =>
      obtain ⟨known, library⟩ := retaking.queued symbol (queue ▸ List.mem_cons_self)
      have provenance : symbol.provenance = Record.inlinedProvenance := by
        simp [Symbol.provenance, library]
      have popped := retaking.pop queue
      rw [queue, List.length_cons] at enough
      dsimp only
      rw [outcome_bind_of_ok (outcome_modify ..)]
      by_cases seen : symbol.serial ∈ taken.map (·.serial)
      · obtain ⟨inlined, later, ran, final⟩ := ih popped (by dsimp only; omega)
        refine ⟨inlined, later, ?_, final⟩
        have isSeen : (taken.map (·.serial)).reverse.contains symbol.serial = true := by
          simpa using seen
        have skipped : outcome (Draft.takeUp index selfContained Record.inlinedProvenance symbol)
            { draft with
              pending := rest
              externalRefs := Entries.erase (idOf index symbol) draft.externalRefs } =
            (.ok ⟨⟩, { draft with
              pending := rest
              externalRefs := Entries.erase (idOf index symbol) draft.externalRefs }) := by
          rw [takeUp_outcome, popped.visited, isSeen]
          rfl
        rw [outcome_bind_of_ok skipped]
        exact ran
      · obtain ⟨middle, one, between, more⟩ :=
          popped.takeUp portable mirrors texts within known seen plain
        rw [provenance] at one
        obtain ⟨inlined, later, ran, final⟩ := ih between (by
          rw [totalWeight_append, totalWeight_singleton]
          dsimp only at more
          omega)
        refine ⟨symbol :: inlined, later, ?_, by rwa [List.append_cons]⟩
        rw [outcome_bind_of_ok one]
        exact ran

omit mirrors texts in
theorem Retaking.mem_of_holds (retaking : Retaking document source names index taken draft)
    {record : Record} (member : record ∈ document.records)
    (held : draft.holds record.id = true) : record ∈ draft.records := by
  obtain ⟨found, inside, same⟩ := List.any_eq_true.mp held
  exact portable.typed.eq_of_id_beq (retaking.subset inside) member same ▸ inside

omit mirrors texts in
/-- With the source of a relationship the relationship is there. -/
theorem Retaking.mem_of_source (retaking : Retaking document source names index taken draft)
    {relation origin target : Record} (member : relation ∈ document.relationships)
    (originIn : origin ∈ document.elements) (joins : relation.Joins origin target)
    (held : draft.holds origin.id = true) : relation ∈ draft.records := by
  have isHere := retaking.mem_of_holds portable (List.mem_filter.mp originIn).1 held
  obtain ⟨elements, part, related, whole⟩ := retaking.records
  rw [whole] at isHere ⊢
  obtain ⟨element, listed, has⟩ := List.mem_flatMap.mp isHere
  obtain rfl := element_of_block originIn has
  have isLink : relation ∈ document.linkRecords origin := by
    refine Document.Typed.mem_linkRecords.mpr (List.mem_filter.mpr ⟨member, ?_⟩)
    rw [portable.origin_eq originIn joins]
    exact BEq.rfl
  exact List.mem_flatMap_of_mem listed (List.mem_cons_of_mem _ isLink)

omit mirrors texts in
/-- Where nothing is missing that a record refers to, the ids that are there are closed. -/
theorem Retaking.closed (retaking : Retaking document source names index taken draft)
    (ends : ∀ record ∈ draft.records, ∀ id ∈ record.references, draft.holds id = true) :
    Closed document.records fun id => draft.holds id = true := by
  constructor
  case owners =>
    intro record member noRelationship held id owned
    have element : record ∈ document.elements :=
      List.mem_filter.mpr ⟨member, by simp [noRelationship]⟩
    obtain ⟨owner, ownerIn, rfl⟩ := portable.owners record element id owned
    refine ends record (retaking.mem_of_holds portable member held) _ (end_mem_references "owner" ?_
      (portable.typed.id_given (List.mem_filter.mp ownerIn).1))
    rw [← owned]
    exact List.mem_cons_self
  case targets =>
    intro record member source target hasSource hasTarget held
    cases isRelationship : record.isRelationship with
    | false =>
      have element : record ∈ document.elements :=
        List.mem_filter.mpr ⟨member, by simp [isRelationship]⟩
      obtain ⟨_, _, _, _, _, _, _, _, _, _, same⟩ := portable.elements record element
      rw [same] at hasSource
      cases hasSource
    | true =>
      have listed : record ∈ document.relationships :=
        List.mem_filter.mpr ⟨member, isRelationship⟩
      obtain ⟨origin, originIn, goal, goalIn, joins⟩ := portable.relationships record listed
      obtain ⟨_, isSource, isTarget⟩ := joins.ends
      rw [isSource] at hasSource
      rw [isTarget] at hasTarget
      cases hasSource
      cases hasTarget
      have isHere := retaking.mem_of_source portable listed originIn joins held
      refine ends record isHere _ (end_mem_references "target" ?_
        (portable.typed.id_given (List.mem_filter.mp goalIn).1))
      rw [← isTarget]
      exact List.mem_cons_of_mem _ (List.mem_cons_of_mem _ List.mem_cons_self)

omit texts in
/-- The elements of the model's own symbols are there, if these were taken up. -/
theorem Retaking.holds_own (retaking : Retaking document source names index taken draft)
    (own : (index.symbols.filter fun symbol => !symbol.isLibrary) ⊆ taken) {record : Record}
    (member : record ∈ document.elements)
    (isModel : record.provenance = .text Record.modelProvenance) :
    draft.holds record.id = true := by
  obtain ⟨elements, part, related, whole⟩ := retaking.records
  obtain ⟨symbol, known, mirrored⟩ := symbol_of mirrors member
  have user : symbol.isLibrary = false := by
    obtain ⟨serial, rfl⟩ := mirrored
    change record.provenance.isText Record.inlinedProvenance = false
    rw [isModel]
    decide
  have isTaken : symbol ∈ taken := own (List.mem_filter.mpr ⟨known, by simp [user]⟩)
  obtain ⟨element, listed, alike⟩ := exists_related_right related isTaken
  obtain rfl := mirrors_unique portable.typed mirrored member alike (part listed)
  have isHere : record ∈ draft.records := by
    rw [whole]
    exact List.mem_flatMap_of_mem listed List.mem_cons_self
  exact List.any_eq_true.mpr ⟨record, isHere, BEq.rfl⟩

omit texts in
/-- Where the model's own symbols were taken up, and nothing that a record refers to is
missing, all records of the document are there. -/
theorem Retaking.perm (retaking : Retaking document source names index taken draft)
    (apart : draft.records.Pairwise fun one other => (one.id == other.id) = false)
    (ends : ∀ record ∈ draft.records, ∀ id ∈ record.references, draft.holds id = true)
    (own : (index.symbols.filter fun symbol => !symbol.isLibrary) ⊆ taken) :
    draft.records.Perm document.records := by
  have elements := portable.needed _ (retaking.closed portable ends)
    fun record => retaking.holds_own portable mirrors own
  have nodup : draft.records.Nodup := apart.imp fun isApart same => by
    rw [same, BEq.rfl] at isApart
    cases isApart
  refine (List.perm_ext_iff_of_nodup nodup portable.typed.records_nodup).mpr fun record =>
    ⟨fun isHere => retaking.subset isHere, fun member => ?_⟩
  cases isRelationship : record.isRelationship with
  | false =>
    have element : record ∈ document.elements :=
      List.mem_filter.mpr ⟨member, by simp [isRelationship]⟩
    exact retaking.mem_of_holds portable member (elements record element)
  | true =>
    have listed : record ∈ document.relationships := List.mem_filter.mpr ⟨member, isRelationship⟩
    obtain ⟨origin, originIn, target, _, joins⟩ := portable.relationships record listed
    exact retaking.mem_of_source portable listed originIn joins (elements origin originIn)

/-- Composing the symbols of a portable document gives its records again. -/
theorem compose_mirrored (within : index.IdsWithin)
    (serials : (index.symbols.map (·.serial)).Nodup) {memo : Memo}
    (remembers : memo.Within index) :
    ∃ later, outcome (compose index selfContained
        (index.symbols.filter fun symbol => !symbol.isLibrary)) { memo } = (.ok ⟨⟩, later) ∧
      later.records.Perm document.records ∧ later.externalRefs = [] := by
  have plain : selfContained = true ∨ ∀ symbol ∈ index.symbols, symbol.isLibrary = false := by
    cases isWhole : selfContained with
    | true => exact .inl rfl
    | false =>
      refine .inr fun symbol inside => ?_
      obtain ⟨record, member, serial, rfl⟩ := record_of mirrors inside
      change record.provenance.isText Record.inlinedProvenance = false
      rw [portable.own isWhole record member]
      decide
  have taking : ∃ middle,
      outcome ((index.symbols.filter fun symbol => !symbol.isLibrary).forM
        (Draft.takeUp index selfContained Record.modelProvenance)) { memo } = (.ok ⟨⟩, middle) ∧
      Retaking document source names index
        (index.symbols.filter fun symbol => !symbol.isLibrary) middle := by
    refine forM_ends (Retaking document source names index) ?_ ?_
    · exact ⟨⟨[], List.nil_subset _, .nil, rfl⟩, rfl, List.nodup_nil, List.nil_subset _,
        fun _ member => (by cases member), rfl⟩
    · intro done symbol rest before whole retaking
      have listed : symbol ∈ index.symbols.filter fun symbol => !symbol.isLibrary := by
        rw [whole]
        simp
      obtain ⟨known, user⟩ := List.mem_filter.mp listed
      have provenance : symbol.provenance = Record.modelProvenance := by
        simp [Symbol.provenance, by simpa using user]
      have unseen : symbol.serial ∉ done.map (·.serial) := by
        have part : (index.symbols.filter fun symbol => !symbol.isLibrary).Sublist index.symbols :=
          List.filter_sublist
        have distinct := serials.sublist (part.map (·.serial))
        rw [whole, List.map_append, List.map_cons] at distinct
        exact fun seen => (List.nodup_append.mp distinct).2.2 _ seen _ List.mem_cons_self rfl
      obtain ⟨later, ran, after, _⟩ :=
        retaking.takeUp portable mirrors texts within known unseen plain
      rw [provenance] at ran
      exact ⟨later, ran, after⟩
  obtain ⟨middle, own, retaking⟩ := taking
  have enough : middle.pending.length + totalWeight index.symbols ≤
      drainFuel index middle +
        totalWeight (index.symbols.filter fun symbol => !symbol.isLibrary) := by
    rw [drainFuel_eq]
    omega
  obtain ⟨inlined, later, drained, final⟩ :=
    retaking.drain portable mirrors texts within plain enough
  have composed : outcome (compose index selfContained
      (index.symbols.filter fun symbol => !symbol.isLibrary)) { memo } = (.ok ⟨⟩, later) :=
    (outcome_bind_of_ok own).trans ((outcome_bind_of_ok (outcome_get middle)).trans drained)
  refine ⟨later, composed, ?_, final.external⟩
  have owes : Owes index (index.symbols.filter fun symbol => !symbol.isLibrary) :=
    ⟨fun one first other second same => List.inj_on_of_nodup_map serials first second same, within,
      fun symbol member own => List.mem_filter.mpr ⟨member, by simp [own]⟩⟩
  obtain ⟨apart, ends, _⟩ := compose_closed owes List.filter_sublist.subset remembers composed
  exact final.perm portable mirrors apart (fun record member id isEnd => by
    rcases ends record member id isEnd with held | listed
    · exact held
    · rw [outside, final.external] at listed
      cases listed) (List.subset_append_left _ _)

end Retaking

end Draft

end Sysml

namespace Sysml

open Scope

namespace Session

/-- A portable document is taken into a new session and made again there. -/
theorem importDocument_portable {document : Document} {selfContained : Bool}
    (portable : document.Portable selfContained) (source : String) (name : Value) :
    ∃ result imported again later,
      outcome (importDocument document source) {} = (.ok result, imported) ∧
      outcome (buildDocument selfContained name) imported = (.ok again, later) ∧
      again.records.Perm document.records ∧ again.externalRefs = document.externalRefs := by
  have importable := portable.importable
  have targets : ∀ relation ∈ document.relationships, ∃ target ∈ document.elements,
      relation.target = some target.id := by
    intro relation member
    obtain ⟨_, _, target, targetIn, joins⟩ := portable.relationships relation member
    exact ⟨target, targetIn, joins.ends.2.2⟩
  obtain ⟨_, rebuilt⟩ := @Document.Importable.rebuild_ok document importable source
    fun symbol inside => (importable.bound targets inside).checks
  obtain ⟨imported, ran, same, isIndexed, _, consistent, current, own⟩ :=
    importable.importDocument_ok rebuilt
  have ready : imported.isReady = true := by
    rw [isReady, isIndexed]
  rw [← same] at current own
  have serials : ((document.index source).symbols.map (·.serial)).Nodup :=
    (Document.workspace_tidy source).serials
  obtain ⟨draft, composed, perm, external⟩ :=
    Draft.compose_mirrored portable (Document.index_mirrors source) importable.allNames_text
      current.ids serials current.memo
  have built := outcome_buildDocument consistent ready current selfContained name
  rw [own, composed] at built
  exact ⟨_, imported, _, _, ran, built, perm, external.trans portable.external.symm⟩

/-- Exporting what was read from texts, taking the document into a new session and
exporting it again gives the same records and the same references to the outside. -/
theorem buildDocument_again {changes : List Change} {session exported : Session} {index : Index}
    (reads : ∀ change ∈ changes, change.reads = true) (reached : after changes = session)
    (indexed : session.workspace.index = some index)
    (named : ∀ symbol ∈ index.symbols, symbol.name ≠ .text "") (names : index.NamesApart)
    {selfContained : Bool}
    (own : selfContained = false → ∀ file ∈ session.workspace.files, file.isLibrary = false)
    {name : Value} {document : Document}
    (built : outcome (buildDocument selfContained name) session = (.ok document, exported))
    (apart : MintsApart (mintKeys index exported.workspace.memo)) (source : String)
    (newName : Value) :
    ∃ result imported again later,
      outcome (importDocument document source) {} = (.ok result, imported) ∧
      outcome (buildDocument selfContained newName) imported = (.ok again, later) ∧
      again.records.Perm document.records ∧ again.externalRefs = document.externalRefs := by
  obtain ⟨written, _, user, external, taken, gathered⟩ :=
    buildDocument_gathers reads reached indexed own built
  exact importDocument_portable
    (gathered.portable written apart names named user rfl external) source newName

/-- A definition that specializes a library definition: the three records of the
self-contained document come back. -/
theorem buildDocument_again_inlined :
    ∃ session index exported document result imported again later,
      after [.load "lib.sysml" "part def B;" true,
        .load "a.sysml" "part def A :> B;" false, .reindex] = session ∧
      session.workspace.index = some index ∧
      (∀ symbol ∈ index.symbols, symbol.name ≠ .text "") ∧ index.NamesApart ∧
      outcome (buildDocument true (.text "model")) session = (.ok document, exported) ∧
      MintsApart (mintKeys index exported.workspace.memo) ∧ document.records.length = 3 ∧
      outcome (importDocument document "model.json") {} = (.ok result, imported) ∧
      outcome (buildDocument true (.text "again")) imported = (.ok again, later) ∧
      again.records.Perm document.records ∧ again.externalRefs = document.externalRefs := by
  generalize reached : after [.load "lib.sysml" "part def B;" true,
    .load "a.sysml" "part def A :> B;" false, .reindex] = session
  have reads : ∀ change ∈ ([.load "lib.sysml" "part def B;" true,
      .load "a.sysml" "part def A :> B;" false, .reindex] : List Change),
      change.reads = true := by decide
  have found : session.isReady = true ∧
      "" ∉ session.workspace.symbols.map (·.name.display) ∧
      (session.workspace.symbols.map (·.qualifiedName.display)).Nodup ∧
      (outcome (buildDocument true (.text "model")) session).1.toOption.map
        (fun document => document.records.length) = some 3 ∧
      ((mintKeys (Index.build session.workspace.symbols session.workspace.rootImports)
        (outcome (buildDocument true (.text "model")) session).2.workspace.memo).map
          fun key => Document.mintId key.1 key.2).Nodup := by
    subst reached
    decide +kernel
  obtain ⟨ready, some_, distinct, counted, minted⟩ := found
  have indexed := ((reached ▸ after_read reads).checked ready).found
  have named : ∀ symbol ∈ session.workspace.symbols, symbol.name ≠ .text "" :=
    fun symbol member empty => some_ (List.mem_map.mpr ⟨symbol, member, by rw [empty]; rfl⟩)
  have names : (Index.build session.workspace.symbols session.workspace.rootImports).NamesApart :=
    fun one first other second same =>
      .inl (List.inj_on_of_nodup_map distinct first second (congrArg Key.display same))
  have apart := mintsApart_of_nodup minted
  rcases built : outcome (buildDocument true (.text "model")) session with
    ⟨failure | document, exported⟩ <;> rw [built] at counted apart
  · cases counted
  · obtain ⟨result, imported, again, later, taken, made, same, external⟩ :=
      buildDocument_again reads reached indexed named names (fun plain => (by cases plain)) built
        apart "model.json" (.text "again")
    exact ⟨session, _, exported, document, result, imported, again, later, rfl, indexed, named,
      names, built, apart, Option.some.inj counted, taken, made, same, external⟩

end Session

end Sysml
