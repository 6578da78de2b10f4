import Mathlib.Data.List.Nodup
import Mathlib.Logic.Relation
import Sysml.Document.SourceText
import Sysml.Proofs.Hierarchy
import Sysml.Proofs.Notation.Written

/-!
# Elements as a forest

The elements of a document below their owners. Owners that go round in no circle leave each
element at some depth, so a walk from owners to what they own ends, and meets each element
once (`Forest.walk_perm`).
-/

set_option autoImplicit false

namespace Sysml.Document

variable {document : Document} {record owner : Record}

/-- The second element owns the first one. -/
def OwnedBy (document : Document) (record owner : Record) : Prop :=
  owner ∈ document.elements ∧ record.owner = some owner.id

structure Forest (document : Document) : Prop where
  id : ∀ record ∈ document.records, ∃ id, record.id = .text id
  ids : document.ids.Nodup
  owned : ∀ record ∈ document.elements, record.owner = none ∨
    ∃ owner, document.OwnedBy record owner
  acyclic : ∀ record ∈ document.elements, ¬ Relation.TransGen document.OwnedBy record record

theorem elements_subset (document : Document) : document.elements ⊆ document.records :=
  fun _ member => (List.mem_filter.mp member).1

theorem below_subset (document : Document) (parent : Option Key) :
    document.below parent ⊆ document.elements :=
  fun _ member => (List.mem_filter.mp member).1

/-- Elements that rank above what they own do not go round in a circle. -/
theorem acyclic_of_rank (rank : Record → Nat)
    (falls : ∀ record ∈ document.elements, ∀ owner, document.OwnedBy record owner →
      rank owner < rank record)
    (member : record ∈ document.elements) : ¬ Relation.TransGen document.OwnedBy record record := by
  have below : ∀ above, Relation.TransGen document.OwnedBy record above →
      above ∈ document.elements ∧ rank above < rank record := by
    intro above reached
    induction reached with
    | single ownedBy => exact ⟨ownedBy.1, falls record member _ ownedBy⟩
    | tail _ ownedBy ih => exact ⟨ownedBy.1, Nat.lt_trans (falls _ ih.1 _ ownedBy) ih.2⟩
  intro circle
  exact absurd (below record circle).2 (Nat.lt_irrefl _)

namespace Forest

variable (forest : document.Forest)

include forest

theorem eq_of_id (first : record ∈ document.elements) (second : owner ∈ document.elements)
    (same : record.id = owner.id) : record = owner :=
  List.inj_on_of_nodup_map forest.ids (elements_subset document first)
    (elements_subset document second) same

theorem owner_unique : Relator.RightUnique document.OwnedBy := by
  intro record owner other first second
  exact forest.eq_of_id first.1 second.1 (Option.some.inj (first.2.symm.trans second.2))

theorem parentOf_eq (member : record ∈ document.elements) :
    document.parentOf record = record.owner := by
  rcases forest.owned record member with absent | ⟨owner, isElement, isOwner⟩
  · rw [parentOf, absent]
    rfl
  · have held : document.ids.contains owner.id = true := by
      rw [List.contains_iff_exists_mem_beq]
      exact ⟨owner.id, List.mem_map_of_mem (elements_subset document isElement), BEq.rfl⟩
    rw [parentOf, isOwner, Option.filter_some_pos held]

/-- What stands at the top has no owner. -/
theorem mem_roots :
    record ∈ document.below none ↔ record ∈ document.elements ∧ record.owner = none := by
  rw [below, List.mem_filter]
  refine and_congr_right fun member => ?_
  rw [forest.parentOf_eq member]
  cases record.owner <;> simp

/-- What stands below an element is what it owns. -/
theorem mem_below (isElement : owner ∈ document.elements) :
    record ∈ document.below (some owner.id) ↔
      record ∈ document.elements ∧ document.OwnedBy record owner := by
  rw [below, List.mem_filter]
  refine and_congr_right fun member => ?_
  obtain ⟨id, isId⟩ := forest.id owner (elements_subset document isElement)
  rw [forest.parentOf_eq member, OwnedBy, and_iff_right isElement, isId]
  rcases forest.owned record member with absent | ⟨holder, isHolder, isOwner⟩
  · simp [absent]
  · obtain ⟨other, isOther⟩ := forest.id holder (elements_subset document isHolder)
    rw [isOwner, isOther, Option.some_beq_some, Key.text_beq]
    simp [Key.text]

end Forest

/-! ## Depth -/

section Rank

open Classical

noncomputable def rank (document : Document) (record : Record) : Nat :=
  document.elements.countP fun above => decide (Relation.TransGen document.OwnedBy record above)

theorem Forest.rank_lt (forest : document.Forest) (ownedBy : document.OwnedBy record owner) :
    document.rank owner < document.rank record :=
  Hierarchy.rank_lt ownedBy ownedBy.1 (forest.acyclic owner ownedBy.1)

theorem Forest.rank_lt_length (forest : document.Forest) (member : record ∈ document.elements) :
    document.rank record < document.elements.length :=
  Hierarchy.rank_lt_length member (forest.acyclic record member)

end Rank

def IsShallow (document : Document) : Nat → List Record → Prop
  | 0, records => records = []
  | bound + 1, records => ∀ record ∈ records, document.IsShallow bound (document.below (some record.id))

theorem Forest.isShallow (forest : document.Forest) {bound : Nat} {records : List Record}
    (listed : records ⊆ document.elements)
    (deep : ∀ record ∈ records, document.elements.length ≤ document.rank record + bound) :
    document.IsShallow bound records := by
  induction bound generalizing records with
  | zero =>
    refine List.eq_nil_iff_forall_not_mem.mpr fun record member => ?_
    have bounded := forest.rank_lt_length (listed member)
    have := deep record member
    omega
  | succ bound ih =>
    intro record member
    refine ih (below_subset document _) fun inner inside => ?_
    have lower := forest.rank_lt ((forest.mem_below (listed member)).mp inside).2
    have := deep record member
    omega

/-! ## Walks -/

/-- A walk over elements that stand in an owner: each is met before what stands below it, and
that before what follows; the elements that are met, each with the name of its owner. -/
inductive Walk (document : Document) (nameOf : Record → String) :
    Option String → List Record → List (Option String × Record) → Prop where
  | nil (owner : Option String) : Walk document nameOf owner [] []
  | cons {owner : Option String} {record : Record} {rest : List Record}
      {inner others : List (Option String × Record)}
      (below : Walk document nameOf
        (some (owner.elim (nameOf record) fun owner => QualifiedName.join owner (nameOf record)))
        (document.below (some record.id)) inner)
      (after : Walk document nameOf owner rest others) :
      Walk document nameOf owner (record :: rest) ((owner, record) :: (inner ++ others))

section Met

variable {nameOf : Record → String} {place : Option String} {records : List Record}
  {walk : List (Option String × Record)}

/-- Whatever is met stands below one of the elements that the walk begins with. -/
theorem Forest.above (forest : document.Forest) (isWalk : Walk document nameOf place records walk)
    (listed : records ⊆ document.elements) :
    ∀ met ∈ walk.map (·.2), met ∈ document.elements ∧
      ∃ root ∈ records, Relation.ReflTransGen document.OwnedBy met root := by
  induction isWalk with
  | nil =>
    intro met member
    cases member
  | @cons place record rest inner others below after ihBelow ihAfter =>
    obtain ⟨isElement, further⟩ := List.cons_subset.mp listed
    intro met member
    rw [List.map_cons, List.map_append] at member
    rcases List.mem_cons.mp member with rfl | member
    · exact ⟨isElement, met, List.mem_cons_self, .refl⟩
    · rcases List.mem_append.mp member with inside | later
      · obtain ⟨isMet, root, isRoot, reached⟩ := ihBelow (below_subset document _) met inside
        exact ⟨isMet, record, List.mem_cons_self,
          reached.tail ((forest.mem_below isElement).mp isRoot).2⟩
      · obtain ⟨isMet, root, isRoot, reached⟩ := ihAfter further met later
        exact ⟨isMet, root, List.mem_cons_of_mem _ isRoot, reached⟩

theorem Walk.meets_first (isWalk : Walk document nameOf place records walk) :
    records ⊆ walk.map (·.2) := by
  induction isWalk with
  | nil => exact List.nil_subset _
  | cons _ _ _ ihAfter =>
    rw [List.map_cons, List.map_append]
    exact List.cons_subset_cons _ (List.subset_append_of_subset_right _ ihAfter)

/-- What stands below an element is met if the element is. -/
theorem Walk.closed (isWalk : Walk document nameOf place records walk) :
    ∀ met ∈ walk.map (·.2), document.below (some met.id) ⊆ walk.map (·.2) := by
  induction isWalk with
  | nil =>
    intro met member
    cases member
  | cons below _ ihBelow ihAfter =>
    intro met member
    rw [List.map_cons, List.map_append] at member ⊢
    refine List.subset_cons_of_subset _ ?_
    rcases List.mem_cons.mp member with rfl | member
    · exact List.subset_append_of_subset_left _ below.meets_first
    · rcases List.mem_append.mp member with inside | later
      · exact List.subset_append_of_subset_left _ (ihBelow met inside)
      · exact List.subset_append_of_subset_right _ (ihAfter met later)

/-- Elements with the same owner do not stand below each other. -/
theorem Forest.siblings_apart (forest : document.Forest) {first second : Record}
    (siblings : first.owner = second.owner)
    (reached : Relation.ReflTransGen document.OwnedBy first second) : first = second := by
  rcases Relation.ReflTransGen.cases_head reached with same | ⟨owner, ownedBy, further⟩
  · exact same
  · have again : document.OwnedBy second owner := ⟨ownedBy.1, siblings ▸ ownedBy.2⟩
    exact absurd (.tail' further again) (forest.acyclic owner ownedBy.1)

/-- A walk over elements of one owner meets nothing twice. -/
theorem Forest.walk_nodup (forest : document.Forest)
    (isWalk : Walk document nameOf place records walk) (listed : records ⊆ document.elements)
    (nodup : records.Nodup) {owner : Option Key}
    (siblings : ∀ record ∈ records, record.owner = owner) : (walk.map (·.2)).Nodup := by
  have apart : document.elements.Nodup := (List.Nodup.of_map _ forest.ids).filter _
  induction isWalk generalizing owner with
  | nil => exact List.nodup_nil
  | @cons place record rest inner others below after ihBelow ihAfter =>
    obtain ⟨isElement, further⟩ := List.cons_subset.mp listed
    obtain ⟨fresh, distinct⟩ := List.nodup_cons.mp nodup
    obtain ⟨isOwner, areSiblings⟩ := List.forall_mem_cons.mp siblings
    -- What is met inside stands strictly below the first element, what is met later does not.
    have inside : ∀ met ∈ inner.map (·.2), Relation.TransGen document.OwnedBy met record := by
      intro met member
      obtain ⟨_, root, isRoot, reached⟩ := forest.above below (below_subset document _) met member
      exact .tail' reached ((forest.mem_below isElement).mp isRoot).2
    have later : ∀ met ∈ others.map (·.2),
        ¬ Relation.ReflTransGen document.OwnedBy met record := by
      intro met member toFirst
      obtain ⟨_, root, isRoot, toRoot⟩ := forest.above after further met member
      have same : root.owner = record.owner := (areSiblings root isRoot).trans isOwner.symm
      rcases Relation.ReflTransGen.total_of_right_unique forest.owner_unique toFirst toRoot with
        up | up
      · exact fresh (forest.siblings_apart same.symm up ▸ isRoot)
      · exact fresh (forest.siblings_apart same up ▸ isRoot)
    have innerOwned : ∀ inner ∈ document.below (some record.id), inner.owner = some record.id :=
      fun inner member => ((forest.mem_below isElement).mp member).2.2
    rw [List.map_cons, List.map_append, List.nodup_cons, List.nodup_append]
    refine ⟨fun member => ?_, ihBelow (below_subset document _) (apart.filter _) innerOwned,
      ihAfter further distinct areSiblings, ?_⟩
    · rcases List.mem_append.mp member with met | met
      · exact forest.acyclic record isElement (inside record met)
      · exact later record met .refl
    · rintro met first other second rfl
      exact later met second (inside met first).to_reflTransGen

/-- A walk from the roots meets every element. -/
theorem Forest.walk_meets (forest : document.Forest)
    (isWalk : Walk document nameOf place (document.below none) walk)
    (member : record ∈ document.elements) : record ∈ walk.map (·.2) := by
  induction isRank : document.rank record using Nat.strongRecOn generalizing record with
  | ind size ih =>
    rcases forest.owned record member with absent | ⟨owner, ownedBy⟩
    · exact isWalk.meets_first (forest.mem_roots.mpr ⟨member, absent⟩)
    · have met := ih _ (isRank ▸ forest.rank_lt ownedBy) ownedBy.1 rfl
      exact isWalk.closed owner met ((forest.mem_below ownedBy.1).mpr ⟨member, ownedBy⟩)

/-- A walk from the roots meets each element once. -/
theorem Forest.walk_perm (forest : document.Forest)
    (isWalk : Walk document nameOf place (document.below none) walk) :
    (walk.map (·.2)).Perm document.elements := by
  have apart : document.elements.Nodup := (List.Nodup.of_map _ forest.ids).filter _
  have once := forest.walk_nodup isWalk (below_subset document _) (apart.filter _)
    fun record member => (forest.mem_roots.mp member).2
  rw [List.perm_ext_iff_of_nodup once apart]
  intro record
  constructor
  · intro met
    exact (forest.above isWalk (below_subset document _) record met).1
  · exact forest.walk_meets isWalk

end Met

end Sysml.Document
