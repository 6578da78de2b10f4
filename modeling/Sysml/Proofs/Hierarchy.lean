import Mathlib.Data.List.Count
import Mathlib.Data.List.Flatten
import Mathlib.Data.List.Perm.Basic
import Mathlib.Logic.Function.Iterate
import Mathlib.Logic.Relation

/-!
# Hierarchies

Items of a list, each of which is at the top or inside of one other item. When no item is above
itself, each has a rank below the number of items (`rank_lt_length`), so a walk that goes from the
top to what is inside ends, and it comes past each item once (`walk_perm`).
-/

set_option autoImplicit false

namespace Sysml.Hierarchy

variable {α : Type}

/-! ## Ranks -/

section Rank

open Classical

variable {items : List α} {above : α → α → Prop} {item other : α}

noncomputable def rank (items : List α) (above : α → α → Prop) (item : α) : Nat :=
  items.countP fun other => decide (Relation.TransGen above item other)

theorem countP_lt {p q : α → Bool} (narrows : ∀ item ∈ items, p item = true → q item = true)
    (strict : ∃ item ∈ items, q item = true ∧ p item = false) :
    items.countP p < items.countP q := by
  induction items with
  | nil =>
    obtain ⟨_, member, _⟩ := strict
    cases member
  | cons item rest ih =>
    obtain ⟨first, others⟩ := List.forall_mem_cons.mp narrows
    have fewer := List.countP_mono_left others
    obtain ⟨found, member, holds, fails⟩ := strict
    rw [List.countP_cons, List.countP_cons]
    rcases List.mem_cons.mp member with rfl | later
    · rw [holds, fails]
      simp only [↓reduceIte, Bool.false_eq_true]
      omega
    · have less := ih others ⟨found, later, holds, fails⟩
      cases isFirst : p item with
      | true =>
        rw [first isFirst]
        omega
      | false =>
        simp only [Bool.false_eq_true, ↓reduceIte]
        omega

theorem rank_lt (isAbove : above item other) (member : other ∈ items)
    (acyclic : ¬ Relation.TransGen above other other) :
    rank items above other < rank items above item := by
  refine countP_lt (fun further _ reached => ?_) ⟨other, member, ?_, ?_⟩
  · exact decide_eq_true (.head isAbove (of_decide_eq_true reached))
  · exact decide_eq_true (.single isAbove)
  · exact decide_eq_false acyclic

theorem rank_lt_length (member : item ∈ items) (acyclic : ¬ Relation.TransGen above item item) :
    rank items above item < items.length := by
  rw [rank, List.countP_lt_length_iff]
  exact ⟨item, member, decide_eq_false acyclic⟩

end Rank

/-! ## Walks -/

variable (inside : α → List α)

def walk : Nat → List α → List α
  | 0, _ => []
  | bound + 1, items => items.flatMap fun item => item :: walk bound (inside item)

theorem walk_flatMap (bound : Nat) (items : List α) :
    items.flatMap (fun item => walk inside bound (inside item)) =
      walk inside bound (items.flatMap inside) := by
  cases bound with
  | zero => simp [walk]
  | succ bound => simp only [walk, List.flatMap_assoc]

theorem walk_succ (bound : Nat) (items : List α) :
    (walk inside (bound + 1) items).Perm (items ++ walk inside bound (items.flatMap inside)) := by
  have apart := List.map_append_flatMap_perm items id fun item => walk inside bound (inside item)
  rw [List.map_id, walk_flatMap] at apart
  exact apart.symm

def deep (items : List α) (depth : Nat) : List α :=
  (fun items => items.flatMap inside)^[depth] items

theorem deep_subset {items others : List α} (within : items ⊆ others) (depth : Nat) :
    deep inside items depth ⊆ deep inside others depth := by
  induction depth generalizing items others with
  | zero => exact within
  | succ depth ih =>
    refine ih fun inner member => ?_
    obtain ⟨item, listed, isInner⟩ := List.mem_flatMap.mp member
    exact List.mem_flatMap.mpr ⟨item, within listed, isInner⟩

variable {inside} {items tops : List α}

/-- If the items are those at the top and those inside of items, then they are those that a walk
from the top comes past and those that are deeper. -/
theorem walk_deep (whole : items.Perm (tops ++ items.flatMap inside)) (bound : Nat) :
    items.Perm (walk inside bound tops ++ deep inside items bound) := by
  induction bound generalizing items tops with
  | zero => exact .refl _
  | succ bound ih =>
    have lower : (items.flatMap inside).Perm
        (tops.flatMap inside ++ (items.flatMap inside).flatMap inside) := by
      rw [← List.flatMap_append]
      exact whole.flatMap_right inside
    calc items.Perm (tops ++ items.flatMap inside) := whole
      List.Perm _ (tops ++ (walk inside bound (tops.flatMap inside) ++
          deep inside (items.flatMap inside) bound)) := (ih lower).append_left tops
      List.Perm _ (walk inside (bound + 1) tops ++ deep inside items (bound + 1)) := by
        rw [← List.append_assoc]
        exact (walk_succ inside bound tops).symm.append_right _

theorem deep_rank (rank : α → Nat) (within : ∀ item ∈ items, inside item ⊆ items)
    (rises : ∀ item ∈ items, ∀ inner ∈ inside item, rank item < rank inner) (depth : Nat) :
    ∀ item ∈ deep inside items depth, item ∈ items ∧ depth ≤ rank item := by
  induction depth with
  | zero => exact fun item member => ⟨member, Nat.zero_le _⟩
  | succ depth ih =>
    intro item member
    rw [deep, Function.iterate_succ_apply'] at member
    obtain ⟨outer, isOuter, isInner⟩ := List.mem_flatMap.mp member
    obtain ⟨isItem, isDeep⟩ := ih outer isOuter
    have lower := rises outer isItem item isInner
    exact ⟨within outer isItem isInner, by omega⟩

/-- Nothing is deeper than the ranks reach. -/
theorem deep_eq_nil (rank : α → Nat) (within : ∀ item ∈ items, inside item ⊆ items)
    (rises : ∀ item ∈ items, ∀ inner ∈ inside item, rank item < rank inner) {bound : Nat}
    (low : ∀ item ∈ items, rank item < bound) : deep inside items bound = [] := by
  refine List.eq_nil_iff_forall_not_mem.mpr fun item member => ?_
  obtain ⟨isItem, isDeep⟩ := deep_rank rank within rises bound item member
  exact absurd (low item isItem) (Nat.not_lt.mpr isDeep)

/-- A walk from the top comes past each item once, if nothing is deeper than it goes. -/
theorem walk_perm (whole : items.Perm (tops ++ items.flatMap inside)) {bound : Nat}
    (ends : deep inside items bound = []) : (walk inside bound tops).Perm items := by
  have all := walk_deep whole bound
  rw [ends, List.append_nil] at all
  exact all.symm

/-- Items and what is inside of them, each item before what is inside of it. -/
inductive InOrder (inside : α → List α) : List α → List α → Prop where
  | nil : InOrder inside [] []
  | cons {item : α} {rest inner later : List α} :
      InOrder inside (inside item) inner → InOrder inside rest later →
      InOrder inside (item :: rest) (item :: inner ++ later)

/-- A walk comes past everything in its order, if nothing is deeper than it goes. -/
theorem walk_inOrder {bound : Nat} (ends : deep inside tops bound = []) :
    InOrder inside tops (walk inside bound tops) := by
  induction bound generalizing tops with
  | zero =>
    cases ends
    exact .nil
  | succ bound ih =>
    induction tops with
    | nil => exact .nil
    | cons item rest later =>
      have shallow : ∀ others ⊆ (item :: rest).flatMap inside, deep inside others bound = [] :=
        fun others within => List.subset_nil.mp (ends ▸ deep_subset inside within bound)
      rw [List.flatMap_cons] at shallow
      apply InOrder.cons
      · exact ih (shallow _ (List.subset_append_left _ _))
      · exact later (shallow _ (List.subset_append_right _ _))

/-- Items whose ranks fall from below to above do not go round in a circle. -/
theorem acyclic_of_rank {above : α → α → Prop} (rank : α → Nat)
    (falls : ∀ item other, above item other → rank other < rank item) (item : α) :
    ¬ Relation.TransGen above item item := by
  have lower : ∀ other, Relation.TransGen above item other → rank other < rank item := by
    intro other reached
    induction reached with
    | single isAbove => exact falls _ _ isAbove
    | tail _ isAbove ih => exact Nat.lt_trans (falls _ _ isAbove) ih
  intro circle
  exact Nat.lt_irrefl _ (lower item circle)

end Sysml.Hierarchy
