import Mathlib.Data.List.Forall2
import Sysml.Proofs.Outcome

/-!
# Related lists and computations

Two lists whose items are related one by one, and two computations that go side by side.
-/

set_option autoImplicit false

namespace Sysml

variable {α β : Type} {relation : α → β → Prop} {left : List α} {right : List β}

/-- Of two related lists each item of the second is related to one of the first. -/
theorem exists_related (related : List.Forall₂ relation left right) {other : β}
    (member : other ∈ right) : ∃ one ∈ left, relation one other := by
  induction related with
  | nil => cases member
  | cons first _ ih =>
    rcases List.mem_cons.mp member with rfl | later
    · exact ⟨_, List.mem_cons_self, first⟩
    · obtain ⟨one, inside, holds⟩ := ih later
      exact ⟨one, List.mem_cons_of_mem _ inside, holds⟩

/-- Of two related lists each item of the first is related to one of the second. -/
theorem exists_related_right (related : List.Forall₂ relation left right) {one : α}
    (member : one ∈ left) : ∃ other ∈ right, relation one other := by
  induction related with
  | nil => cases member
  | cons first _ ih =>
    rcases List.mem_cons.mp member with rfl | later
    · exact ⟨_, List.mem_cons_self, first⟩
    · obtain ⟨other, inside, holds⟩ := ih later
      exact ⟨other, List.mem_cons_of_mem _ inside, holds⟩

theorem related_imp {weaker : α → β → Prop} (related : List.Forall₂ relation left right)
    (implies : ∀ one ∈ left, ∀ other, relation one other → weaker one other) :
    List.Forall₂ weaker left right := by
  induction related with
  | nil => exact .nil
  | cons first _ ih =>
    obtain ⟨holds, others⟩ := List.forall_mem_cons.mp implies
    exact .cons (holds _ first) (ih others)

/-- What a list with an item in it is related to has a relative of the item in it. -/
theorem related_split {before after : List α} {item : α}
    (related : List.Forall₂ relation (before ++ item :: after) right) :
    ∃ first other second, right = first ++ other :: second ∧
      List.Forall₂ relation before first ∧ relation item other ∧
        List.Forall₂ relation after second := by
  induction before generalizing right with
  | nil =>
    cases related with
    | cons holds rest => exact ⟨[], _, _, rfl, .nil, holds, rest⟩
  | cons one rest ih =>
    cases related with
    | cons holds others =>
      obtain ⟨first, other, second, rfl, left, middle, right⟩ := ih others
      exact ⟨_ :: first, other, second, rfl, .cons holds left, middle, right⟩

/-- Where an item has one relative, and all of these are different, the items of a
relative are one. -/
theorem related_unique (related : List.Forall₂ relation left right) (nodup : right.Nodup)
    {end_ : β}
    (single : ∀ item ∈ left, relation item end_ → ∀ other ∈ right, relation item other →
      other = end_)
    {one other : α} (oneIn : one ∈ left) (first : relation one end_) (otherIn : other ∈ left)
    (second : relation other end_) : one = other := by
  induction related with
  | nil => cases oneIn
  | @cons item relative items relatives holds rest ih =>
    obtain ⟨fresh, nodupRest⟩ := List.nodup_cons.mp nodup
    have isLater {later : α} (member : later ∈ items) (holdsLater : relation later end_) :
        end_ ∈ relatives := by
      obtain ⟨found, inside, alike⟩ := exists_related_right rest member
      rw [← single later (List.mem_cons_of_mem _ member) holdsLater found
        (List.mem_cons_of_mem _ inside) alike]
      exact inside
    have isFirst (same : relation item end_) : relative = end_ :=
      single item List.mem_cons_self same relative List.mem_cons_self holds
    rcases List.mem_cons.mp oneIn with rfl | oneLater
    · rcases List.mem_cons.mp otherIn with rfl | otherLater
      · rfl
      · exact absurd (isFirst first ▸ isLater otherLater second) fresh
    · rcases List.mem_cons.mp otherIn with rfl | otherLater
      · exact absurd (isFirst second ▸ isLater oneLater first) fresh
      · exact ih nodupRest (fun item member holds other inside =>
          single item (List.mem_cons_of_mem _ member) holds other (List.mem_cons_of_mem _ inside))
          oneLater otherLater

/-- Lists whose items are sent to the same are related where that relates items. -/
theorem related_of_map {γ : Type} {first : α → γ} {second : β → γ}
    (same : left.map first = right.map second)
    (relates : ∀ one ∈ left, ∀ other, first one = second other → relation one other) :
    List.Forall₂ relation left right := by
  have equal : List.Forall₂ (fun one other => first one = second other) left right := by
    rw [← List.forall₂_map_right_iff, ← List.forall₂_map_left_iff, same, List.forall₂_eq_eq_eq]
  exact related_imp equal relates

/-- What two related lists give, where related items give the same. -/
theorem related_map {γ : Type} (related : List.Forall₂ relation left right) {first : α → γ}
    {second : β → γ} (same : ∀ one ∈ left, ∀ other ∈ right, relation one other →
      first one = second other) : left.map first = right.map second := by
  induction related with
  | nil => rfl
  | @cons one other items others holds rest ih =>
    rw [List.map_cons, List.map_cons,
      same one List.mem_cons_self other List.mem_cons_self holds,
      ih fun later member relative inside =>
        same later (List.mem_cons_of_mem _ member) relative (List.mem_cons_of_mem _ inside)]

/-- The first item that is looked for is related to the first of the other list, where
related items are both looked for or both not. -/
theorem related_find? (related : List.Forall₂ relation left right) {first : α → Bool}
    {second : β → Bool} (same : ∀ one ∈ left, ∀ other ∈ right, relation one other →
      first one = second other) :
    Option.Rel relation (left.find? first) (right.find? second) := by
  induction related with
  | nil => exact .none
  | @cons one other items others holds rest ih =>
    rw [List.find?_cons, List.find?_cons,
      same one List.mem_cons_self other List.mem_cons_self holds]
    cases second other with
    | true => exact .some holds
    | false =>
      exact ih fun later member relative inside =>
        same later (List.mem_cons_of_mem _ member) relative (List.mem_cons_of_mem _ inside)

/-- What is made of the items that are taken, where nothing is made of the others. -/
theorem related_filterMap {make : β → Option α} {takes : β → Bool}
    (made : ∀ item ∈ right, takes item = true → ∃ one, make item = some one ∧ relation one item)
    (passed : ∀ item ∈ right, takes item = false → make item = none) :
    List.Forall₂ relation (right.filterMap make) (right.filter takes) := by
  induction right with
  | nil => exact .nil
  | cons item rest ih =>
    have related := ih (fun other member => made other (List.mem_cons_of_mem _ member))
      fun other member => passed other (List.mem_cons_of_mem _ member)
    cases isTaken : takes item with
    | true =>
      obtain ⟨one, same, holds⟩ := made item List.mem_cons_self isTaken
      rw [List.filterMap_cons_some same, List.filter_cons_of_pos isTaken]
      exact .cons holds related
    | false =>
      rw [List.filterMap_cons_none (passed item List.mem_cons_self isTaken),
        List.filter_cons_of_neg (by simp [isTaken])]
      exact related

/-- What related lists are made of one by one, where one list is a change of the other. -/
theorem related_flatMap {γ : Type} {items : List γ} {first : γ → List α} {second : γ → List β}
    (related : ∀ item ∈ items, List.Forall₂ relation (first item) (second item)) :
    List.Forall₂ relation (items.flatMap first) (items.flatMap second) := by
  induction items with
  | nil => exact .nil
  | cons item rest ih =>
    obtain ⟨here, there⟩ := List.forall_mem_cons.mp related
    rw [List.flatMap_cons, List.flatMap_cons]
    exact List.rel_append here (ih there)

/-! ## Computations side by side -/

section Computations

variable {σ τ α β γ δ : Type}

inductive EndAlike (related : α → β → σ → τ → Prop) :
    Except Failure α × σ → Except Failure β × τ → Prop
  | ok {answer : α} {again : β} {state : σ} {other : τ} (holds : related answer again state other) :
      EndAlike related (.ok answer, state) (.ok again, other)
  | error (failure : Failure) (state : σ) (other : τ) :
      EndAlike related (.error failure, state) (.error failure, other)

def Abreast (before : σ → τ → Prop) (after : α → β → σ → τ → Prop)
    (left : ExceptT Failure (StateM σ) α) (right : ExceptT Failure (StateM τ) β) : Prop :=
  ∀ state other, before state other → EndAlike after (outcome left state) (outcome right other)

namespace Abreast

variable {before : σ → τ → Prop} {between : α → β → σ → τ → Prop} {after : γ → δ → σ → τ → Prop}

theorem bind {left : ExceptT Failure (StateM σ) α} {right : ExceptT Failure (StateM τ) β}
    {nextLeft : α → ExceptT Failure (StateM σ) γ} {nextRight : β → ExceptT Failure (StateM τ) δ}
    (first : Abreast before between left right)
    (rest : ∀ answer again, Abreast (between answer again) after (nextLeft answer)
      (nextRight again)) :
    Abreast before after (left >>= nextLeft) (right >>= nextRight) := by
  intro state other holds
  have ends := first state other holds
  rw [outcome_bind, outcome_bind]
  generalize outcome left state = one, outcome right other = two at ends
  cases ends with
  | ok related => exact rest _ _ _ _ related
  | error failure => exact .error failure _ _

theorem liftM {related : α → β → Prop} {left : Except Failure α} {right : Except Failure β}
    (fails : ∀ failure, left = .error failure → right = .error failure)
    (answers : ∀ value, left = .ok value → ∃ again, right = .ok again ∧ related value again) :
    Abreast before (fun answer again state other => related answer again ∧ before state other)
      (liftM left) (liftM right) := by
  intro state other start
  rw [outcome_liftM, outcome_liftM]
  cases left with
  | error failure =>
    rw [fails failure rfl]
    exact .error failure _ _
  | ok value =>
    obtain ⟨again, same, holds⟩ := answers value rfl
    rw [same]
    exact .ok ⟨holds, start⟩

/-- Loops over related lists, of which each round uses up something. -/
theorem forM {relation : α → β → Prop} {holds : Nat → σ → τ → Prop} {items : List α}
    {others : List β} {left : α → ExceptT Failure (StateM σ) PUnit}
    {right : β → ExceptT Failure (StateM τ) PUnit} (related : List.Forall₂ relation items others)
    (rounds : ∀ item ∈ items, ∀ other, relation item other → ∀ room,
      Abreast (holds (room + 1)) (fun _ _ => holds room) (left item) (right other)) (room : Nat) :
    Abreast (holds (items.length + room)) (fun _ _ => holds room) (items.forM left)
      (others.forM right) := by
  induction related with
  | nil =>
    intro state other start
    rw [List.length_nil, Nat.zero_add] at start
    exact .ok start
  | @cons item other rest more first _ ih =>
    obtain ⟨here, there⟩ := List.forall_mem_cons.mp rounds
    rw [List.length_cons, Nat.add_right_comm]
    exact (here other first _).bind fun _ _ => ih there

end Abreast

end Computations

end Sysml
