import Sysml.Failure

/-!
# Outcomes

What a computation with a state gives: an answer or a failure, and the state after
it. Searches, the making of a document and the operations of a session are such
computations.
-/

set_option autoImplicit false

namespace Sysml

variable {σ α β : Type}

/-- The answer or failure of a computation that starts in a state, and the state
after it. -/
def outcome (run : ExceptT Failure (StateM σ) α) (state : σ) : Except Failure α × σ :=
  run.run.run state

@[simp] theorem outcome_pure (value : α) (state : σ) :
    outcome (pure value) state = (.ok value, state) := rfl

@[simp] theorem outcome_throw (failure : Failure) (state : σ) :
    outcome (throw failure : ExceptT Failure (StateM σ) α) state = (.error failure, state) := rfl

@[simp] theorem outcome_get (state : σ) :
    outcome (get : ExceptT Failure (StateM σ) σ) state = (.ok state, state) := rfl

@[simp] theorem outcome_set (later state : σ) :
    outcome (set later : ExceptT Failure (StateM σ) PUnit) state = (.ok ⟨⟩, later) := rfl

@[simp] theorem outcome_modify (change : σ → σ) (state : σ) :
    outcome (modify change : ExceptT Failure (StateM σ) PUnit) state =
      (.ok ⟨⟩, change state) := rfl

@[simp] theorem outcome_liftM (result : Except Failure α) (state : σ) :
    outcome (liftM result : ExceptT Failure (StateM σ) α) state = (result, state) := by
  cases result <;> rfl

@[simp] theorem outcome_ofExcept (result : Except Failure α) (state : σ) :
    outcome (MonadExcept.ofExcept result : ExceptT Failure (StateM σ) α) state =
      (result, state) := by
  cases result <;> rfl

/-- What follows a computation starts in the state after it, unless it fails. -/
theorem outcome_bind (run : ExceptT Failure (StateM σ) α)
    (next : α → ExceptT Failure (StateM σ) β) (state : σ) :
    outcome (run >>= next) state =
      match outcome run state with
      | (.ok value, later) => outcome (next value) later
      | (.error failure, later) => (.error failure, later) := by
  change (ExceptT.bindCont next (outcome run state).1) (outcome run state).2 = _
  rcases outcome run state with ⟨_ | _, _⟩ <;> rfl

theorem outcome_bind_of_ok {run : ExceptT Failure (StateM σ) α}
    {next : α → ExceptT Failure (StateM σ) β} {state later : σ} {value : α}
    (ran : outcome run state = (.ok value, later)) :
    outcome (run >>= next) state = outcome (next value) later := by
  rw [outcome_bind, ran]

theorem outcome_bind_of_error {run : ExceptT Failure (StateM σ) α}
    {next : α → ExceptT Failure (StateM σ) β} {state later : σ} {failure : Failure}
    (ran : outcome run state = (.error failure, later)) :
    outcome (run >>= next) state = (.error failure, later) := by
  rw [outcome_bind, ran]

/-- A sequence answers only if both of its parts do. -/
theorem outcome_bind_ok {run : ExceptT Failure (StateM σ) α}
    {next : α → ExceptT Failure (StateM σ) β} {state final : σ} {result : β}
    (ran : outcome (run >>= next) state = (.ok result, final)) :
    ∃ value later, outcome run state = (.ok value, later) ∧
      outcome (next value) later = (.ok result, final) := by
  rw [outcome_bind] at ran
  split at ran
  · next value later first => exact ⟨value, later, first, ran⟩
  · simp at ran

@[simp] theorem outcome_map (change : α → β) (run : ExceptT Failure (StateM σ) α) (state : σ) :
    outcome (change <$> run) state =
      ((outcome run state).1.map change, (outcome run state).2) := by
  change outcome (run >>= fun value => pure (change value)) state = _
  rw [outcome_bind]
  rcases outcome run state with ⟨_ | _, _⟩ <;> rfl

/-- Steps that only look at the state give their answers one after the other. -/
theorem outcome_mapM {step : α → ExceptT Failure (StateM σ) β} {answer : α → β} {state : σ}
    {items : List α} (looks : ∀ item ∈ items, outcome (step item) state = (.ok (answer item), state)) :
    outcome (items.mapM step) state = (.ok (items.map answer), state) := by
  induction items with
  | nil => rfl
  | cons item rest ih =>
    rw [List.mapM_cons, outcome_bind_of_ok (looks item List.mem_cons_self),
      outcome_bind_of_ok (ih fun other member => looks other (List.mem_cons_of_mem _ member))]
    rfl

section Each

variable {items : List α} {step : α → ExceptT Failure (StateM σ) PUnit}
  (inv : List α → σ → Prop) {state : σ}

/-- What holds before the first item, and is kept by the step of each item, holds
after the last. -/
theorem forM_keeps {final : σ} (first : inv [] state)
    (keeps : ∀ done item rest before later, items = done ++ item :: rest → inv done before →
      outcome (step item) before = (.ok ⟨⟩, later) → inv (done ++ [item]) later)
    (ran : outcome (items.forM step) state = (.ok ⟨⟩, final)) : inv items final := by
  have from_ (rest : List α) : ∀ done before, items = done ++ rest → inv done before →
      outcome (rest.forM step) before = (.ok ⟨⟩, final) → inv items final := by
    induction rest with
    | nil =>
      intro done before whole holds ran
      cases ran
      simpa [whole] using holds
    | cons item rest ih =>
      intro done before whole holds ran
      obtain ⟨_, later, one, others⟩ := outcome_bind_ok ran
      exact ih (done ++ [item]) later (by simp [whole])
        (keeps done item rest before later whole holds one) others
  exact from_ items [] state rfl first ran

/-- The same where each step is known to end well: then so does the whole. -/
theorem forM_ends (first : inv [] state)
    (ends : ∀ done item rest before, items = done ++ item :: rest → inv done before →
      ∃ later, outcome (step item) before = (.ok ⟨⟩, later) ∧ inv (done ++ [item]) later) :
    ∃ final, outcome (items.forM step) state = (.ok ⟨⟩, final) ∧ inv items final := by
  have from_ (rest : List α) : ∀ done before, items = done ++ rest → inv done before →
      ∃ final, outcome (rest.forM step) before = (.ok ⟨⟩, final) ∧ inv items final := by
    induction rest with
    | nil =>
      intro done before whole holds
      exact ⟨before, rfl, by simpa [whole] using holds⟩
    | cons item rest ih =>
      intro done before whole holds
      obtain ⟨later, one, holdsLater⟩ := ends done item rest before whole holds
      obtain ⟨final, others, holdsFinal⟩ := ih (done ++ [item]) later (by simp [whole]) holdsLater
      exact ⟨final, (outcome_bind_of_ok one).trans others, holdsFinal⟩
  exact from_ items [] state rfl first

end Each

/-- A computation that keeps an invariant of the state, and whose answers have a property. -/
structure Ensures (inv : σ → Prop) (post : α → Prop) (run : ExceptT Failure (StateM σ) α) :
    Prop where
  answers : ∀ {state value later}, inv state → outcome run state = (.ok value, later) → post value
  keeps : ∀ {state}, inv state → inv (outcome run state).2

namespace Ensures

variable {inv : σ → Prop} {post : α → Prop}

theorem pure {value : α} (holds : post value) : Ensures inv post (Pure.pure value) where
  answers _ ran := Except.ok.inj (Prod.mk.inj ran).1 ▸ holds
  keeps kept := kept

theorem throw (failure : Failure) :
    Ensures inv post (MonadExcept.throw failure : ExceptT Failure (StateM σ) α) where
  answers _ ran := by cases ran
  keeps kept := kept

/-- A result that does not depend on the state. -/
theorem ofExcept (result : Except Failure α) :
    Ensures inv (fun value => result = .ok value)
      (MonadExcept.ofExcept result : ExceptT Failure (StateM σ) α) := by
  constructor
  · intro state value later _ ran
    rw [outcome_ofExcept] at ran
    exact (Prod.mk.inj ran).1
  · intro state kept
    rw [outcome_ofExcept]
    exact kept

theorem lift (result : Except Failure α) :
    Ensures inv (fun value => result = .ok value)
      (liftM result : ExceptT Failure (StateM σ) α) := by
  constructor
  · intro state value later _ ran
    rw [outcome_liftM] at ran
    exact (Prod.mk.inj ran).1
  · intro state kept
    rw [outcome_liftM]
    exact kept

theorem reads : Ensures inv inv (get : ExceptT Failure (StateM σ) σ) where
  answers kept ran := (Except.ok.inj (Prod.mk.inj ran).1) ▸ kept
  keeps kept := kept

theorem changes {change : σ → σ} (keeps : ∀ state, inv state → inv (change state)) :
    Ensures inv (fun _ => True) (modify change : ExceptT Failure (StateM σ) PUnit) where
  answers _ _ := trivial
  keeps kept := keeps _ kept

theorem bind {last : β → Prop} {run : ExceptT Failure (StateM σ) α}
    {next : α → ExceptT Failure (StateM σ) β} (first : Ensures inv post run)
    (rest : ∀ value, post value → Ensures inv last (next value)) :
    Ensures inv last (run >>= next) := by
  constructor
  · intro state value final kept ran
    obtain ⟨between, later, ranFirst, ranRest⟩ := outcome_bind_ok ran
    have keptOn := first.keeps kept
    rw [ranFirst] at keptOn
    exact (rest between (first.answers kept ranFirst)).answers keptOn ranRest
  · intro state kept
    have keptOn := first.keeps kept
    rcases ran : outcome run state with ⟨failure | value, later⟩ <;> rw [ran] at keptOn
    · rw [outcome_bind_of_error ran]
      exact keptOn
    · rw [outcome_bind_of_ok ran]
      exact (rest value (first.answers kept ran)).keeps keptOn

end Ensures

theorem ok_bind (value : α) (next : α → Except Failure β) :
    (Except.ok value >>= next) = next value := rfl

theorem result_bind_ok {result : Except Failure α} {next : α → Except Failure β} {last : β}
    (ran : (result >>= next) = .ok last) :
    ∃ value, result = .ok value ∧ next value = .ok last := by
  cases result with
  | error failure => cases ran
  | ok value => exact ⟨value, rfl, ran⟩

theorem result_map_ok {result : Except Failure α} {change : α → β} {last : β}
    (ran : (change <$> result) = .ok last) : ∃ value, result = .ok value ∧ change value = last := by
  cases result with
  | error failure => cases ran
  | ok value => exact ⟨value, rfl, Except.ok.inj ran⟩

theorem toOption_eq_some {ε : Type} {result : Except ε α} {value : α} :
    result.toOption = some value ↔ result = .ok value := by
  rcases result with failure | found
  · exact ⟨fun same => (by cases same), fun same => (by cases same)⟩
  · exact ⟨fun same => congrArg Except.ok (Option.some.inj same),
      fun same => congrArg some (Except.ok.inj same)⟩

theorem toOption_join_eq_some {result : Except Failure (Option α)} {value : α} :
    result.toOption.join = some value ↔ result = .ok (some value) := by
  rw [Option.join_eq_some_iff, toOption_eq_some]

end Sysml

/-!
## Allowed failures

What a computation may fail with. The failures of a sequence are those of its parts, so a
reader or an operation is told by the failures of the steps it takes.
-/

namespace Sysml

variable {α β : Type} {allowed : Failure → Prop}

inductive FailsOnly (allowed : Failure → Prop) : Except Failure α → Prop
  | ok (value : α) : FailsOnly allowed (.ok value)
  | error {failure : Failure} (isAllowed : allowed failure) : FailsOnly allowed (.error failure)

namespace FailsOnly

theorem bind {result : Except Failure α} {next : α → Except Failure β}
    (first : FailsOnly allowed result)
    (rest : ∀ value, result = .ok value → FailsOnly allowed (next value)) :
    FailsOnly allowed (result >>= next) := by
  cases first with
  | ok value => exact rest value rfl
  | error isAllowed => exact .error isAllowed

theorem map {result : Except Failure α} (change : α → β) (fails : FailsOnly allowed result) :
    FailsOnly allowed (change <$> result) := by
  cases fails with
  | ok value => exact .ok _
  | error isAllowed => exact .error isAllowed

theorem mapM {step : α → Except Failure β} {items : List α}
    (each : ∀ item ∈ items, FailsOnly allowed (step item)) :
    FailsOnly allowed (items.mapM step) := by
  induction items with
  | nil => exact .ok _
  | cons item rest ih =>
    rw [List.mapM_cons]
    apply bind (each item List.mem_cons_self)
    intro value _
    apply bind (ih fun other member => each other (List.mem_cons_of_mem _ member))
    intro values _
    exact .ok _

theorem foldlM {step : β → α → Except Failure β} {items : List α}
    (each : ∀ before, ∀ item ∈ items, FailsOnly allowed (step before item)) (start : β) :
    FailsOnly allowed (items.foldlM step start) := by
  induction items generalizing start with
  | nil => exact .ok _
  | cons item rest ih =>
    rw [List.foldlM_cons]
    apply bind (each start item List.mem_cons_self)
    intro value _
    exact ih (fun before other member => each before other (List.mem_cons_of_mem _ member)) value

end FailsOnly

end Sysml

/-!
## Computations seen through a map

A computation that does, on the image of a state, what another does on the state: it answers with
the image of the other's answer or fails alike, and ends in the image of the other's last state.
-/

namespace Sysml

variable {σ τ α β γ δ : Type} {seen : σ → τ}

/-- The second computation is the first as seen through a map of states and one of answers. -/
def Images (seen : σ → τ) (image : α → β) (left : ExceptT Failure (StateM σ) α)
    (right : ExceptT Failure (StateM τ) β) : Prop :=
  ∀ state, outcome right (seen state) =
    ((outcome left state).1.map image, seen (outcome left state).2)

namespace Images

variable {image : α → β}

theorem pure (value : α) : Images seen image (Pure.pure value) (Pure.pure (image value)) :=
  fun _ => rfl

theorem throw (failure : Failure) :
    Images seen image (MonadExcept.throw failure) (MonadExcept.throw failure) :=
  fun _ => rfl

theorem bind {mid : α → β} {image : γ → δ} {left : ExceptT Failure (StateM σ) α}
    {right : ExceptT Failure (StateM τ) β} {nextLeft : α → ExceptT Failure (StateM σ) γ}
    {nextRight : β → ExceptT Failure (StateM τ) δ} (first : Images seen mid left right)
    (next : ∀ value, Images seen image (nextLeft value) (nextRight (mid value))) :
    Images seen image (left >>= nextLeft) (right >>= nextRight) := by
  intro state
  rw [outcome_bind, outcome_bind, first state]
  rcases outcome left state with ⟨failure | value, later⟩
  · rfl
  · exact next value later

/-- A result that does not depend on the state. -/
theorem lift {left : Except Failure α} {right : Except Failure β} (same : right = left.map image) :
    Images seen image (liftM left) (liftM right) := by
  subst same
  intro state
  rw [outcome_liftM, outcome_liftM]

theorem same (result : Except Failure α) :
    Images seen id (liftM result : ExceptT Failure (StateM σ) α)
      (liftM result : ExceptT Failure (StateM τ) α) :=
  lift (Except.map_id ▸ rfl)

theorem reads : Images seen seen MonadState.get MonadState.get :=
  fun _ => rfl

theorem writes (state : σ) :
    Images seen id (MonadState.set state : ExceptT Failure (StateM σ) PUnit)
      (MonadState.set (seen state)) :=
  fun _ => rfl

theorem changes {left : σ → σ} {right : τ → τ}
    (same : ∀ state, right (seen state) = seen (left state)) :
    Images seen id (modify left : ExceptT Failure (StateM σ) PUnit) (modify right) := by
  intro state
  rw [outcome_modify, outcome_modify, same]
  rfl

/-- Steps that are images one by one are so one after the other. -/
theorem forM {items : List α} {stepLeft : α → ExceptT Failure (StateM σ) PUnit}
    {stepRight : β → ExceptT Failure (StateM τ) PUnit}
    (steps : ∀ item, Images seen id (stepLeft item) (stepRight (image item))) :
    Images seen id (items.forM stepLeft) ((items.map image).forM stepRight) := by
  induction items with
  | nil => exact fun _ => rfl
  | cons item rest ih => exact (steps item).bind fun _ => ih

end Images

/-- The second computation is the first as seen through the maps, from the states of an
invariant. -/
def ImagesOn (invariant : σ → Prop) (seen : σ → τ) (image : α → β)
    (left : ExceptT Failure (StateM σ) α) (right : ExceptT Failure (StateM τ) β) : Prop :=
  ∀ state, invariant state →
    outcome right (seen state) = ((outcome left state).1.map image, seen (outcome left state).2)

theorem Images.on {invariant : σ → Prop} {image : α → β} {left : ExceptT Failure (StateM σ) α}
    {right : ExceptT Failure (StateM τ) β} (images : Images seen image left right) :
    ImagesOn invariant seen image left right :=
  fun state _ => images state

/-- What follows on a first computation may rely on what holds of its answers. -/
theorem ImagesOn.bind {invariant : σ → Prop} {good : α → Prop} {mid : α → β} {image : γ → δ}
    {left : ExceptT Failure (StateM σ) α} {right : ExceptT Failure (StateM τ) β}
    {nextLeft : α → ExceptT Failure (StateM σ) γ} {nextRight : β → ExceptT Failure (StateM τ) δ}
    (first : ImagesOn invariant seen mid left right)
    (keeps : ∀ state, invariant state → invariant (outcome left state).2 ∧
      ∀ value, (outcome left state).1 = .ok value → good value)
    (next : ∀ value, good value →
      ImagesOn invariant seen image (nextLeft value) (nextRight (mid value))) :
    ImagesOn invariant seen image (left >>= nextLeft) (right >>= nextRight) := by
  intro state holds
  have kept := keeps state holds
  rw [outcome_bind, outcome_bind, first state holds]
  rcases ran : outcome left state with ⟨failure | value, later⟩ <;> rw [ran] at kept
  · rfl
  · exact next value (kept.2 value rfl) later kept.1

end Sysml
