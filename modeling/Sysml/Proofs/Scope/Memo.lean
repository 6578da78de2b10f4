import Sysml.Proofs.Scope.Simulation

/-!
# The memo

A search only adds answers to the memo, never for a query that is under way, and
all it finds are symbols of the index (`resolve_behaves`). An answer that was
given while no query was under way is given again by every memo that holds what
was stored then, and the memo stays as it is (`resolveReference_settles`).
-/

set_option autoImplicit false

namespace Sysml.Scope

theorem Query.beq_eq (a b : Query) :
    (a == b) = (a.path == b.path && (a.scope == b.scope && a.file == b.file)) := by
  rfl

instance partialEquivBEq_option {α : Type} [BEq α] [PartialEquivBEq α] :
    PartialEquivBEq (Option α) where
  symm := by
    rintro (_ | a) (_ | b) same
    · rfl
    · cases same
    · cases same
    · exact BEq.symm (α := α) same
  trans := by
    rintro (_ | a) (_ | b) (_ | c) one two
    · rfl
    · exact two
    · cases one
    · cases one
    · cases one
    · cases one
    · cases two
    · exact BEq.trans (α := α) one two

instance : EquivBEq Query where
  rfl := by simp [Query.beq_eq]
  symm := by
    intro a b
    simp only [Query.beq_eq, Bool.and_eq_true]
    exact fun ⟨path, scope, file⟩ => ⟨BEq.symm path, BEq.symm scope, BEq.symm file⟩
  trans := by
    intro a b c
    simp only [Query.beq_eq, Bool.and_eq_true]
    exact fun ⟨path, scope, file⟩ ⟨path', scope', file'⟩ =>
      ⟨BEq.trans path path', BEq.trans scope scope', BEq.trans file file'⟩

namespace Memo

theorem lookup_congr {first second : Query} (same : (first == second) = true) (memo : Memo) :
    memo.lookup first = memo.lookup second := by
  induction memo with
  | nil => rfl
  | cons entry rest ih =>
    obtain ⟨held, found⟩ := entry
    simp only [List.lookup_cons, ih, BEq.congr_left same]

def Within (index : Index) (memo : Memo) : Prop :=
  ∀ entry ∈ memo, index.Has entry.2

theorem Within.lookup {index : Index} {memo : Memo} (within : memo.Within index) {query : Query}
    {found : Option Symbol} (known : memo.lookup query = some found) : index.Has found := by
  obtain ⟨held, _, member⟩ := Entries.exists_mem_of_lookup known
  exact within _ member

def Known (memo later : Memo) : Prop :=
  ∀ query found, memo.lookup query = some found → later.lookup query = some found

/-- The second memo comes from the first one by adding answers to queries that
were neither known nor under way. -/
structure Grows (active : List Query) (memo later : Memo) : Prop where
  suffix : memo <:+ later
  known : memo.Known later
  awaited : ∀ query, active.contains query = true → memo.lookup query = none →
    later.lookup query = none

namespace Grows

variable {active : List Query} {memo middle later : Memo}

theorem refl (active : List Query) (memo : Memo) : Grows active memo memo :=
  ⟨List.suffix_rfl, fun _ _ known => known, fun _ _ unknown => unknown⟩

theorem trans (first : Grows active memo middle) (second : Grows active middle later) :
    Grows active memo later :=
  ⟨first.suffix.trans second.suffix,
    fun query found known => second.known query found (first.known query found known),
    fun query awaits unknown => second.awaited query awaits (first.awaited query awaits unknown)⟩

theorem weaken {query : Query} (grows : Grows (query :: active) memo later) :
    Grows active memo later :=
  ⟨grows.suffix, grows.known, fun other awaits =>
    grows.awaited other (by rw [List.contains_cons, awaits, Bool.or_true])⟩

theorem push {query : Query} (found : Option Symbol) (idle : active.contains query = false)
    (unknown : memo.lookup query = none) : Grows active memo ((query, found) :: memo) where
  suffix := List.suffix_cons _ _
  known := by
    intro other answer known
    have apart : (other == query) = false := by
      cases same : other == query with
      | false => rfl
      | true => rw [lookup_congr same, unknown] at known; cases known
    rw [List.lookup_cons, apart]
    exact known
  awaited := by
    intro other awaits stillUnknown
    have apart : (other == query) = false := by
      cases same : other == query with
      | false => rfl
      | true => rw [List.contains_congr same, idle] at awaits; cases awaits
    rw [List.lookup_cons, apart]
    exact stillUnknown

end Grows

end Memo

/-- The answer to a query while others are under way: the memo's, none for a query
that is itself under way, or else a new one, which is stored. -/
theorem resolveWith_outcome (index : Index) (refer : Refer) (active : List Query) (query : Query)
    (memo : Memo) :
    outcome (resolveWith index refer active query) memo =
      match memo.lookup query with
      | some known => (.ok known, memo)
      | none =>
          if active.contains query then (.ok none, memo)
          else
            match outcome (answer index (refer (query :: active)) query) memo with
            | (.ok found, later) => (.ok found, (query, found) :: later)
            | (.error failure, later) => (.error failure, later) := by
  unfold resolveWith
  rw [outcome_bind_of_ok (outcome_get memo)]
  cases memo.lookup query with
  | some known => rfl
  | none =>
    dsimp only
    split
    · rfl
    · rw [outcome_bind]
      rcases outcome (answer index (refer (query :: active)) query) memo with ⟨_ | _, _⟩ <;> rfl

/-- A search keeps to the index and only adds to the memo. -/
structure Behaves {α : Type} (index : Index) (active : List Query) (post : α → Prop)
    (run : Search α) : Prop where
  answers : ∀ {memo}, memo.Within index → ∀ value, (outcome run memo).1 = .ok value → post value
  within : ∀ {memo}, memo.Within index → (outcome run memo).2.Within index
  grows : ∀ {memo}, memo.Within index → Memo.Grows active memo (outcome run memo).2

namespace Behaves

variable {α β : Type} {index : Index} {active : List Query}

theorem pure {post : α → Prop} {value : α} (holds : post value) :
    Behaves index active post (Pure.pure value) where
  answers _ _ same := Except.ok.inj same ▸ holds
  within inside := inside
  grows _ := .refl ..

theorem throw {post : α → Prop} (failure : Failure) :
    Behaves index active post (MonadExcept.throw failure) where
  answers _ _ same := by cases same
  within inside := inside
  grows _ := .refl ..

theorem bind {mid : α → Prop} {post : β → Prop} {run : Search α} {next : α → Search β}
    (first : Behaves index active mid run)
    (rest : ∀ value, mid value → Behaves index active post (next value)) :
    Behaves index active post (run >>= next) := by
  have parts (memo : Memo) (inside : memo.Within index) :
      (∃ value later, outcome (run >>= next) memo = outcome (next value) later ∧ mid value ∧
        later.Within index ∧ Memo.Grows active memo later) ∨
      ∃ failure later, outcome (run >>= next) memo = (.error failure, later) ∧
        later.Within index ∧ Memo.Grows active memo later := by
    have answers := first.answers inside
    have within := first.within inside
    have grows := first.grows inside
    rcases ran : outcome run memo with ⟨failure | value, later⟩ <;> rw [ran] at answers within grows
    · exact .inr ⟨failure, later, outcome_bind_of_error ran, within, grows⟩
    · exact .inl ⟨value, later, outcome_bind_of_ok ran, answers value rfl, within, grows⟩
  constructor
  · intro memo inside value same
    rcases parts memo inside with ⟨v, later, ran, holds, within, _⟩ | ⟨failure, later, ran, _⟩
    · exact (rest v holds).answers within value (ran ▸ same)
    · rw [ran] at same; cases same
  · intro memo inside
    rcases parts memo inside with ⟨v, later, ran, holds, within, _⟩ | ⟨failure, later, ran, within, _⟩
    · exact ran ▸ (rest v holds).within within
    · exact ran ▸ within
  · intro memo inside
    rcases parts memo inside with ⟨v, later, ran, holds, within, grows⟩ | ⟨failure, later, ran, _, grows⟩
    · exact ran ▸ grows.trans ((rest v holds).grows within)
    · exact ran ▸ grows

def simulation (index : Index) (active : List Query) : Simulation where
  related post left _ := Behaves index active post left
  pure := pure
  throw := throw
  bind := bind

theorem resolveWith {refer : Refer} {query : Query}
    (answers : Behaves index (query :: active) index.Has
      (answer index (refer (query :: active)) query)) :
    Behaves index active index.Has (resolveWith index refer active query) := by
  have step (memo : Memo) (inside : memo.Within index) :
      (∀ found, (outcome (Scope.resolveWith index refer active query) memo).1 = .ok found →
        index.Has found) ∧
      (outcome (Scope.resolveWith index refer active query) memo).2.Within index ∧
      Memo.Grows active memo (outcome (Scope.resolveWith index refer active query) memo).2 := by
    rw [resolveWith_outcome]
    split
    · next known looked =>
      exact ⟨fun _ same => Except.ok.inj same ▸ inside.lookup looked, inside, .refl ..⟩
    · next unknown =>
      split
      · exact ⟨fun _ same => Except.ok.inj same ▸ index.has_none, inside, .refl ..⟩
      · next idle =>
        have idle : active.contains query = false := by simpa using idle
        have holds := answers.answers inside
        have within := answers.within inside
        have grows := answers.grows inside
        rcases ran : outcome (answer index (refer (query :: active)) query) memo with
          ⟨failure | found, later⟩ <;> rw [ran] at holds within grows
        · exact ⟨fun _ same => (by cases same), within, grows.weaken⟩
        · have stillUnknown := grows.awaited query (by simp) unknown
          refine ⟨fun _ same => Except.ok.inj same ▸ holds found rfl, ?_,
            grows.weaken.trans (.push found idle stillUnknown)⟩
          intro entry member
          rcases List.mem_cons.mp member with rfl | old
          · exact holds found rfl
          · exact within entry old
  exact ⟨fun inside => (step _ inside).1, fun inside => (step _ inside).2.1,
    fun inside => (step _ inside).2.2⟩

variable (within : index.IdsWithin)

include within

theorem referAt (depth : Nat) (active : List Query) (reference : Reference) (symbol : Symbol) :
    Behaves index active index.Has (referAt index depth active reference symbol) :=
  Simulation.refers_related (simulation index) within (fun _ _ _ answers => resolveWith answers)
    depth active reference symbol

theorem answer (depth : Nat) (active : List Query) (query : Query) :
    Behaves index active index.Has (answer index (Scope.referAt index depth active) query) := by
  have agree : ∀ symbol ∈ index.symbols, ∀ reference ∈ symbol.references,
      (simulation index active).related index.Has
        (Scope.referAt index depth active reference symbol)
        (Scope.referAt index depth active reference symbol) :=
    fun symbol _ reference _ => referAt within depth active reference symbol
  exact (simulation index active).answer_related within agree query

end Behaves

/-- Queries behave whatever was asked before. -/
theorem resolve_behaves {index : Index} (within : index.IdsWithin) (query : Query) :
    Behaves index [] index.Has (resolve index query) :=
  Behaves.resolveWith (Behaves.answer within _ _ query)

theorem resolveReference_behaves {index : Index} (within : index.IdsWithin)
    (reference : Reference) (symbol : Symbol) :
    Behaves index [] index.Has (resolveReference index reference symbol) :=
  Behaves.referAt within _ _ reference symbol

/-- A search that leaves the memo as it is does so in each of its parts. -/
theorem outcome_bind_fixed {α β : Type} {index : Index} {active : List Query} {mid : α → Prop}
    {post : β → Prop} {run : Search α} {next : α → Search β} {memo : Memo} {value : β}
    (within : memo.Within index) (first : Behaves index active mid run)
    (rest : ∀ value, mid value → Behaves index active post (next value))
    (ran : outcome (run >>= next) memo = (.ok value, memo)) :
    ∃ between, mid between ∧ outcome run memo = (.ok between, memo) ∧
      outcome (next between) memo = (.ok value, memo) := by
  obtain ⟨between, middle, firstRan, restRan⟩ := outcome_bind_ok ran
  have holds : mid between := first.answers within between (by rw [firstRan])
  have inside : middle.Within index := by simpa [firstRan] using first.within within
  have begun : memo <:+ middle := by simpa [firstRan] using (first.grows within).suffix
  have ended : middle <:+ memo := by
    simpa [restRan] using ((rest between holds).grows inside).suffix
  have same : middle = memo := ended.eq_of_length_le begun.length_le
  exact ⟨between, holds, same ▸ firstRan, same ▸ restRan⟩

/-- A search whose answer stays: wherever all is known that was stored when it
was given, it is given again and nothing more is stored. -/
structure Settles {α : Type} (index : Index) (post : α → Prop) (run : Search α) : Prop where
  behaves : Behaves index [] post run
  again : ∀ {memo value later}, memo.Within index → outcome run memo = (.ok value, later) →
    ∀ {other}, later.Known other → outcome run other = (.ok value, other)

namespace Settles

variable {α β : Type} {index : Index}

theorem pure {post : α → Prop} {value : α} (holds : post value) :
    Settles index post (Pure.pure value) where
  behaves := .pure holds
  again _ ran _ _ := by
    cases ran
    rfl

theorem throw {post : α → Prop} (failure : Failure) :
    Settles index post (MonadExcept.throw failure) where
  behaves := .throw failure
  again _ ran _ _ := by cases ran

theorem bind {mid : α → Prop} {post : β → Prop} {run : Search α} {next : α → Search β}
    (first : Settles index mid run) (rest : ∀ value, mid value → Settles index post (next value)) :
    Settles index post (run >>= next) where
  behaves := first.behaves.bind fun value holds => (rest value holds).behaves
  again := by
    intro memo value later inside ran other known
    obtain ⟨middle, between, firstRan, restRan⟩ := outcome_bind_ok ran
    have holds : mid middle := first.behaves.answers inside middle (by rw [firstRan])
    have insideBetween : between.Within index := by
      simpa [firstRan] using first.behaves.within inside
    have grows : between.Known later := by
      simpa [restRan] using ((rest middle holds).behaves.grows insideBetween).known
    rw [outcome_bind_of_ok (first.again inside firstRan fun query found was =>
      known query found (grows query found was))]
    exact (rest middle holds).again insideBetween restRan known

def simulation (index : Index) : Simulation where
  related post left _ := Settles index post left
  pure := pure
  throw := throw
  bind := bind

/-- A query settles when none is under way: whatever is asked on the way is stored
beside its own answer. -/
theorem resolveWith {refer : Refer} {query : Query}
    (answers : Behaves index [query] index.Has (answer index (refer [query]) query)) :
    Settles index index.Has (resolveWith index refer [] query) where
  behaves := Behaves.resolveWith answers
  again := by
    intro memo value later inside ran other known
    have stored : later.lookup query = some value := by
      rw [resolveWith_outcome] at ran
      split at ran
      · next looked => cases ran; exact looked
      · simp only [List.contains_nil, Bool.false_eq_true, ↓reduceIte] at ran
        split at ran
        · cases ran; simp
        · cases ran
    rw [resolveWith_outcome, known query value stored]

variable (within : index.IdsWithin)

include within

theorem referAt (depth : Nat) (reference : Reference) (symbol : Symbol) :
    Settles index index.Has (referAt index depth [] reference symbol) := by
  induction depth generalizing reference symbol with
  | zero => exact .throw _
  | succ depth ih =>
    have resolves (query : Query) : (simulation index).related index.Has
        (Scope.resolveWith index (Scope.referAt index depth) [] query)
        (Scope.resolveWith index (Scope.referAt index depth) [] query) :=
      resolveWith (Behaves.answer within depth [query] query)
    exact (simulation index).referAt_related within resolves rfl rfl
      (fun symbol _ reference _ => ih reference symbol) reference symbol

end Settles

theorem resolveReference_settles {index : Index} (within : index.IdsWithin)
    (reference : Reference) (symbol : Symbol) :
    Settles index index.Has (resolveReference index reference symbol) :=
  Settles.referAt within _ reference symbol

end Sysml.Scope
