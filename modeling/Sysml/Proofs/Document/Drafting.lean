import Sysml.Document.Export
import Sysml.Proofs.Outcome

/-!
# Steps of an export

What each step in the making of a document does to the draft: what it adds, and
what it leaves as it was.
-/

set_option autoImplicit false

namespace Sysml.Draft

variable {index : Scope.Index} {selfContained : Bool} {provenance : String} {owner id : Key}
  {symbol : Symbol} {draft later : Draft}

@[simp] theorem holds_add (draft : Draft) (record : Record) (id : Key) :
    (draft.add record).holds id = (draft.holds id || record.id == id) := by
  simp [holds, add]

@[simp] theorem add_records (draft : Draft) (record : Record) :
    (draft.add record).records = draft.records ++ [record] := rfl

@[simp] theorem add_visited (draft : Draft) (record : Record) :
    (draft.add record).visited = draft.visited := rfl

@[simp] theorem add_memo (draft : Draft) (record : Record) :
    (draft.add record).memo = draft.memo := rfl

theorem holds_congr {one other : Key} (same : (one == other) = true) (draft : Draft) :
    draft.holds one = draft.holds other := by
  simp only [holds, BEq.congr_right same]

def outside (draft : Draft) : List Key :=
  draft.externalRefs.map (·.1)

@[simp] theorem mention_records (index : Scope.Index) (selfContained : Bool) (target : Symbol)
    (draft : Draft) : (draft.mention index selfContained target).records = draft.records := by
  unfold mention
  split
  · split <;> rfl
  · rfl

@[simp] theorem mention_visited (index : Scope.Index) (selfContained : Bool) (target : Symbol)
    (draft : Draft) : (draft.mention index selfContained target).visited = draft.visited := by
  unfold mention
  split
  · split <;> rfl
  · rfl

@[simp] theorem mention_memo (index : Scope.Index) (selfContained : Bool) (target : Symbol)
    (draft : Draft) : (draft.mention index selfContained target).memo = draft.memo := by
  unfold mention
  split
  · split <;> rfl
  · rfl

@[simp] theorem reach_records (index : Scope.Index) (selfContained : Bool) (goal : Goal)
    (draft : Draft) : (draft.reach index selfContained goal).records = draft.records := by
  cases goal with
  | loaded target => exact mention_records ..
  | outside id name => rfl

@[simp] theorem reach_visited (index : Scope.Index) (selfContained : Bool) (goal : Goal)
    (draft : Draft) : (draft.reach index selfContained goal).visited = draft.visited := by
  cases goal with
  | loaded target => exact mention_visited ..
  | outside id name => rfl

@[simp] theorem reach_memo (index : Scope.Index) (selfContained : Bool) (goal : Goal)
    (draft : Draft) : (draft.reach index selfContained goal).memo = draft.memo := by
  cases goal with
  | loaded target => exact mention_memo ..
  | outside id name => rfl

theorem holds_of_records {draft later : Draft} (same : later.records = draft.records) (id : Key) :
    later.holds id = draft.holds id := by
  rw [holds, same, holds]

theorem ownerOf_mem {owner : Symbol} (owned : ownerOf index symbol = some owner) :
    owner ∈ index.symbols := by
  obtain ⟨name, _, looked⟩ := Option.bind_eq_some_iff.mp owned
  exact List.mem_of_find?_eq_some looked

/-- A minted id is no record's. -/
theorem freshId?_fresh {kind key : String} {tries ordinal : Nat}
    (minted : draft.freshId? kind key tries ordinal = some id) : draft.holds id = false := by
  induction tries generalizing ordinal with
  | zero => cases minted
  | succ tries ih =>
    simp only [freshId?] at minted
    split at minted
    · exact ih minted
    · next free =>
      cases minted
      simpa using free

/-- The id of a new relationship is no record's. -/
theorem linkId_fresh {link : Link} (given : draft.linkId link = .ok id) :
    draft.holds id = false := by
  obtain ⟨carried, _, given⟩ := result_bind_ok given
  split at given
  · next kept =>
    cases given
    simpa using (Option.filter_eq_some_iff.mp kept).2
  · split at given
    · next minted =>
      cases given
      exact freshId?_fresh minted
    · cases given

/-- A relationship is added after its target was taken note of. -/
theorem addLink_ok {link : Link}
    (added : addLink index selfContained provenance owner link draft = .ok later) :
    ∃ id, (draft.reach index selfContained link.goal).linkId link = .ok id ∧
      later = (draft.reach index selfContained link.goal).add
        (link.record index provenance owner id) := by
  obtain ⟨id, given, same⟩ := result_bind_ok added
  cases same
  exact ⟨id, given, rfl⟩

/-- A search leaves all but the memo as it was. -/
theorem outcome_search {α : Type} (run : Scope.Search α) (draft : Draft) :
    outcome (search run) draft =
      ((outcome run draft.memo).1, { draft with memo := (outcome run draft.memo).2 }) := by
  unfold search
  rw [outcome_bind_of_ok (outcome_get draft)]
  rcases ran : outcome run draft.memo with ⟨failure | value, memo⟩ <;>
    change run.run.run draft.memo = _ at ran <;>
    · dsimp only
      rw [ran]
      exact outcome_bind_of_ok (outcome_set _ _)

theorem addLink?_some {link : Link} :
    outcome (addLink? index selfContained provenance owner (some link)) draft =
      match addLink index selfContained provenance owner link draft with
      | .ok later => (.ok ⟨⟩, later)
      | .error failure => (.error failure, draft) := by
  have lifted := outcome_liftM (σ := Draft)
    (addLink index selfContained provenance owner link draft) draft
  refine (outcome_bind_of_ok (outcome_get draft)).trans ?_
  cases same : addLink index selfContained provenance owner link draft with
  | error failure =>
    rw [same] at lifted
    exact outcome_bind_of_error lifted
  | ok later =>
    rw [same] at lifted
    exact outcome_bind_of_ok lifted

/-- What is added for a relationship, if there is one. -/
theorem addLink?_ok {link? : Option Link}
    (ran : outcome (addLink? index selfContained provenance owner link?) draft = (.ok ⟨⟩, later)) :
    link? = none ∧ later = draft ∨
      ∃ link, link? = some link ∧
        addLink index selfContained provenance owner link draft = .ok later := by
  cases link? with
  | none =>
    cases ran
    exact .inl ⟨rfl, rfl⟩
  | some link =>
    rw [addLink?_some] at ran
    split at ran
    · next added =>
      cases ran
      exact .inr ⟨link, rfl, added⟩
    · cases ran

/-- A reference is resolved, and then its relationship is added. -/
theorem addReference_ok {reference : Reference}
    (ran : outcome (addReference index selfContained provenance symbol reference) draft =
      (.ok ⟨⟩, later)) :
    ∃ meant memo, outcome (Scope.resolveReference index reference symbol) draft.memo =
        (.ok meant, memo) ∧
      outcome (addLink? index selfContained provenance (idOf index symbol)
        (reference.link? symbol meant)) { draft with memo } = (.ok ⟨⟩, later) := by
  obtain ⟨meant, middle, searched, added⟩ := outcome_bind_ok ran
  rw [outcome_search] at searched
  rcases found : outcome (Scope.resolveReference index reference symbol) draft.memo with
    ⟨result, memo⟩
  rw [found] at searched
  cases searched
  exact ⟨meant, memo, rfl, added⟩

/-- An import is resolved, and then its relationship is added. -/
theorem addImport_ok {i : Import}
    (ran : outcome (addImport index selfContained provenance symbol i) draft = (.ok ⟨⟩, later)) :
    ∃ named link?, Scope.resolveImport index i (some symbol.qualifiedName) = .ok named ∧
      i.link? symbol named = .ok link? ∧
      outcome (addLink? index selfContained provenance (idOf index symbol) link?) draft =
        (.ok ⟨⟩, later) := by
  obtain ⟨named, between, resolved, rest⟩ := outcome_bind_ok ran
  have resolved := (outcome_liftM (Scope.resolveImport index i (some symbol.qualifiedName))
    draft).symm.trans resolved
  cases same : Scope.resolveImport index i (some symbol.qualifiedName) with
  | error failure => rw [same] at resolved; cases resolved
  | ok found =>
    rw [same] at resolved
    cases resolved
    obtain ⟨link?, after, linked, added⟩ := outcome_bind_ok rest
    have linked := (outcome_liftM (i.link? symbol named) draft).symm.trans linked
    cases sameLink : i.link? symbol named with
    | error failure => rw [sameLink] at linked; cases linked
    | ok link =>
      rw [sameLink] at linked
      cases linked
      exact ⟨named, link?, rfl, sameLink, added⟩

/-- The draft in which a symbol's relationships are added. -/
def begun (index : Scope.Index) (selfContained : Bool) (provenance : String) (symbol : Symbol)
    (draft : Draft) : Draft :=
  { draft with visited := symbol.serial :: draft.visited }.declare index selfContained provenance
    symbol

theorem takeUp_outcome :
    outcome (takeUp index selfContained provenance symbol) draft =
      if draft.visited.contains symbol.serial then (.ok ⟨⟩, draft)
      else
        outcome (do
          symbol.references.forM (addReference index selfContained provenance symbol)
          symbol.imports.forM (addImport index selfContained provenance symbol))
          (draft.begun index selfContained provenance symbol) := by
  unfold takeUp
  rw [outcome_bind_of_ok (outcome_get draft)]
  split
  · rfl
  · rw [outcome_bind_of_ok (outcome_modify ..)]
    rfl

/-- Where nothing is queued, composing ends when the symbols were taken up. -/
theorem compose_undrained {symbols : List Symbol}
    (ran : outcome (symbols.forM (takeUp index selfContained Record.modelProvenance)) draft =
      (.ok ⟨⟩, later))
    (pending : later.pending = []) :
    outcome (compose index selfContained symbols) draft = (.ok ⟨⟩, later) := by
  refine (outcome_bind_of_ok ran).trans ((outcome_bind_of_ok (outcome_get later)).trans ?_)
  generalize drainFuel index later = fuel
  cases fuel <;>
  · refine (outcome_bind_of_ok (outcome_get later)).trans ?_
    rw [pending]
    rfl

end Sysml.Draft
