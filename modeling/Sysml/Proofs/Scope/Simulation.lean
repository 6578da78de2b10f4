import Sysml.Proofs.Outcome
import Sysml.Scope.Resolution

/-!
# Relations between searches

The rules of name resolution only put searches for references one after the
other. So a relation between searches that sequencing keeps, and that holds
between two ways of resolving references, holds between the answers to any query
that are found in these two ways (`answer_related`). What answers and memos have
in common over all runs is proved by choosing the relation.
-/

set_option autoImplicit false

namespace Sysml.Scope

namespace Index

def Has (index : Index) (found : Option Symbol) : Prop :=
  ∀ symbol, found = some symbol → symbol ∈ index.symbols

def IdsWithin (index : Index) : Prop :=
  ∀ entry ∈ index.byId, entry.2 ∈ index.symbols

theorem build_idsWithin (symbols : List Symbol) (rootImports : List (String × List Import)) :
    (build symbols rootImports).IdsWithin := by
  intro entry member
  obtain ⟨symbol, inside, built⟩ := List.mem_filterMap.mp member
  obtain ⟨id, _, rfl⟩ := Option.map_eq_some_iff.mp built
  exact inside

theorem has_none (index : Index) : index.Has none := by
  intro symbol found
  cases found

theorem has_lookup (index : Index) (name : Key) : index.Has (index.lookup name) :=
  fun _ found => List.mem_of_find?_eq_some found

theorem members_subset (index : Index) (space : Option Key) :
    index.members space ⊆ index.symbols :=
  fun _ member => (List.mem_filter.mp member).1

theorem named_subset (index : Index) (name : Key) : index.named name ⊆ index.symbols :=
  fun _ member => (List.mem_filter.mp member).1

theorem outgoing_within {index : Index} {space : Key} {entry : Symbol × Reference}
    (member : entry ∈ index.outgoing space) :
    entry.1 ∈ index.symbols ∧ entry.2 ∈ entry.1.references := by
  obtain ⟨symbol, named, inside⟩ := List.mem_flatMap.mp member
  obtain ⟨reference, listed, rfl⟩ := List.mem_map.mp inside
  exact ⟨index.named_subset space named, listed⟩

theorem IdsWithin.has_lookupId {index : Index} (within : index.IdsWithin) (id : Key) :
    index.Has (index.lookupId id) := by
  intro symbol found
  obtain ⟨held, _, member⟩ := Entries.exists_mem_of_lookup found
  exact within _ member

end Index

theorem descendantFrom_within {index : Index} {name : String} {fuel : Nat} {queue : List Symbol}
    {expanded : List Key} (within : queue ⊆ index.symbols) :
    index.Has (descendantFrom index name fuel queue expanded) := by
  induction fuel generalizing queue expanded with
  | zero => exact index.has_none
  | succ fuel ih =>
    cases queue with
    | nil => exact index.has_none
    | cons symbol queue =>
      obtain ⟨first, rest⟩ := List.cons_subset.mp within
      simp only [descendantFrom]
      split
      · intro found same
        cases same
        exact first
      · split
        · exact ih rest
        · exact ih (List.append_subset.mpr ⟨rest, index.members_subset _⟩)

section Bound

variable {index : Index}

theorem boundTo_within (within : index.IdsWithin) {id : Option Key} {found : Option Symbol}
    (answered : boundTo index id = .ok found) : index.Has found := by
  unfold boundTo at answered
  split at answered
  · cases answered
    exact index.has_none
  · obtain ⟨key, _, rfl⟩ := result_map_ok answered
    exact within.has_lookupId key

theorem lookupOutward_within {path scope : Key} {found : Option Symbol}
    (answered : lookupOutward index path scope = .ok found) : index.Has found := by
  unfold lookupOutward at answered
  dsimp only at answered
  split at answered
  · cases answered
    intro symbol found
    obtain ⟨outer, _, looked⟩ := List.exists_of_findSome?_eq_some found
    exact index.has_lookup _ symbol looked
  · split at answered
    · next looked =>
      cases answered
      intro symbol same
      cases same
      exact index.has_lookup _ _ looked
    · cases answered

theorem resolveImport_within (within : index.IdsWithin) {i : Import} {scope : Option Key}
    {found : Option Symbol} (answered : resolveImport index i scope = .ok found) :
    index.Has found := by
  unfold resolveImport at answered
  obtain ⟨bound, boundFound, answered⟩ := result_bind_ok answered
  cases bound with
  | some symbol =>
    cases answered
    exact boundTo_within within boundFound
  | none =>
    obtain ⟨path, _, answered⟩ := result_bind_ok answered
    split at answered
    · next looked =>
      cases answered
      exact looked ▸ index.has_lookup path
    · split at answered
      · cases answered
        exact index.has_none
      · exact lookupOutward_within answered

theorem boundTarget_within (within : index.IdsWithin) {reference : Reference}
    {found : Option Symbol} (answered : boundTarget index reference = .ok found) :
    index.Has found := by
  unfold boundTarget at answered
  obtain ⟨bound, boundFound, answered⟩ := result_bind_ok answered
  cases bound with
  | some symbol =>
    cases answered
    exact boundTo_within within boundFound
  | none =>
    dsimp only at answered
    split at answered
    · cases answered
      exact index.has_none
    · obtain ⟨name, _, answered⟩ := result_bind_ok answered
      cases answered
      exact index.has_lookup name

end Bound

/-- A relation between searches that sequencing keeps. The predicate is what the
answers of related searches satisfy. -/
structure Simulation where
  related : {α : Type} → (α → Prop) → Search α → Search α → Prop
  pure : ∀ {α : Type} {post : α → Prop} {value : α}, post value →
    related post (Pure.pure value) (Pure.pure value)
  throw : ∀ {α : Type} {post : α → Prop} (failure : Failure),
    related post (MonadExcept.throw failure) (MonadExcept.throw failure)
  bind : ∀ {α β : Type} {mid : α → Prop} {post : β → Prop} {left right : Search α}
    {nextLeft nextRight : α → Search β}, related mid left right →
    (∀ value, mid value → related post (nextLeft value) (nextRight value)) →
    related post (left >>= nextLeft) (right >>= nextRight)

namespace Simulation

theorem lift (sim : Simulation) {α : Type} {post : α → Prop} (result : Except Failure α)
    (holds : ∀ value, result = .ok value → post value) :
    sim.related post (liftM result) (liftM result) := by
  cases result with
  | error failure => exact sim.throw failure
  | ok value => exact sim.pure (holds value rfl)

theorem liftAny (sim : Simulation) {α : Type} (result : Except Failure α) :
    sim.related (fun _ => True) (liftM result) (liftM result) :=
  sim.lift result fun _ _ => trivial

section Rules

variable (sim : Simulation) {index : Index} (within : index.IdsWithin)
  {left right : Reference → Symbol → Search (Option Symbol)}
  (agree : ∀ symbol ∈ index.symbols, ∀ reference ∈ symbol.references,
    sim.related index.Has (left reference symbol) (right reference symbol))

include agree

theorem inherited_related {space : Key}
    {downLeft downRight : Key → List Key → Search (Option Symbol × List Key)}
    (below : ∀ general visited, sim.related (fun answer => index.Has answer.1)
      (downLeft general visited) (downRight general visited))
    (entries : List (Symbol × Reference))
    (inside : ∀ entry ∈ entries, entry.1 ∈ index.symbols ∧ entry.2 ∈ entry.1.references)
    (visited : List Key) :
    sim.related (fun answer => index.Has answer.1)
      (inherited left downLeft space entries visited)
      (inherited right downRight space entries visited) := by
  induction entries generalizing visited with
  | nil => exact sim.pure index.has_none
  | cons entry rest ih =>
    obtain ⟨symbol, reference⟩ := entry
    obtain ⟨symbolIn, referenceIn⟩ := inside (symbol, reference) List.mem_cons_self
    have next := ih fun other member => inside other (List.mem_cons_of_mem _ member)
    simp only [inherited]
    refine sim.bind (agree symbol symbolIn reference referenceIn) ?_
    intro general _
    cases general with
    | none => exact next visited
    | some general =>
      dsimp only
      split
      · exact next visited
      · refine sim.bind (below _ _) ?_
        intro answer found
        obtain ⟨member, later⟩ := answer
        cases member with
        | none => exact next later
        | some member => exact sim.pure found

theorem member_related (name : String) (fuel : Nat) (space : Option Key) (visited : List Key) :
    sim.related (fun answer => index.Has answer.1) (member index left name fuel space visited)
      (member index right name fuel space visited) := by
  induction fuel generalizing space visited with
  | zero => exact sim.throw _
  | succ fuel ih =>
    simp only [member]
    split
    · next found looked =>
      refine sim.pure ?_
      intro symbol same
      cases same
      exact index.members_subset space (List.mem_of_find?_eq_some looked)
    · cases space with
      | none => exact sim.pure index.has_none
      | some space =>
        dsimp only
        split
        · exact sim.pure index.has_none
        · exact sim.inherited_related agree (fun general visited => ih (some general) visited) _
            (fun _ => Index.outgoing_within) _

theorem findMember_related (space : Option Key) (name : String) :
    sim.related index.Has (findMember index left space name)
      (findMember index right space name) :=
  sim.bind (sim.member_related agree name _ space []) fun _ found => sim.pure found

theorem findInherited_related (space : Key) (name : String) :
    sim.related index.Has (findInherited index left space name)
      (findInherited index right space name) :=
  sim.bind (sim.inherited_related agree (fun _ => sim.member_related agree name _ _) _
    (fun _ => Index.outgoing_within) _) fun _ found => sim.pure found

theorem descend_related (start : Option Symbol) (segments : List String)
    (has : index.Has start) :
    sim.related index.Has (descend index left start segments)
      (descend index right start segments) := by
  induction segments generalizing start with
  | nil => cases start <;> exact sim.pure has
  | cons segment rest ih =>
    cases start with
    | none => exact sim.pure has
    | some symbol =>
      exact sim.bind (sim.findMember_related agree _ segment) fun found holds => ih found holds

include within

theorem throughEach_related {space : Option Key} {publicOnly : Bool} {name : String}
    {downLeft downRight : Key → List Key → Search (Option Symbol × List Key)}
    (below : ∀ target visited, sim.related (fun answer => index.Has answer.1)
      (downLeft target visited) (downRight target visited))
    (imports : List Import) (visited : List Key) :
    sim.related (fun answer => index.Has answer.1)
      (throughEach index left downLeft name space publicOnly imports visited)
      (throughEach index right downRight name space publicOnly imports visited) := by
  induction imports generalizing visited with
  | nil => exact sim.pure index.has_none
  | cons i rest ih =>
    simp only [throughEach]
    split
    · exact ih visited
    · refine sim.bind (sim.lift _ fun _ => resolveImport_within within) ?_
      intro target has
      cases target with
      | none => exact ih visited
      | some target =>
        dsimp only
        split
        · split
          · exact sim.pure has
          · exact ih visited
        · refine sim.bind (sim.findMember_related agree _ name) ?_
          intro found hasFound
          cases found with
          | some found => exact sim.pure hasFound
          | none =>
            dsimp only
            split
            · next found looked =>
              refine sim.pure ?_
              split at looked
              · exact looked ▸ descendantFrom_within (index.members_subset _)
              · cases looked
            · refine sim.bind (below _ _) ?_
              intro answer hasAnswer
              obtain ⟨found, later⟩ := answer
              cases found with
              | none => exact ih later
              | some found => exact sim.pure hasAnswer

theorem throughImports_related (name file : String) (fuel : Nat) (space : Option Key)
    (publicOnly : Bool) (visited : List Key) :
    sim.related (fun answer => index.Has answer.1)
      (throughImports index left name file fuel space publicOnly visited)
      (throughImports index right name file fuel space publicOnly visited) := by
  induction fuel generalizing space publicOnly visited with
  | zero => exact sim.throw _
  | succ fuel ih =>
    simp only [throughImports]
    split
    · exact sim.pure index.has_none
    · exact sim.throughEach_related within agree (fun target visited => ih _ _ visited) _ _

theorem inNamespace_related (name file : String) (space : Option Key) :
    sim.related index.Has (inNamespace index left name file space)
      (inNamespace index right name file space) := by
  refine sim.bind (sim.findMember_related agree space name) ?_
  intro found has
  cases found with
  | some found => exact sim.pure has
  | none =>
    exact sim.bind (sim.throughImports_related within agree name file _ space false []) fun _ found =>
      sim.pure found

theorem outward_related (name file : String) (fuel : Nat) (space : Option Key) :
    sim.related index.Has (outward index left name file fuel space)
      (outward index right name file fuel space) := by
  induction fuel generalizing space with
  | zero => exact sim.throw _
  | succ fuel ih =>
    refine sim.bind (sim.inNamespace_related within agree name file space) ?_
    intro found has
    cases found with
    | some found => exact sim.pure has
    | none =>
      cases space with
      | none => exact sim.pure index.has_none
      | some space =>
        exact sim.bind (sim.liftAny _) fun outer _ =>
          ih outer

/-- Ways of resolving references that are related answer queries in related ways. -/
theorem answer_related (query : Query) :
    sim.related index.Has (answer index left query) (answer index right query) := by
  unfold answer
  split
  · exact sim.pure index.has_none
  · refine sim.bind (sim.outward_related within agree _ _ _ _) ?_
    intro start has
    refine sim.bind (sim.descend_related agree start _ has) ?_
    intro found hasFound
    cases found with
    | some found => exact sim.pure hasFound
    | none => exact sim.pure (index.has_lookup _)

end Rules

section References

variable (sim : Simulation) {index : Index} (within : index.IdsWithin) {left right : Refer}
  {activeLeft activeRight : List Query}
  (resolves : ∀ query, sim.related index.Has (resolveWith index left activeLeft query)
    (resolveWith index right activeRight query))

include resolves

theorem resolveRedefinition_related
    (agree : ∀ symbol ∈ index.symbols, ∀ reference ∈ symbol.references,
      sim.related index.Has (left activeLeft reference symbol) (right activeRight reference symbol))
    (path : String) (symbol : Symbol) (owner : Key) :
    sim.related index.Has (resolveRedefinition index left activeLeft path symbol owner)
      (resolveRedefinition index right activeRight path symbol owner) := by
  unfold resolveRedefinition
  split
  · exact sim.throw _
  · next last _ =>
    refine sim.bind (sim.findInherited_related agree owner last) ?_
    intro found has
    cases found with
    | some found => exact sim.pure has
    | none =>
      refine sim.bind (sim.liftAny _) fun outer _ => ?_
      refine sim.bind (resolves _) fun found hasFound => sim.pure ?_
      intro other kept
      exact hasFound other (Option.filter_eq_some_iff.mp kept).1

include within

/-- One level of references: what a reference means is related where what its
path means is. -/
theorem referAt_related {depthLeft depthRight : Nat} (isLeft : left = referAt index depthLeft)
    (isRight : right = referAt index depthRight)
    (agree : ∀ symbol ∈ index.symbols, ∀ reference ∈ symbol.references,
      sim.related index.Has (left activeLeft reference symbol) (right activeRight reference symbol))
    (reference : Reference) (symbol : Symbol) :
    sim.related index.Has (referAt index (depthLeft + 1) activeLeft reference symbol)
      (referAt index (depthRight + 1) activeRight reference symbol) := by
  subst isLeft isRight
  refine sim.bind (sim.lift _ fun _ => boundTarget_within within) ?_
  intro found has
  cases found with
  | some found => exact sim.pure has
  | none =>
    refine sim.bind (sim.liftAny _) fun path _ => ?_
    split
    · exact sim.resolveRedefinition_related resolves agree path symbol _
    · exact resolves _

end References

/-- Relations that depend on the queries under way: where the answer to a query
that is under way itself is related, so is the query; then all references are. -/
theorem refers_related (sims : List Query → Simulation) {index : Index} (within : index.IdsWithin)
    (step : ∀ (depth : Nat) (active : List Query) (query : Query),
      (sims (query :: active)).related index.Has
        (answer index (referAt index depth (query :: active)) query)
        (answer index (referAt index depth (query :: active)) query) →
      (sims active).related index.Has (resolveWith index (referAt index depth) active query)
        (resolveWith index (referAt index depth) active query))
    (depth : Nat) (active : List Query) (reference : Reference) (symbol : Symbol) :
    (sims active).related index.Has (referAt index depth active reference symbol)
      (referAt index depth active reference symbol) := by
  induction depth generalizing active reference symbol with
  | zero => exact (sims active).throw _
  | succ depth ih =>
    refine (sims active).referAt_related within (fun query => ?_) rfl rfl
      (fun symbol _ reference _ => ih active reference symbol) reference symbol
    exact step depth active query ((sims (query :: active)).answer_related within
      (fun symbol _ reference _ => ih (query :: active) reference symbol) query)

end Simulation

end Sysml.Scope
