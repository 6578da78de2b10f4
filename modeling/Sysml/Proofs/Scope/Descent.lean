import Mathlib.Logic.Hydra
import Sysml.Proofs.Scope.Completeness

/-!
# Namespaces inside of each other

Where every symbol lies deeper than its owner, the walk outward from a name and the walk through
all that a namespace holds come to an end, and no symbol is below itself.
-/

set_option autoImplicit false

namespace Sysml

/-- A depth of names: what a name says to be inside of another lies deeper. -/
def Deepens (depth : Key.Code → Nat) : Prop :=
  ∀ owner name : String, depth (.text owner) < depth (.text (QualifiedName.join owner name))

def Symbol.Deeper (depth : Key.Code → Nat) (symbol : Symbol) : Prop :=
  ∀ owner, symbol.owner = some owner → depth owner.code < depth symbol.qualifiedName.code

/-- A name is inside of its parent. -/
theorem QualifiedName.join_of_parent? {name outer : String} (isParent : parent? name = some outer) :
    ∃ last, name = join outer last := by
  obtain ⟨before, found, rfl⟩ := Option.map_eq_some_iff.mp isParent
  have split (chars before : List Char) (found : parentChars? chars = some before) :
      ∃ last, chars = before ++ ':' :: ':' :: last := by
    induction chars generalizing before with
    | nil => cases found
    | cons c rest ih =>
      rw [parentChars?] at found
      split at found
      · next inner inside =>
        cases found
        obtain ⟨last, same⟩ := ih inner inside
        exact ⟨last, by rw [same, List.cons_append]⟩
      · split at found
        · next colons =>
          cases found
          obtain ⟨rfl, second⟩ := colons
          obtain ⟨last, rfl⟩ := List.head?_eq_some_iff.mp second
          exact ⟨last, rfl⟩
        · cases found
  obtain ⟨last, same⟩ := split name.toList before found
  refine ⟨String.ofList last, String.toList_injective ?_⟩
  rw [same, join]
  simp

namespace Scope

/-- What a name says to be around it. -/
theorem parentScope_some {space outer : Key} (isOuter : parentScope space = .ok (some outer)) :
    ∃ name parent, space = .text name ∧ QualifiedName.parent? name = some parent ∧
      outer = .text parent := by
  unfold parentScope at isOuter
  split at isOuter
  · next name isText =>
    obtain ⟨parent, isParent, same⟩ := Option.map_eq_some_iff.mp (Except.ok.inj isOuter)
    exact ⟨name, parent, Key.eq_text_of_text? isText, isParent, same.symm⟩
  · cases isOuter

variable {depth : Key.Code → Nat} {index : Index}

def Index.Deeper (depth : Key.Code → Nat) (index : Index) : Prop :=
  ∀ symbol ∈ index.symbols, symbol.Deeper depth

section Deeper

variable (deeper : index.Deeper depth)

include deeper

theorem depth_member {space : Key} {symbol : Symbol}
    (member : symbol ∈ index.members (some space)) :
    depth space.code < depth symbol.qualifiedName.code := by
  obtain ⟨known, owned⟩ := List.mem_filter.mp member
  cases owner : symbol.owner with
  | none =>
    rw [owner] at owned
    cases owned
  | some owner_ =>
    rw [owner] at owned
    have same : owner_.code = space.code := (Key.beq_iff _ _).mp owned
    exact same ▸ deeper symbol known owner_ owner

theorem depth_below {space : Key} {symbol : Symbol} (below : Below index space symbol) :
    depth space.code < depth symbol.qualifiedName.code := by
  induction below with
  | member member => exact depth_member deeper member
  | deeper member _ ih => exact Nat.lt_trans (depth_member deeper member) ih

/-- No symbol is below its own name. -/
theorem not_below_self (symbol : Symbol) : ¬ Below index symbol.qualifiedName symbol :=
  fun below => Nat.lt_irrefl _ (depth_below deeper below)

variable (deepens : Deepens depth)

include deepens

/-- What is around a namespace does not lie as deep. -/
theorem depth_outer {inner outer : Key} (isOuter : outerScope index inner = .ok (some outer)) :
    depth outer.code < depth inner.code := by
  unfold outerScope at isOuter
  split at isOuter
  · next symbol looked =>
    have known := List.mem_of_find?_eq_some looked
    have found : (symbol.qualifiedName == inner) = true := by
      have isFound := List.find?_some looked
      exact isFound
    have same : symbol.qualifiedName.code = inner.code := (Key.beq_iff _ _).mp found
    exact same ▸ deeper symbol known outer (Except.ok.inj isOuter)
  · obtain ⟨name, parent, rfl, isParent, rfl⟩ := parentScope_some isOuter
    obtain ⟨last, rfl⟩ := QualifiedName.join_of_parent? isParent
    exact deepens parent last

/-- From every name the walk outward comes to the root, or to an owner that is no text and that
nothing has as its name. -/
theorem outward_path (space : Key) :
    ∃ last, Relation.ReflTransGen
        (fun inner outer => outerScope index inner = .ok (some outer)) space last ∧
      (outerScope index last = .ok none ∨
        index.lookup last = none ∧ last.text? = none ∧
          (last = space ∨ ∃ symbol ∈ index.symbols, symbol.owner = some last)) := by
  induction rank : depth space.code using Nat.strongRecOn generalizing space with
  | ind rank ih =>
    rcases isOuter : outerScope index space with failure | _ | outer
    · refine ⟨space, .refl, .inr ?_⟩
      unfold outerScope at isOuter
      split at isOuter
      · cases isOuter
      · next unknown =>
        unfold parentScope at isOuter
        split at isOuter
        · cases isOuter
        · next noText => exact ⟨unknown, noText, .inl rfl⟩
    · exact ⟨space, .refl, .inl isOuter⟩
    · have less := depth_outer deeper deepens isOuter
      obtain ⟨last, path, ends⟩ := ih _ (rank ▸ less) outer rfl
      refine ⟨last, .head isOuter path, ends.imp_right ?_⟩
      rintro ⟨unknown, noText, rfl | owner⟩
      · refine ⟨unknown, noText, .inr ?_⟩
        unfold outerScope at isOuter
        split at isOuter
        · next symbol looked =>
          exact ⟨symbol, List.mem_of_find?_eq_some looked, Except.ok.inj isOuter⟩
        · obtain ⟨_, parent, _, _, rfl⟩ := parentScope_some isOuter
          cases noText
      · exact ⟨unknown, noText, .inr owner⟩

/-- From the name of a symbol the walk comes to the root, unless some symbol has an owner that is
no text and that nothing has as its name. -/
theorem symbol_path {symbol : Symbol} (known : symbol ∈ index.symbols) :
    ∃ last, Relation.ReflTransGen
        (fun inner outer => outerScope index inner = .ok (some outer)) symbol.qualifiedName last ∧
      (outerScope index last = .ok none ∨
        ∃ other ∈ index.symbols, other.owner = some last ∧ index.lookup last = none ∧
          last.text? = none) := by
  obtain ⟨last, path, ends⟩ := outward_path deeper deepens symbol.qualifiedName
  refine ⟨last, path, ends.imp_right ?_⟩
  rintro ⟨unknown, noText, rfl | ⟨other, held, owned⟩⟩
  · have isKnown := List.find?_eq_none.mp unknown symbol known
    exact absurd (BEq.rfl : (symbol.qualifiedName == symbol.qualifiedName) = true) isKnown
  · exact ⟨other, held, owned, unknown, noText⟩

omit deepens deeper in
def EndsWithin (index : Index) : Nat → Option Key → Prop
  | 0, _ => False
  | _ + 1, none => True
  | steps + 1, some space => ∀ outer, outerScope index space = .ok outer → EndsWithin index steps outer

/-- The walk outward passes no name twice, and between two indexed names it shortens the name. -/
theorem endsWithin_of_deeper {longest steps : Nat}
    (bound : ∀ symbol ∈ index.symbols, span symbol.owner ≤ longest) (seen : List Key)
    {space : Option Key}
    (passed : ∀ name ∈ seen, ∀ key, space = some key → depth key.code < depth name.code)
    (enough : unvisited index seen * (longest + 2) + span space + 2 ≤ steps) :
    EndsWithin index steps space := by
  induction steps generalizing space seen with
  | zero => omega
  | succ steps ih =>
    cases space with
    | none => exact trivial
    | some key =>
      intro outer isOuter
      have passedOn : ∀ name ∈ seen, ∀ next, outer = some next → depth next.code < depth name.code := by
        rintro name member next rfl
        exact Nat.lt_trans (depth_outer deeper deepens isOuter) (passed name member key rfl)
      cases looked : index.lookup key with
      | none =>
        cases outer with
        | none =>
          obtain ⟨more, rfl⟩ : ∃ more, steps = more + 1 := ⟨steps - 1, by omega⟩
          exact trivial
        | some next =>
          refine ih seen passedOn ?_
          have shorter : span (some next) < span (some key) := by
            rw [outerScope, looked] at isOuter
            obtain ⟨name, parent, rfl, isParent, rfl⟩ := parentScope_some isOuter
            exact parent?_length isParent
          omega
      | some symbol =>
        have known := List.mem_of_find?_eq_some looked
        have same : (symbol.qualifiedName == key) = true := by
          have found := List.find?_some looked
          exact found
        have fresh : seen.contains key = false := by
          rw [Bool.eq_false_iff]
          intro held
          obtain ⟨name, member, equal⟩ := List.contains_iff_exists_mem_beq.mp held
          have less := passed name member key rfl
          rw [(Key.beq_iff _ _).mp equal] at less
          exact Nat.lt_irrefl _ less
        have fewer := unvisited_cons (List.mem_filter.mpr ⟨known, same⟩) fresh
        have owned : outer = symbol.owner := by
          rw [outerScope, looked] at isOuter
          exact (Except.ok.inj isOuter).symm
        refine ih (key :: seen) ?_ ?_
        · rintro name member next rfl
          rcases List.mem_cons.mp member with rfl | before
          · exact depth_outer deeper deepens isOuter
          · exact passedOn name before next rfl
        · have less := Nat.mul_le_mul_right (longest + 2) fewer
          have short := bound symbol known
          rw [← owned] at short
          rw [Nat.succ_mul] at less
          omega

theorem outwardFuel_enough (space : Option Key) :
    EndsWithin index (index.outwardFuel space) space := by
  obtain ⟨longest, isLongest⟩ : ∃ longest,
      (index.symbols.map fun symbol => span symbol.owner).foldl max (span space) = longest :=
    ⟨_, rfl⟩
  have bound (symbol : Symbol) (known : symbol ∈ index.symbols) : span symbol.owner ≤ longest :=
    isLongest ▸ le_foldl_max (.inr (List.mem_map_of_mem known))
  have own : span space ≤ longest := isLongest ▸ le_foldl_max (.inl (Nat.le_refl _))
  have few := Nat.mul_le_mul_right (longest + 2) (unvisited_le index [])
  refine endsWithin_of_deeper deeper deepens bound [] (fun _ member => (by cases member)) ?_
  change _ ≤ (index.symbols.length + 2) *
    ((index.symbols.map fun symbol => span symbol.owner).foldl max (span space) + 2)
  rw [isLongest, Nat.add_mul index.symbols.length]
  omega

end Deeper

/-- Once the walk is over, a greater bound on it makes no difference. -/
theorem outward_of_endsWithin {refer : Reference → Symbol → Search (Option Symbol)}
    {name file : String} {steps : Nat} {space : Option Key} (ends : EndsWithin index steps space)
    (more : Nat) :
    outward index refer name file (steps + more) space =
      outward index refer name file steps space := by
  induction steps generalizing space with
  | zero => exact ends.elim
  | succ steps ih =>
    rw [Nat.add_right_comm]
    simp only [outward]
    refine bind_congr fun found => ?_
    cases found with
    | some symbol => rfl
    | none =>
      cases space with
      | none => rfl
      | some key =>
        dsimp only
        cases isOuter : outerScope index key with
        | error failure => rfl
        | ok outer => exact ih (ends outer isOuter)

/-- The bound on the walk outward is never what ends it. -/
theorem outward_unbounded (deeper : index.Deeper depth) (deepens : Deepens depth)
    (refer : Reference → Symbol → Search (Option Symbol)) (name file : String)
    (scope : Option Key) (more : Nat) :
    outward index refer name file (index.outwardFuel scope + more) scope =
      outward index refer name file (index.outwardFuel scope) scope :=
  outward_of_endsWithin (outwardFuel_enough deeper deepens scope) more

/-- The first symbol with a name below the queued ones, where the members of a namespace are queued
each time that it is met; nothing where that takes more steps than given. -/
def sweep (index : Index) (name : String) : Nat → List Symbol → Option (Option Symbol)
  | 0, _ => none
  | _ + 1, [] => some none
  | steps + 1, symbol :: queue =>
      if symbol.name.isText name then some (some symbol)
      else sweep index name steps (queue ++ index.members (some symbol.qualifiedName))

/-- What a namespace holds, in turn with what that holds, is finitely much. -/
theorem members_wellFounded (deeper : index.Deeper depth) :
    WellFounded fun inner outer : Symbol => inner ∈ index.members (some outer.qualifiedName) := by
  obtain ⟨deepest, isDeepest⟩ : ∃ deepest,
      (index.symbols.map fun symbol => depth symbol.qualifiedName.code).foldl max 0 = deepest :=
    ⟨_, rfl⟩
  refine Subrelation.wf (fun {inner outer} member => ?_)
    (measure fun symbol : Symbol => deepest - depth symbol.qualifiedName.code).wf
  have below := depth_member deeper member
  have bound : depth inner.qualifiedName.code ≤ deepest :=
    isDeepest ▸ le_foldl_max (.inr (List.mem_map_of_mem (index.members_subset _ member)))
  change deepest - depth inner.qualifiedName.code < deepest - depth outer.qualifiedName.code
  omega

/-- A sweep comes to an end. -/
theorem sweep_ends (deeper : index.Deeper depth) (name : String) (queue : List Symbol) :
    ∃ steps found, sweep index name steps queue = some found := by
  -- taking a symbol from the queue and queuing its members is a cut and a growth of deeper heads
  induction whole : (queue : Multiset Symbol) using (members_wellFounded deeper).cutExpand.induction
    generalizing queue with
  | h heads ih =>
    cases queue with
    | nil => exact ⟨1, none, rfl⟩
    | cons symbol queue =>
      cases isNamed : symbol.name.isText name with
      | true => exact ⟨1, some symbol, by rw [sweep, if_pos isNamed]⟩
      | false =>
        have grown : Relation.CutExpand
            (fun inner outer : Symbol => inner ∈ index.members (some outer.qualifiedName))
            ↑(queue ++ index.members (some symbol.qualifiedName)) heads := by
          refine ⟨index.members (some symbol.qualifiedName), symbol, fun inner member => member, ?_⟩
          rw [← whole, ← Multiset.coe_singleton, Multiset.coe_add, Multiset.coe_add,
            Multiset.coe_eq_coe]
          exact List.perm_append_comm
        obtain ⟨steps, found, swept⟩ := ih _ grown _ rfl
        refine ⟨steps + 1, found, ?_⟩
        rw [sweep, if_neg (Bool.eq_false_iff.mp isNamed)]
        exact swept

/-- Equal names have the same members. -/
theorem members_congr {space other : Key} (same : (space == other) = true) :
    index.members (some space) = index.members (some other) := by
  refine List.filter_congr fun symbol _ => ?_
  have equal : ((some space : Option Key) == some other) = true := same
  exact BEq.congr_right equal

/-- What a sweep has queued against what the search has: the same, in the same order, among echoes
of what the search has queued before them or has dealt with. -/
inductive Echoes (dealt : Symbol → Prop) : List Symbol → List Symbol → List Symbol → Prop where
  | nil {before : List Symbol} : Echoes dealt before [] []
  | both {before queue swept : List Symbol} {symbol : Symbol} :
      Echoes dealt (symbol :: before) queue swept →
      Echoes dealt before (symbol :: queue) (symbol :: swept)
  | echo {before queue swept : List Symbol} {symbol : Symbol} :
      symbol ∈ before ∨ dealt symbol → Echoes dealt before queue swept →
      Echoes dealt before queue (symbol :: swept)

namespace Echoes

variable {dealt later : Symbol → Prop} {before queue swept more : List Symbol}

theorem refl (dealt : Symbol → Prop) (before queue : List Symbol) :
    Echoes dealt before queue queue := by
  induction queue generalizing before with
  | nil => exact .nil
  | cons symbol rest ih => exact .both (ih _)

theorem mono {since : List Symbol} (echoes : Echoes dealt before queue swept)
    (wider : ∀ symbol, dealt symbol → later symbol)
    (known : ∀ symbol ∈ before, symbol ∈ since ∨ later symbol) :
    Echoes later since queue swept := by
  induction echoes generalizing since with
  | nil => exact .nil
  | @both before queue swept symbol _ ih =>
    refine .both (ih fun other member => ?_)
    rcases List.mem_cons.mp member with rfl | old
    · exact .inl List.mem_cons_self
    · exact (known other old).imp_left (List.mem_cons_of_mem _)
  | @echo before queue swept symbol isEcho _ ih =>
    exact .echo (isEcho.elim (known symbol) fun done => .inr (wider symbol done)) (ih known)

/-- The same is queued at both ends. -/
theorem append (echoes : Echoes dealt before queue swept) (more : List Symbol) :
    Echoes dealt before (queue ++ more) (swept ++ more) := by
  induction echoes with
  | nil => exact refl dealt _ more
  | both _ ih => exact .both ih
  | echo isEcho _ ih => exact .echo isEcho ih

/-- Echoes are queued at the end of a sweep. -/
theorem append_echo (echoes : Echoes dealt before queue swept)
    (known : ∀ symbol ∈ more, symbol ∈ before ∨ symbol ∈ queue ∨ dealt symbol) :
    Echoes dealt before queue (swept ++ more) := by
  induction echoes with
  | nil =>
    induction more with
    | nil => exact .nil
    | cons symbol rest ih =>
      obtain ⟨first, others⟩ := List.forall_mem_cons.mp known
      exact .echo (first.imp_right fun held => held.resolve_left List.not_mem_nil) (ih others)
  | @both before queue swept symbol _ ih =>
    refine .both (ih fun other member => ?_)
    rcases known other member with old | queued | done
    · exact .inl (List.mem_cons_of_mem _ old)
    · rcases List.mem_cons.mp queued with rfl | queued
      · exact .inl List.mem_cons_self
      · exact .inr (.inl queued)
    · exact .inr (.inr done)
  | echo isEcho _ ih => exact .echo isEcho (ih known)

end Echoes

def Dealt (name : String) (expanded : List Key) (symbol : Symbol) : Prop :=
  symbol.name.isText name = false ∧ expanded.contains symbol.qualifiedName = true

/-- A sweep that ends finds what the search finds that queues the members of a name once. -/
theorem descendantFrom_of_sweep {name : String} {steps fuel : Nat} {queue swept : List Symbol}
    {expanded : List Key} {found : Option Symbol}
    (ends : sweep index name steps swept = some found)
    (echoes : Echoes (Dealt name expanded) [] queue swept)
    (queued : ∀ space, expanded.contains space = true → ∀ symbol ∈ index.members (some space),
      symbol ∈ queue ∨ Dealt name expanded symbol)
    (enough : queue.length + unexpanded index.symbols expanded < fuel) :
    descendantFrom index name fuel queue expanded = found := by
  induction steps generalizing fuel queue swept expanded with
  | zero => cases ends
  | succ steps ih =>
    obtain ⟨fuel, rfl⟩ : ∃ less, fuel = less + 1 := ⟨fuel - 1, by omega⟩
    cases echoes with
    | nil =>
      cases ends
      rfl
    | @echo _ _ swept symbol isEcho rest =>
      obtain ⟨other, held⟩ := isEcho.resolve_left List.not_mem_nil
      rw [sweep, if_neg (Bool.eq_false_iff.mp other)] at ends
      exact ih ends (rest.append_echo fun member inside =>
        .inr (queued symbol.qualifiedName held member inside)) queued enough
    | @both _ queue swept symbol rest =>
      rw [List.length_cons] at enough
      cases isNamed : symbol.name.isText name with
      | true =>
        rw [sweep, if_pos isNamed] at ends
        rw [descendantFrom, if_pos isNamed]
        exact Option.some.inj ends
      | false =>
        rw [sweep, if_neg (Bool.eq_false_iff.mp isNamed)] at ends
        rw [descendantFrom, if_neg (Bool.eq_false_iff.mp isNamed)]
        cases held : expanded.contains symbol.qualifiedName with
        | true =>
          rw [if_pos rfl]
          have stays (space : Key) (isExpanded : expanded.contains space = true) (member : Symbol)
              (inside : member ∈ index.members (some space)) :
              member ∈ queue ∨ Dealt name expanded member := by
            rcases queued space isExpanded member inside with here | done
            · rcases List.mem_cons.mp here with rfl | later
              · exact .inr ⟨isNamed, held⟩
              · exact .inl later
            · exact .inr done
          have alone : Echoes (Dealt name expanded) [] queue swept :=
            rest.mono (fun _ done => done) fun other member =>
              .inr (List.mem_singleton.mp member ▸ ⟨isNamed, held⟩)
          exact ih ends (alone.append_echo fun member inside =>
            .inr (stays symbol.qualifiedName held member inside)) stays (by omega)
        | false =>
          rw [if_neg Bool.false_ne_true]
          have fewer := @unexpanded_cons index.symbols expanded symbol.qualifiedName held
          have grown {other : Symbol} (done : Dealt name expanded other) :
              Dealt name (symbol.qualifiedName :: expanded) other :=
            ⟨done.1, by rw [List.contains_cons, done.2, Bool.or_true]⟩
          have own : Dealt name (symbol.qualifiedName :: expanded) symbol :=
            ⟨isNamed, by rw [List.contains_cons, BEq.rfl, Bool.true_or]⟩
          have alone : Echoes (Dealt name (symbol.qualifiedName :: expanded)) [] queue swept :=
            rest.mono (fun _ done => grown done) fun other member =>
              .inr (List.mem_singleton.mp member ▸ own)
          refine ih ends (alone.append _) ?_ ?_
          · intro space isExpanded member inside
            rw [List.contains_cons, Bool.or_eq_true] at isExpanded
            rcases isExpanded with same | before
            · exact .inl (List.mem_append_right _ (members_congr same ▸ inside))
            · rcases queued space before member inside with here | done
              · rcases List.mem_cons.mp here with rfl | later
                · exact .inr own
                · exact .inl (List.mem_append_left _ later)
              · exact .inr (grown done)
          · rw [List.length_append, Index.members]
            omega

/-- Where symbols lie deeper than their owners, what is below a namespace is found without
remembering which names were met. -/
theorem sweep_descendant (deeper : index.Deeper depth) (space : Key) (name : String) :
    ∃ steps, sweep index name steps (index.members (some space)) =
      some (descendant index space name) := by
  obtain ⟨steps, found, ends⟩ := sweep_ends deeper name (index.members (some space))
  refine ⟨steps, ends.trans (congrArg some (Eq.symm ?_))⟩
  have few : (index.members (some space)).length ≤ index.symbols.length :=
    List.length_filter_le ..
  have fewer : unexpanded index.symbols [] ≤ index.symbols.length := List.countP_le_length
  refine descendantFrom_of_sweep ends (.refl _ _ _) (fun _ held => (by cases held)) ?_
  rw [Nat.add_mul, Nat.mul_add]
  omega

end Scope

end Sysml
