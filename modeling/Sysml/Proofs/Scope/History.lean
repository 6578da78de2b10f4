import Sysml.Proofs.Scope.Memo

/-!
# What was asked before

A query that comes up again while it is being answered has no answer there, and
the answers that were found without it are stored all the same. So an answer may
depend on what was asked before. It does not where every stored answer rests on
answers stored before it, with none missing but the query's own
(`Call.answer_after_grounded`); `cut_answer_is_kept` shows an answer that does.
-/

set_option autoImplicit false

namespace Sysml.Scope

inductive Call where
  | ask (query : Query)
  | refer (reference : Reference) (symbol : Symbol)

def Call.run (index : Index) : Call → Search (Option Symbol)
  | .ask query => resolve index query
  | .refer reference symbol => resolveReference index reference symbol

/-- The memo after some questions, whatever they answered. -/
def Memo.after (index : Index) (calls : List Call) : Memo :=
  calls.foldl (fun memo call => (outcome (call.run index) memo).2) []

/-- Each answer is found again from those stored before it, and nothing else has
to be asked but perhaps the query itself. Equal queries may be written with
different keys; the answer has to be that of each of them. -/
inductive Memo.Grounded (index : Index) : Memo → Prop where
  | nil : Grounded index []
  | cons {memo : Memo} {query : Query} {found : Option Symbol} : Grounded index memo →
      memo.lookup query = none →
      (∀ same : Query, (same == query) = true →
        outcome (answer index (referAt index index.depthBound [same]) same) memo =
          (.ok found, memo)) →
      Grounded index ((query, found) :: memo)

section Filling

variable {index : Index} {base memo middle later : Memo}

def Memo.Agrees (memo base : Memo) : Prop :=
  ∀ query left right, memo.lookup query = some left → base.lookup query = some right →
    left = right

/-- The second memo comes from the first by adding answers of the base. -/
structure Memo.FilledFrom (base memo later : Memo) : Prop where
  known : memo.Known later
  source : ∀ query found, later.lookup query = some found →
    memo.lookup query = some found ∨ base.lookup query = some found

theorem Memo.FilledFrom.refl (base memo : Memo) : Memo.FilledFrom base memo memo :=
  ⟨fun _ _ known => known, fun _ _ known => .inl known⟩

theorem Memo.FilledFrom.trans (first : Memo.FilledFrom base memo middle)
    (second : Memo.FilledFrom base middle later) : Memo.FilledFrom base memo later where
  known query found known := second.known query found (first.known query found known)
  source query found known := by
    rcases second.source query found known with between | based
    · exact first.source query found between
    · exact .inr based

theorem Memo.FilledFrom.agrees (filled : Memo.FilledFrom base memo later)
    (agrees : memo.Agrees base) : later.Agrees base := by
  intro query left right known based
  rcases filled.source query left known with old | same
  · exact agrees query left right old based
  · exact Option.some.inj (same.symm.trans based)

theorem Memo.FilledFrom.unknown (filled : Memo.FilledFrom base memo later) {query : Query}
    (fresh : memo.lookup query = none) (unbased : base.lookup query = none) :
    later.lookup query = none := by
  cases known : later.lookup query with
  | none => rfl
  | some found =>
    rcases filled.source query found known with old | based
    · rw [fresh] at old; cases old
    · rw [unbased] at based; cases based

/-- The search fails for want of depth, or answers and adds answers of the base. -/
def Catches {α : Type} (base : Memo) (run : Search α) (memo : Memo) (value : α) : Prop :=
  (∃ later, outcome run memo = (.error .unbounded, later)) ∨
    ∃ later, outcome run memo = (.ok value, later) ∧ Memo.FilledFrom base memo later

/-- Where the right search finds an answer in the base alone, the left one catches
up with it from any memo that the base agrees with. -/
structure CatchesUp {α : Type} (index : Index) (base : Memo) (query : Query) (post : α → Prop)
    (left right : Search α) : Prop where
  behaves : Behaves index [query] post right
  catches : ∀ value, outcome right base = (.ok value, base) → ∀ memo : Memo, memo.Agrees base →
    memo.lookup query = none → Catches base left memo value

def CatchesUp.simulation (index : Index) {base : Memo} (within : base.Within index) {query : Query}
    (unbased : base.lookup query = none) : Simulation where
  related := CatchesUp index base query
  pure holds := ⟨.pure holds, fun _ ran memo _ _ => .inr ⟨memo, by cases ran; rfl, .refl ..⟩⟩
  throw failure := ⟨.throw failure, fun _ ran _ _ _ => (by cases ran)⟩
  bind := by
    intro α β mid post left right nextLeft nextRight first rest
    refine ⟨first.behaves.bind fun value holds => (rest value holds).behaves, ?_⟩
    intro value ran memo agrees fresh
    obtain ⟨between, holds, firstRan, restRan⟩ :=
      outcome_bind_fixed within first.behaves (fun value holds => (rest value holds).behaves) ran
    rcases first.catches between firstRan memo agrees fresh with ⟨later, failed⟩ | ⟨middle, answered, filled⟩
    · exact .inl ⟨later, outcome_bind_of_error failed⟩
    · have still := filled.unknown fresh unbased
      rcases (rest between holds).catches value restRan middle (filled.agrees agrees) still with
        ⟨later, failed⟩ | ⟨later, answeredNext, filledNext⟩
      · exact .inl ⟨later, (outcome_bind_of_ok answered).trans failed⟩
      · exact .inr ⟨later, (outcome_bind_of_ok answered).trans answeredNext, filled.trans filledNext⟩

structure Memo.Joined (base left right : Memo) : Prop where
  lookup : ∀ query, right.lookup query = (left.lookup query).or (base.lookup query)
  agrees : left.Agrees base

theorem Memo.Joined.push {base left right : Memo} (joined : Memo.Joined base left right)
    {query : Query} (found : Option Symbol) (unbased : base.lookup query = none) :
    Memo.Joined base ((query, found) :: left) ((query, found) :: right) where
  lookup other := by
    simp only [List.lookup_cons]
    cases other == query with
    | true => rfl
    | false => exact joined.lookup other
  agrees other value based known looked := by
    rw [List.lookup_cons] at known
    cases same : other == query with
    | true => rw [Memo.lookup_congr same, unbased] at looked; cases looked
    | false => rw [same] at known; exact joined.agrees other value based known looked

theorem Memo.Joined.fill {base left right later : Memo} (joined : Memo.Joined base left right)
    (filled : Memo.FilledFrom base left later) : Memo.Joined base later right where
  lookup query := by
    rw [joined.lookup query]
    cases known : later.lookup query with
    | some found =>
      rcases filled.source query found known with old | new
      · rw [old]
      · rw [new]
        cases before : left.lookup query with
        | none => rfl
        | some value => rw [joined.agrees query value found before new]
    | none =>
      cases before : left.lookup query with
      | none => rfl
      | some value => rw [filled.known query value before] at known; cases known
  agrees := filled.agrees joined.agrees

/-- The right search starts from what the left one knows and a base besides; it
does the same unless the left one fails for want of depth. -/
structure Follows {α : Type} (index : Index) (base : Memo) (active : List Query) (post : α → Prop)
    (left right : Search α) : Prop where
  behaves : Behaves index active post left
  same : (∀ query, base.lookup query ≠ none → active.contains query = false) →
    ∀ {before start : Memo}, before.Within index → Memo.Joined base before start →
    (∃ later, outcome left before = (.error .unbounded, later)) ∨
      (outcome left before).1 = (outcome right start).1 ∧
        Memo.Joined base (outcome left before).2 (outcome right start).2

def Follows.simulation (index : Index) (base : Memo) (active : List Query) : Simulation where
  related := Follows index base active
  pure holds := ⟨.pure holds, fun _ _ _ _ joined => .inr ⟨rfl, joined⟩⟩
  throw failure := ⟨.throw failure, fun _ _ _ _ joined => .inr ⟨rfl, joined⟩⟩
  bind := by
    intro α β mid post left right nextLeft nextRight first rest
    refine ⟨first.behaves.bind fun value holds => (rest value holds).behaves, ?_⟩
    intro idle before start inside joined
    have answers := first.behaves.answers inside
    have within := first.behaves.within inside
    rcases first.same idle inside joined with ⟨later, failed⟩ | ⟨same, joinedLater⟩
    · exact .inl ⟨later, outcome_bind_of_error failed⟩
    · rcases ranLeft : outcome left before with ⟨failure | value, middle⟩ <;>
        rcases ranRight : outcome right start with ⟨failure' | value', middle'⟩ <;>
        rw [ranLeft] at answers within same joinedLater <;> rw [ranRight] at same joinedLater
      · cases same
        rw [outcome_bind_of_error ranLeft, outcome_bind_of_error ranRight]
        exact .inr ⟨rfl, joinedLater⟩
      · cases same
      · cases same
      · cases same
        rw [outcome_bind_of_ok ranLeft, outcome_bind_of_ok ranRight]
        exact (rest value (answers value rfl)).same idle within joinedLater

end Filling

section Following

variable {index : Index} (within : index.IdsWithin)

include within

/-- One more answer: the query's own search finds it from other memos too. -/
theorem CatchesUp.referAt {base : Memo} (inside : base.Within index) {query : Query}
    (unbased : base.lookup query = none) {active : List Query}
    (based : ∀ depth other found, base.lookup other = some found → ∀ memo : Memo,
      memo.Agrees base →
      Catches base (resolveWith index (Scope.referAt index depth) (query :: active) other) memo
        found)
    (depth deep : Nat) (reference : Reference) (symbol : Symbol) :
    CatchesUp index base query index.Has
      (Scope.referAt index depth (query :: active) reference symbol)
      (Scope.referAt index deep [query] reference symbol) := by
  induction deep generalizing depth reference symbol with
  | zero => exact ⟨.throw _, fun _ ran _ _ _ => (by cases ran)⟩
  | succ deep ih =>
    cases depth with
    | zero =>
      refine ⟨Behaves.referAt within _ _ reference symbol, fun _ _ memo _ _ => ?_⟩
      exact .inl ⟨memo, rfl⟩
    | succ depth =>
      refine (simulation index inside unbased).referAt_related within (fun other => ?_) rfl rfl
        (fun symbol _ reference _ => ih depth reference symbol) reference symbol
      refine ⟨Behaves.resolveWith (Behaves.answer within deep (other :: [query]) other), ?_⟩
      intro value ran memo agrees fresh
      rw [resolveWith_outcome] at ran
      cases known : base.lookup other with
      | some found =>
        rw [known] at ran
        have same : found = value := by simpa using ran
        exact same ▸ based depth other found known memo agrees
      | none =>
        rw [known] at ran
        dsimp only at ran
        split at ran
        · next cut =>
          -- the query asks for itself: both searches pass it over
          have same : (other == query) = true := by simpa using cut
          cases ran
          refine .inr ⟨memo, ?_, .refl ..⟩
          rw [resolveWith_outcome, Memo.lookup_congr same, fresh]
          simp [same]
        · -- a query that is not in the base would be stored
          have grows := (Behaves.answer within deep [other, query] other).grows inside
          split at ran
          · next found later searched =>
            rw [searched] at grows
            have longer : base.length ≤ later.length := grows.suffix.length_le
            have same := congrArg List.length (Prod.mk.inj ran).2
            simp only [List.length_cons] at same
            omega
          · cases ran

theorem Memo.Grounded.inside {base : Memo} (grounded : Memo.Grounded index base) :
    base.Within index := by
  induction grounded with
  | nil => intro entry member; cases member
  | @cons base query found _ _ replayed ih =>
    have has := (Behaves.answer within index.depthBound [query] query).answers ih found
      (by rw [replayed query BEq.rfl])
    intro entry member
    rcases List.mem_cons.mp member with rfl | old
    · exact has
    · exact ih entry old

/-- Answers that rest on older ones are found again from every memo that does not
contradict them, whatever else is under way, if the depth is enough. -/
theorem Memo.Grounded.catches {base : Memo} (grounded : Memo.Grounded index base) (depth : Nat)
    (active : List Query) (idle : ∀ other, base.lookup other ≠ none → active.contains other = false)
    (query : Query) (found : Option Symbol) (based : base.lookup query = some found) (memo : Memo)
    (agrees : memo.Agrees base) :
    Catches base (resolveWith index (referAt index depth) active query) memo found := by
  induction grounded generalizing depth active query found memo with
  | nil => cases based
  | @cons base first answered grounded unbased replayed ih =>
    have skip {other : Query} (apart : (other == first) = false) :
        List.lookup other ((first, answered) :: base) = base.lookup other := by
      rw [List.lookup_cons, apart]
    have below (other : Query) (known : base.lookup other ≠ none) : (other == first) = false := by
      cases same : other == first with
      | false => rfl
      | true => exact absurd (Memo.lookup_congr same base ▸ unbased) known
    have idleBelow (other : Query) (known : base.lookup other ≠ none) :
        active.contains other = false :=
      idle other (by rwa [skip (below other known)])
    have agreesBelow : memo.Agrees base := by
      intro other left right known new
      exact agrees other left right known (by rwa [skip (below other (by simp [new]))])
    cases same : query == first with
    | false =>
      rw [skip same] at based
      rcases ih depth active idleBelow query found based memo agreesBelow with
        failed | ⟨later, ran, filled⟩
      · exact .inl failed
      · refine .inr ⟨later, ran, filled.known, fun other known looked => ?_⟩
        rcases filled.source other known looked with old | new
        · exact .inl old
        · exact .inr (by rwa [skip (below other (by simp [new]))])
    | true =>
      have stored {other : Query} (equal : (other == first) = true) :
          List.lookup other ((first, answered) :: base) = some answered := by
        rw [List.lookup_cons, equal]
      have isAnswered : answered = found := Option.some.inj ((stored same).symm.trans based)
      subst isAnswered
      have queryUnbased : base.lookup query = none := Memo.lookup_congr same base ▸ unbased
      rw [Catches, resolveWith_outcome]
      cases fresh : memo.lookup query with
      | some value =>
        have isValue : value = answered := agrees query value answered fresh based
        exact .inr ⟨memo, by rw [isValue], .refl ..⟩
      | none =>
        rw [idle query (by simp [based])]
        have idleAbove (other : Query) (known : base.lookup other ≠ none) :
            (query :: active).contains other = false := by
          have apart := below other known
          rw [List.contains_cons, idleBelow other known, Bool.or_false]
          exact (BEq.congr_right same).trans apart
        have inside := grounded.inside within
        have refers (symbol : Symbol) (reference : Reference) :=
          CatchesUp.referAt within inside queryUnbased
            (fun depth other found known => ih depth _ idleAbove other found known)
            depth index.depthBound reference symbol
        have caughtUp := (CatchesUp.simulation index inside queryUnbased).answer_related within
          (fun symbol _ reference _ => refers symbol reference) query
        rcases caughtUp.catches answered (replayed query same) memo agreesBelow fresh with
          ⟨later, failed⟩ | ⟨later, ran, filled⟩
        · exact .inl ⟨later, by rw [failed]; rfl⟩
        · have pushed : Memo.Grows [] later ((query, answered) :: later) :=
            .push answered rfl (filled.unknown fresh queryUnbased)
          refine .inr ⟨(query, answered) :: later, by rw [ran]; rfl,
            fun other value known => pushed.known other value (filled.known other value known), ?_⟩
          intro other value looked
          rw [List.lookup_cons] at looked
          cases equal : other == query with
          | true =>
            rw [equal] at looked
            exact .inr ((stored (BEq.trans equal same)).trans looked)
          | false =>
            rw [equal] at looked
            rcases filled.source other value looked with old | new
            · exact .inl old
            · exact .inr (by rwa [skip (below other (by simp [new]))])

/-- A query follows where its own search does: an answer that only the base has is
found again, and a new one is stored on both sides. -/
theorem Follows.resolveWith {base : Memo} (grounded : Memo.Grounded index base) {depth : Nat}
    {active : List Query} {query : Query}
    (answers : Follows index base (query :: active) index.Has
      (answer index (Scope.referAt index depth (query :: active)) query)
      (answer index (Scope.referAt index depth (query :: active)) query)) :
    Follows index base active index.Has
      (Scope.resolveWith index (Scope.referAt index depth) active query)
      (Scope.resolveWith index (Scope.referAt index depth) active query) := by
  refine ⟨Behaves.resolveWith answers.behaves, ?_⟩
  intro idle before start inside joined
  cases based : base.lookup query with
  | some found =>
    have looked : start.lookup query = some found := by
      rw [joined.lookup query]
      cases known : before.lookup query with
      | none => exact based
      | some value => rw [joined.agrees query value found known based]; rfl
    rw [resolveWith_outcome index _ active query start, looked]
    rcases grounded.catches within depth active idle query found based before joined.agrees with
      failed | ⟨later, ran, filled⟩
    · exact .inl failed
    · rw [ran]
      exact .inr ⟨rfl, joined.fill filled⟩
  | none =>
    have looked : start.lookup query = before.lookup query := by
      rw [joined.lookup query, based, Option.or_none]
    have idleAbove (other : Query) (known : base.lookup other ≠ none) :
        (query :: active).contains other = false := by
      rw [List.contains_cons, idle other known, Bool.or_false]
      cases same : other == query with
      | false => rfl
      | true => exact absurd (Memo.lookup_congr same base ▸ based) known
    rw [resolveWith_outcome, resolveWith_outcome index _ active query start, looked]
    cases before.lookup query with
    | some known => exact .inr ⟨rfl, joined⟩
    | none =>
      dsimp only
      split
      · exact .inr ⟨rfl, joined⟩
      · rcases answers.same idleAbove inside joined with ⟨later, failed⟩ | ⟨same, joinedLater⟩
        · exact .inl ⟨later, by rw [failed]⟩
        · rcases ranLeft : outcome (answer index (Scope.referAt index depth (query :: active)) query)
              before with ⟨failure | found, middle⟩ <;>
            rcases ranRight : outcome (answer index (Scope.referAt index depth (query :: active)) query)
              start with ⟨failure' | found', middle'⟩ <;>
            rw [ranLeft, ranRight] at same joinedLater <;> cases same
          · exact .inr ⟨rfl, joinedLater⟩
          · exact .inr ⟨rfl, joinedLater.push found based⟩

theorem Call.follows {base : Memo} (grounded : Memo.Grounded index base) (call : Call) :
    Follows index base [] index.Has (call.run index) (call.run index) := by
  have refers (depth : Nat) (active : List Query) (reference : Reference) (symbol : Symbol) :
      Follows index base active index.Has (referAt index depth active reference symbol)
        (referAt index depth active reference symbol) :=
    Simulation.refers_related (Follows.simulation index base) within
      (fun _ _ _ answers => Follows.resolveWith within grounded answers) depth active reference
      symbol
  cases call with
  | refer reference symbol => exact refers _ _ reference symbol
  | ask query =>
    exact Follows.resolveWith within grounded ((Follows.simulation index base [query]).answer_related
      within (fun symbol _ reference _ => refers _ _ reference symbol) query)

end Following

/-- After answers that rest on one another, a question has the answer it has in a
fresh index, unless the fresh search is out of depth. -/
theorem Call.answer_after_grounded (symbols : List Symbol)
    (rootImports : List (String × List Import)) (history : List Call) (call : Call)
    (grounded : Memo.Grounded (Index.build symbols rootImports)
      (Memo.after (Index.build symbols rootImports) history))
    (bounded : (outcome (call.run (Index.build symbols rootImports)) []).1 ≠ .error .unbounded) :
    (outcome (call.run (Index.build symbols rootImports))
        (Memo.after (Index.build symbols rootImports) history)).1 =
      (outcome (call.run (Index.build symbols rootImports)) []).1 := by
  have within := Index.build_idsWithin symbols rootImports
  generalize Index.build symbols rootImports = index at *
  have joined : Memo.Joined (Memo.after index history) [] (Memo.after index history) :=
    ⟨fun _ => rfl, fun _ _ _ known => by cases known⟩
  have follows := (Call.follows within grounded call).same (fun _ _ => rfl)
    (fun _ member => by cases member) joined
  rcases follows with ⟨later, failed⟩ | ⟨same, _⟩
  · exact absurd (by rw [failed]) bounded
  · exact same.symm

section Shapes

/-- A definition with one reference, the definition it leads to, and its member. -/
def straight : List Symbol :=
  [{ name := "A", qualifiedName := "A", kind := .definition .part, file := "a.sysml",
     references := [{ kind := .specialization, target := "B" }] },
   { name := "B", qualifiedName := "B", kind := .definition .part, file := "a.sysml", serial := 1 },
   { name := "x", qualifiedName := "B::x", kind := .usage .part, file := "a.sysml",
     owner := some "B", serial := 2 }]

def crossing : List Symbol :=
  [{ name := "A", qualifiedName := "A", kind := .definition .part, file := "a.sysml",
     references := [{ kind := .specialization, target := "B::y" },
       { kind := .specialization, target := "C" }] },
   { name := "B", qualifiedName := "B", kind := .definition .part, file := "a.sysml", serial := 1,
     references := [{ kind := .specialization, target := "A::x" }] },
   { name := "C", qualifiedName := "C", kind := .definition .part, file := "a.sysml", serial := 2 },
   { name := "x", qualifiedName := "C::x", kind := .usage .part, file := "a.sysml",
     owner := some "C", serial := 3 },
   { name := "y", qualifiedName := "C::x::y", kind := .usage .part, file := "a.sysml",
     owner := some "C::x", serial := 4 }]

def atRoot (path : String) : Query :=
  ⟨path, none, "a.sysml"⟩

theorem eq_atRoot {query : Query} {path : String} (same : (query == atRoot path) = true) :
    query = atRoot path := by
  obtain ⟨other, scope, file⟩ := query
  rw [Query.beq_eq] at same
  cases scope with
  | none => simpa [atRoot] using same
  | some scope => simp [atRoot] at same

/-- A member that is found through a reference: the reference was asked for first. -/
theorem member_answer_grounded :
    Memo.Grounded (Index.build straight [])
        (Memo.after (Index.build straight []) [.ask (atRoot "A::x")]) ∧
      (outcome (Call.run (Index.build straight []) (.ask (atRoot "B::x"))) []).1 ≠
        .error .unbounded ∧
      (outcome (Call.run (Index.build straight []) (.ask (atRoot "B::x")))
          (Memo.after (Index.build straight []) [.ask (atRoot "A::x")])).1 =
        (outcome (Call.run (Index.build straight []) (.ask (atRoot "B::x"))) []).1 := by
  have reference : Memo.Grounded (Index.build straight []) [(atRoot "B", some straight[1])] := by
    refine .cons .nil rfl fun same equal => ?_
    rw [eq_atRoot equal]
    rfl
  have grounded : Memo.Grounded (Index.build straight [])
      (Memo.after (Index.build straight []) [.ask (atRoot "A::x")]) := by
    refine @Memo.Grounded.cons _ _ (atRoot "A::x") (some straight[2]) reference rfl
      fun same equal => ?_
    rw [eq_atRoot equal]
    rfl
  have found : (outcome (Call.run (Index.build straight []) (.ask (atRoot "B::x"))) []).1 =
      .ok (some straight[2]) := rfl
  have bounded : (outcome (Call.run (Index.build straight []) (.ask (atRoot "B::x"))) []).1 ≠
      .error .unbounded := by
    rw [found]
    intro same
    cases same
  exact ⟨grounded, bounded, Call.answer_after_grounded straight [] _ _ grounded bounded⟩

/-- On the way to `A::x` the query `B::y` is answered without `A::x`, which is
under way then. It has no answer so, and keeps none. -/
theorem cut_answer_is_kept :
    (outcome (Call.run (Index.build crossing []) (.ask (atRoot "B::y"))) []).1 =
        .ok (some crossing[4]) ∧
      (outcome (Call.run (Index.build crossing []) (.ask (atRoot "B::y")))
          (Memo.after (Index.build crossing []) [.ask (atRoot "A::x")])).1 = .ok none :=
  ⟨rfl, rfl⟩

end Shapes

end Sysml.Scope
