import Mathlib.Logic.Relation
import Sysml.Proofs.Session.Complete
import Sysml.Proofs.Workspace.Findings

/-!
# Warnings of cycles

A session that only read texts warns of a definition, once, exactly if specializations lead from it
to itself (`checkFile_cycles`).
-/

set_option autoImplicit false

/-!
## Cycles of specializations

The search for a cycle stacks what specializations lead to, each name once, until one of them leads
back to where it started. Once the meanings of references are remembered, it finds a cycle exactly
if specializations lead from a definition to itself (`isCyclic_tells`), and the checks report each
such definition once (`checkFiles_cycles`).
-/

namespace Sysml

open Scope

def Scope.generals (index : Index) (memo : Memo) (symbol : Symbol) (references : List Reference) :
    List Symbol :=
  references.filterMap fun reference =>
    if reference.kind = .specialization then meaning index memo symbol reference else none

/-- A specialization of the first symbol means the second one. -/
def Scope.SpecializesTo (index : Index) (memo : Memo) (symbol general : Symbol) : Prop :=
  ∃ reference ∈ symbol.references, reference.kind = .specialization ∧
    meaning index memo symbol reference = some general

/-- The symbol is a definition that specializations lead from to itself. -/
def Scope.Circular (index : Index) (memo : Memo) (symbol : Symbol) : Prop :=
  symbol.kind.isDefinition = true ∧ Relation.TransGen (SpecializesTo index memo) symbol symbol

/-- The qualified names of an index tell its symbols apart. -/
def Scope.Index.NamesDistinct (index : Index) : Prop :=
  ∀ one ∈ index.symbols, ∀ other ∈ index.symbols,
    (one.qualifiedName == other.qualifiedName) = true → one = other

namespace Workspace

variable {index : Index} {memo : Memo} {symbol : Symbol}

theorem mem_generals {general : Symbol} :
    general ∈ generals index memo symbol symbol.references ↔
      SpecializesTo index memo symbol general := by
  unfold generals SpecializesTo
  rw [List.mem_filterMap]
  constructor
  · rintro ⟨reference, has, means⟩
    split at means
    · next kind => exact ⟨reference, has, kind, means⟩
    · cases means
  · rintro ⟨reference, has, kind, means⟩
    exact ⟨reference, has, by rw [if_pos kind, means]⟩

theorem generals_cons (reference : Reference) (rest : List Reference) :
    generals index memo symbol (reference :: rest) =
      (if reference.kind = .specialization then meaning index memo symbol reference
        else none).toList ++
        generals index memo symbol rest := by
  unfold generals
  rw [List.filterMap_cons]
  split <;> simp [*]

/-! ## Where all is remembered -/

/-- What a step of the search for a goal does with the symbols that are specialized. -/
inductive Stepped (goal : Key) (specialized stack : List Symbol) (visited : List Key) :
    Option (List Symbol × List Key) → Prop where
  | goal {general : Symbol} : general ∈ specialized → (general.qualifiedName == goal) = true →
      Stepped goal specialized stack visited none
  | more {new : List Symbol} : new ⊆ specialized →
      (∀ general ∈ specialized, (general.qualifiedName == goal) = false ∧
        (new.map (·.qualifiedName) ++ visited).contains general.qualifiedName = true) →
      Stepped goal specialized stack visited
        (some (new ++ stack, new.map (·.qualifiedName) ++ visited))

namespace Stepped

variable {goal : Key} {general : Symbol} {specialized stack : List Symbol} {visited : List Key}
  {step : Option (List Symbol × List Key)}

/-- What was visited before is passed over. -/
theorem skip (stepped : Stepped goal specialized stack visited step)
    (other : (general.qualifiedName == goal) = false)
    (seen : visited.contains general.qualifiedName = true) :
    Stepped goal (general :: specialized) stack visited step := by
  cases stepped with
  | goal listed isGoal => exact .goal (List.mem_cons_of_mem _ listed) isGoal
  | more part all =>
    apply Stepped.more (List.subset_cons_of_subset _ part)
    refine List.forall_mem_cons.mpr ⟨⟨other, ?_⟩, all⟩
    rw [List.contains_append, seen, Bool.or_true]

/-- What was not visited before is stacked first. -/
theorem push (stepped : Stepped goal specialized (general :: stack)
      (general.qualifiedName :: visited) step)
    (other : (general.qualifiedName == goal) = false) :
    Stepped goal (general :: specialized) stack visited step := by
  cases stepped with
  | goal listed isGoal => exact .goal (List.mem_cons_of_mem _ listed) isGoal
  | @more new part all =>
    have stacked : new ++ general :: stack = (new ++ [general]) ++ stack := by simp
    have names : new.map (·.qualifiedName) ++ general.qualifiedName :: visited =
        (new ++ [general]).map (·.qualifiedName) ++ visited := by simp
    rw [names] at all ⊢
    rw [stacked]
    apply Stepped.more
    · apply List.append_subset.mpr
      exact ⟨List.subset_cons_of_subset _ part, by simp⟩
    · refine List.forall_mem_cons.mpr ⟨⟨other, ?_⟩, all⟩
      rw [List.map_append, List.map_singleton, List.contains_append, List.contains_append,
        List.contains_cons, BEq.rfl, Bool.true_or, Bool.or_true, Bool.true_or]

end Stepped

section Searching

variable (within : index.IdsWithin) (inside : memo.Within index) {goal : Key}

include within inside

theorem meaning_within {reference : Reference} {general : Symbol}
    (means : meaning index memo symbol reference = some general) : general ∈ index.symbols := by
  have behaves := resolveReference_behaves within reference symbol
  exact behaves.answers inside _ (toOption_join_eq_some.mp means) general rfl

theorem specializes_within {general : Symbol}
    (specializes : SpecializesTo index memo symbol general) : general ∈ index.symbols := by
  obtain ⟨reference, _, _, means⟩ := specializes
  exact meaning_within within inside means

/-- A step of the search finds the goal among what is specialized, or else stacks what was not
visited before. -/
theorem stepGenerals_tells {references : List Reference} {stack : List Symbol} {visited : List Key}
    {step : Option (List Symbol × List Key)}
    (ran : outcome (stepGenerals index goal symbol references stack visited) memo =
      (.ok step, memo)) :
    Stepped goal (generals index memo symbol references) stack visited step := by
  have goesOn (rest : List Reference) (stack : List Symbol) (visited : List Key) :=
    stepGenerals_related (Behaves.simulation index []) (resolveReference_behaves within) goal symbol
      rest stack visited
  induction references generalizing stack visited with
  | nil =>
    cases ran
    exact @Stepped.more goal [] stack visited [] (List.nil_subset _) (List.forall_mem_nil _)
  | cons reference rest ih =>
    simp only [stepGenerals] at ran
    rw [generals_cons]
    split at ran
    · next kind =>
      obtain ⟨target, _, found, ran⟩ :=
        outcome_bind_fixed inside (resolveReference_behaves within _ _) (fun target _ => by
          cases target with
          | none => exact goesOn rest stack visited
          | some target =>
            dsimp only
            split
            · exact .pure trivial
            · split
              · exact goesOn rest stack visited
              · exact goesOn rest _ _) ran
      have means : meaning index memo symbol reference = target := by
        rw [meaning, found]
        rfl
      rw [if_pos kind, means]
      cases target with
      | none => exact ih ran
      | some target =>
        dsimp only at ran
        split at ran
        · next isGoal =>
          cases ran
          exact .goal List.mem_cons_self isGoal
        · next notGoal =>
          have other := Bool.eq_false_iff.mpr notGoal
          split at ran
          · next seen => exact (ih ran).skip other seen
          · exact (ih ran).push other
    · next kind =>
      rw [if_neg kind]
      exact ih ran

/-- All symbols of the index that were visited, and the one that the search started from, are still
stacked, or what they specialize was visited and is not the goal. -/
def Explored (index : Index) (memo : Memo) (goal : Key) (start : Symbol) (stack : List Symbol)
    (visited : List Key) : Prop :=
  ∀ symbol ∈ index.symbols, symbol = start ∨ visited.contains symbol.qualifiedName = true →
    symbol ∈ stack ∨ ∀ general, SpecializesTo index memo symbol general →
      (general.qualifiedName == goal) = false ∧ visited.contains general.qualifiedName = true

variable {start : Symbol} {fuel : Nat} {stack : List Symbol} {visited : List Key}

/-- One step of the search: what the first of the stack specializes is the goal, or is stacked. -/
theorem reaches_step {found : Bool}
    (ran : outcome (reaches index goal (fuel + 1) (symbol :: stack) visited) memo =
      (.ok found, memo)) :
    (∃ general, SpecializesTo index memo symbol general ∧
        (general.qualifiedName == goal) = true ∧ found = true) ∨
      ∃ new : List Symbol, (∀ general ∈ new, SpecializesTo index memo symbol general) ∧
        (∀ general, SpecializesTo index memo symbol general →
          (general.qualifiedName == goal) = false ∧
            (new.map (·.qualifiedName) ++ visited).contains general.qualifiedName = true) ∧
        outcome (reaches index goal fuel (new ++ stack) (new.map (·.qualifiedName) ++ visited))
          memo = (.ok found, memo) := by
  obtain ⟨step, _, ranStep, ran⟩ := outcome_bind_fixed inside
    (stepGenerals_related (Behaves.simulation index []) (resolveReference_behaves within) goal
      symbol symbol.references stack visited) (fun step _ => by
        show Behaves index [] (fun _ => True) _
        cases step with
        | none => exact .pure trivial
        | some next =>
          exact reaches_related (Behaves.simulation index []) (resolveReference_behaves within)
            goal fuel next.1 next.2) ran
  cases stepGenerals_tells within inside ranStep with
  | goal listed isGoal =>
    cases ran
    exact .inl ⟨_, mem_generals.mp listed, isGoal, rfl⟩
  | @more new part all =>
    refine .inr ⟨new, fun general member => mem_generals.mp (part member), ?_, ran⟩
    exact fun general specializes => all general (mem_generals.mpr specializes)

/-- A search that finds the goal came to something that is specialized and has its name. -/
theorem reaches_true
    (stacked : ∀ symbol ∈ stack, Relation.ReflTransGen (SpecializesTo index memo) start symbol)
    (ran : outcome (reaches index goal fuel stack visited) memo = (.ok true, memo)) :
    ∃ general, Relation.TransGen (SpecializesTo index memo) start general ∧
      (general.qualifiedName == goal) = true := by
  induction fuel generalizing stack visited with
  | zero => cases ran
  | succ fuel ih =>
    cases stack with
    | nil => cases ran
    | cons symbol stack =>
      obtain ⟨first, others⟩ := List.forall_mem_cons.mp stacked
      rcases reaches_step within inside ran with ⟨general, edge, isGoal, _⟩ | ⟨new, edges, _, ran⟩
      · exact ⟨general, .tail' first edge, isGoal⟩
      · refine ih (fun other member => ?_) ran
        rcases List.mem_append.mp member with isNew | old
        · exact first.tail (edges other isNew)
        · exact others other old

/-- A search that does not find the goal has visited all that is specialized. -/
theorem reaches_false (distinct : index.NamesDistinct) (known : stack ⊆ index.symbols)
    (explored : Explored index memo goal start stack visited)
    (ran : outcome (reaches index goal fuel stack visited) memo = (.ok false, memo)) :
    ∃ seen, Explored index memo goal start [] seen := by
  induction fuel generalizing stack visited with
  | zero => cases ran
  | succ fuel ih =>
    cases stack with
    | nil => exact ⟨visited, explored⟩
    | cons symbol stack =>
      obtain ⟨_, knownRest⟩ := List.cons_subset.mp known
      rcases reaches_step within inside ran with ⟨_, _, _, isFound⟩ | ⟨new, edges, all, ran⟩
      · cases isFound
      · have knownNew : new ⊆ index.symbols := fun general member =>
          specializes_within within inside (edges general member)
        apply ih (List.append_subset.mpr ⟨knownNew, knownRest⟩) _ ran
        intro other held reached
        have more (general : Symbol) (seen : visited.contains general.qualifiedName = true) :
            (new.map (·.qualifiedName) ++ visited).contains general.qualifiedName = true := by
          rw [List.contains_append, seen, Bool.or_true]
        rw [List.contains_append, Bool.or_eq_true, ← or_assoc, or_right_comm] at reached
        rcases reached with before | isNew
        · rcases explored other held before with waiting | done
          · rcases List.mem_cons.mp waiting with rfl | waiting
            · exact .inr all
            · exact .inl (List.mem_append_right _ waiting)
          · exact .inr fun general edge =>
              ⟨(done general edge).1, more general (done general edge).2⟩
        · -- a name that was visited just now is that of a symbol which was stacked just now
          obtain ⟨name, listed, same⟩ := List.contains_iff_exists_mem_beq.mp isNew
          obtain ⟨general, member, rfl⟩ := List.mem_map.mp listed
          obtain rfl := distinct other held general (knownNew member) same
          exact .inl (List.mem_append_left _ member)

/-- Where all that is specialized was visited, specializations do not lead to the goal. -/
theorem Explored.apart {seen : List Key} (explored : Explored index memo goal start [] seen)
    (known : start ∈ index.symbols) {general : Symbol}
    (chain : Relation.TransGen (SpecializesTo index memo) start general) :
    general ∈ index.symbols ∧ (general.qualifiedName == goal) = false ∧
      seen.contains general.qualifiedName = true := by
  have goesOn {symbol general : Symbol} (held : symbol ∈ index.symbols)
      (reached : symbol = start ∨ seen.contains symbol.qualifiedName = true)
      (edge : SpecializesTo index memo symbol general) :
      general ∈ index.symbols ∧ (general.qualifiedName == goal) = false ∧
        seen.contains general.qualifiedName = true := by
    have done := (explored symbol held reached).resolve_left List.not_mem_nil
    exact ⟨specializes_within within inside edge, done general edge⟩
  induction chain with
  | single edge => exact goesOn known (.inl rfl) edge
  | tail _ edge ih => exact goesOn ih.1 (.inr ih.2.2) edge

/-- Whether a symbol is found to be in a cycle. -/
theorem isCyclic_iff (distinct : index.NamesDistinct) (known : symbol ∈ index.symbols)
    {cyclic : Bool} (ran : outcome (isCyclic index symbol) memo = (.ok cyclic, memo)) :
    cyclic = true ↔ Circular index memo symbol := by
  unfold isCyclic at ran
  unfold Circular
  cases definition : symbol.kind.isDefinition with
  | false =>
    rw [definition] at ran
    cases ran
    simp
  | true =>
    rw [definition, if_pos rfl] at ran
    cases cyclic with
    | true =>
      obtain ⟨general, chain, same⟩ := reaches_true within inside
        (List.forall_mem_singleton.mpr .refl) ran
      have held : general ∈ index.symbols := by
        cases chain with
        | single edge => exact specializes_within within inside edge
        | tail _ edge => exact specializes_within within inside edge
      obtain rfl := distinct general held symbol known same
      exact ⟨fun _ => ⟨rfl, chain⟩, fun _ => rfl⟩
    | false =>
      have begun : Explored index memo symbol.qualifiedName symbol [symbol] [] := by
        rintro other _ (rfl | seen)
        · exact .inl List.mem_cons_self
        · cases seen
      obtain ⟨seen, explored⟩ := reaches_false within inside distinct
        (List.cons_subset.mpr ⟨known, List.nil_subset _⟩) begun ran
      refine ⟨fun isTrue => (by cases isTrue), fun ⟨_, chain⟩ => ?_⟩
      have apart := (explored.apart within inside known chain).2.1
      rw [BEq.rfl] at apart
      cases apart

end Searching

/-! ## Findings about cycles -/

def cycleWarning (symbol : Symbol) : Diagnostic :=
  ⟨symbol.file, symbol.span, .specializationCycle symbol.qualifiedName.display⟩

end Workspace

def Finding.isCycle : Finding → Bool
  | .specializationCycle _ => true
  | _ => false

theorem Finding.code_cycle (finding : Finding) :
    finding.code = "W0302" ↔ finding.isCycle = true := by
  cases finding with
  | unresolved kind target => cases kind <;> simp [code, isCycle]
  | _ => simp [code, isCycle]

namespace Workspace

def aboutCycles (found : List Diagnostic) : List Diagnostic :=
  found.filter (·.finding.isCycle)

@[simp] theorem aboutCycles_append (left right : List Diagnostic) :
    aboutCycles (left ++ right) = aboutCycles left ++ aboutCycles right :=
  List.filter_append ..

theorem checkImports_cycles {index : Index} {path : String} {scope : Option Key} {seen : List Key}
    {imports : List Import} {found : List Diagnostic}
    (ran : checkImports index path scope seen imports = .ok found) : aboutCycles found = [] := by
  induction imports generalizing seen found with
  | nil =>
    cases ran
    rfl
  | cons i rest ih =>
    obtain ⟨text, _, ran⟩ := result_bind_ok ran
    obtain ⟨named, _, ran⟩ := result_bind_ok ran
    obtain ⟨others, checked, same⟩ := result_bind_ok ran
    cases same
    rw [aboutCycles_append, aboutCycles_append, ih checked]
    split <;> cases named <;> rfl

theorem checkReferences_cycles {index : Index} {symbol : Symbol} {references : List Reference}
    {memo later : Memo} {found : List Diagnostic}
    (ran : outcome (checkReferences index symbol references) memo = (.ok found, later)) :
    aboutCycles found = [] := by
  induction references generalizing memo later found with
  | nil =>
    cases ran
    rfl
  | cons reference rest ih =>
    simp only [checkReferences] at ran
    split at ran
    · obtain ⟨meant, _, _, ran⟩ := outcome_bind_ok ran
      obtain ⟨others, _, checked, ran⟩ := outcome_bind_ok ran
      have none_ := ih checked
      split at ran
      · cases ran
        exact none_
      · cases ran
        exact none_
    · exact ih ran

open Classical in
/-- What was found tells of each of the symbols that is in a cycle, once and in order. -/
def TellsCycles (index : Index) (memo : Memo) (symbols : List Symbol) (found : List Diagnostic) :
    Prop :=
  aboutCycles found = (symbols.filter fun symbol => Circular index memo symbol).map cycleWarning

section Reporting

variable {index : Index} (within : index.IdsWithin) (distinct : index.NamesDistinct) {other : Memo}
  (remembers : other.Within index)

include within distinct remembers

theorem checkSymbol_cycles {path : String} {duplicate : List Nat} {symbol : Symbol}
    {memo later : Memo} {found : List Diagnostic} (inside : memo.Within index)
    (held : symbol ∈ index.symbols)
    (ran : outcome (checkSymbol index path duplicate symbol) memo = (.ok found, later))
    (known : later.Known other) : TellsCycles index other [symbol] found := by
  classical
  obtain ⟨unresolved, between, first, ran⟩ := outcome_bind_ok ran
  obtain ⟨imports, middle, second, ran⟩ := outcome_bind_ok ran
  obtain ⟨cyclic, last, third, ran⟩ := outcome_bind_ok ran
  cases ran
  rw [outcome_liftM] at second
  obtain ⟨checked, rfl⟩ := Prod.mk.inj second
  have insideBetween : between.Within index := by
    simpa [first] using (checkReferences_behaves within symbol symbol.references).within inside
  have settles :=
    isCyclic_related (Settles.simulation index) (resolveReference_settles within) symbol
  have isCircular := isCyclic_iff within remembers distinct held
    (settles.again insideBetween third known)
  have doubled : aboutCycles (doubledFindings duplicate symbol) = [] := by
    unfold doubledFindings
    split <;> rfl
  have untyped : aboutCycles (untypedFindings symbol) = [] := by
    unfold untypedFindings
    split <;> rfl
  unfold TellsCycles
  rw [aboutCycles_append, aboutCycles_append, aboutCycles_append, aboutCycles_append, doubled,
    checkReferences_cycles first, checkImports_cycles checked, untyped, List.append_nil,
    List.nil_append, List.nil_append, List.nil_append, List.filter_singleton]
  unfold cycleFindings
  cases cyclic with
  | true =>
    rw [decide_eq_true (isCircular.mp rfl)]
    rfl
  | false =>
    rw [decide_eq_false fun circular => Bool.false_ne_true (isCircular.mpr circular)]
    rfl

theorem checkSymbols_cycles {path : String} {duplicate : List Nat} {symbols : List Symbol}
    {memo later : Memo} {found : List Diagnostic} (inside : memo.Within index)
    (held : symbols ⊆ index.symbols)
    (ran : outcome (checkSymbols index path duplicate symbols) memo = (.ok found, later))
    (known : later.Known other) : TellsCycles index other symbols found := by
  induction symbols generalizing memo found with
  | nil =>
    cases ran
    rfl
  | cons symbol rest ih =>
    obtain ⟨heldFirst, heldRest⟩ := List.cons_subset.mp held
    obtain ⟨here, between, first, ran⟩ := outcome_bind_ok ran
    obtain ⟨others, last, second, ran⟩ := outcome_bind_ok ran
    cases ran
    have insideBetween : between.Within index := by
      simpa [first] using (checkSymbol_behaves within path duplicate symbol).within inside
    have grows : between.Known later := by
      simpa [second] using
        ((checkSymbols_behaves within path duplicate rest).grows insideBetween).known
    have told := checkSymbol_cycles within distinct remembers inside heldFirst first
      fun query answer was => known query answer (grows query answer was)
    have toldRest := ih insideBetween heldRest second
    unfold TellsCycles at told toldRest ⊢
    rw [aboutCycles_append, told, toldRest, ← List.map_append, ← List.filter_append]
    rfl

/-- What was found for each file that is no library tells of its definitions that specialize
themselves. -/
theorem checkFiles_cycles {duplicate : List Nat} {files : List SourceFile} {memo later : Memo}
    {found : List (String × List Diagnostic)} (inside : memo.Within index)
    (held : ∀ file ∈ files, file.symbols ⊆ index.symbols)
    (ran : outcome (checkFiles index duplicate files) memo = (.ok found, later))
    (known : later.Known other) :
    List.Forall₂ (fun file entry =>
        entry.1 = file.path ∧ TellsCycles index other file.symbols entry.2)
      (files.filter fun file => !file.isLibrary) found := by
  induction files generalizing memo found with
  | nil =>
    cases ran
    exact .nil
  | cons file rest ih =>
    obtain ⟨heldFirst, heldRest⟩ := List.forall_mem_cons.mp held
    simp only [checkFiles] at ran
    split at ran
    · next library =>
      simp only [List.filter_cons, library, Bool.not_true, Bool.false_eq_true, ↓reduceIte]
      exact ih inside heldRest ran
    · next user =>
      simp only [List.filter_cons, user, Bool.not_false, ↓reduceIte]
      obtain ⟨outer, middle, zeroth, ran⟩ := outcome_bind_ok ran
      rw [outcome_liftM] at zeroth
      obtain ⟨checked, rfl⟩ := Prod.mk.inj zeroth
      obtain ⟨inner, between, first, ran⟩ := outcome_bind_ok ran
      obtain ⟨others, last, second, ran⟩ := outcome_bind_ok ran
      cases ran
      have insideBetween : between.Within index := by
        simpa [first] using
          (checkSymbols_behaves within file.path duplicate file.symbols).within inside
      have grows : between.Known later := by
        simpa [second] using ((checkFiles_behaves within duplicate rest).grows insideBetween).known
      have told := checkSymbols_cycles within distinct remembers inside heldFirst first
        fun query answer was => known query answer (grows query answer was)
      refine .cons ⟨rfl, ?_⟩ (ih insideBetween heldRest second)
      unfold TellsCycles at told ⊢
      rw [aboutCycles_append, checkImports_cycles checked, List.nil_append, told]

end Reporting

section Telling

variable {index : Index} {memo : Memo} {symbols : List Symbol} {found : List Diagnostic}

/-- What is told of cycles is told of the symbols. -/
theorem TellsCycles.source (tells : TellsCycles index memo symbols found) {diagnostic : Diagnostic}
    (listed : diagnostic ∈ found) (code : diagnostic.finding.code = "W0302") :
    ∃ symbol ∈ symbols, diagnostic = cycleWarning symbol := by
  have about : diagnostic ∈ aboutCycles found :=
    List.mem_filter.mpr ⟨listed, (Finding.code_cycle _).mp code⟩
  rw [tells] at about
  obtain ⟨symbol, kept, rfl⟩ := List.mem_map.mp about
  exact ⟨symbol, (List.mem_filter.mp kept).1, rfl⟩

/-- Where warnings tell symbols apart, each symbol in a cycle is warned of once and no other one
is. -/
theorem TellsCycles.count (tells : TellsCycles index memo symbols found)
    (apart : ∀ one ∈ symbols, ∀ other ∈ symbols,
      cycleWarning one = cycleWarning other → one = other)
    (distinct : symbols.Nodup) {symbol : Symbol} (member : symbol ∈ symbols) :
    found.count (cycleWarning symbol) ≤ 1 ∧
      (cycleWarning symbol ∈ found ↔ Circular index memo symbol) := by
  classical
  have filtered : found.count (cycleWarning symbol) =
      (aboutCycles found).count (cycleWarning symbol) := (List.count_filter rfl).symm
  have listed : cycleWarning symbol ∈ found ↔ cycleWarning symbol ∈ aboutCycles found :=
    ⟨fun held => List.mem_filter.mpr ⟨held, rfl⟩, fun held => (List.mem_filter.mp held).1⟩
  rw [filtered, listed, tells]
  constructor
  · apply List.nodup_iff_count_le_one.mp
    apply (distinct.filter _).map_on
    intro one first other second same
    exact apart one (List.mem_filter.mp first).1 other (List.mem_filter.mp second).1 same
  · rw [List.mem_map]
    constructor
    · rintro ⟨other, kept, same⟩
      obtain ⟨held, circular⟩ := List.mem_filter.mp kept
      obtain rfl := apart other held symbol member same
      exact of_decide_eq_true circular
    · intro circular
      exact ⟨symbol, List.mem_filter.mpr ⟨member, decide_eq_true circular⟩, rfl⟩

end Telling

end Workspace

end Sysml

namespace Sysml

open Scope Workspace

/-- Different texts that name symbols are told apart as keys. -/
theorem Scope.Index.Written.namesDistinct {index : Index} (written : index.Written)
    (distinct : (index.symbols.map (·.qualifiedName)).Nodup) : index.NamesDistinct := by
  intro one first other second same
  exact List.inj_on_of_nodup_map distinct first second ((written.name_beq first second).mp same)

namespace Session

/-- However texts were loaded in which no two symbols have one qualified name: in a file that is no
library, each symbol is warned of at most once, and is so exactly if it is a definition and
specializations lead from it to itself, through whatever symbols. There are no other warnings of
cycles. -/
theorem checkFile_cycles {changes : List Change} {session : Session} {index : Index}
    (reads : ∀ change ∈ changes, change.reads = true) (reached : after changes = session)
    (ready : session.isReady = true) (indexed : session.workspace.index = some index)
    (distinct : (session.workspace.symbols.map (·.qualifiedName)).Nodup) {file : SourceFile}
    (inside : file ∈ session.workspace.files) (user : file.isLibrary = false) :
    ∃ found, outcome (checkFile file.path) session = (.ok found, session) ∧
      (∀ symbol ∈ file.symbols, found.count (cycleWarning symbol) ≤ 1 ∧
        (cycleWarning symbol ∈ found ↔ symbol.kind.isDefinition = true ∧
          Relation.TransGen (SpecializesTo index session.workspace.memo) symbol symbol)) ∧
      ∀ diagnostic ∈ found, diagnostic.finding.code = "W0302" →
        ∃ symbol ∈ file.symbols, diagnostic = cycleWarning symbol := by
  subst reached
  have consistent := after_consistent changes
  have read := after_read reads
  have checked := read.checked ready
  obtain ⟨other, current⟩ := consistent.current ready
  obtain rfl : index = Index.build (after changes).workspace.symbols
      (after changes).workspace.rootImports :=
    Option.some.inj (indexed.symm.trans checked.found)
  obtain rfl := Option.some.inj (current.found.symm.trans checked.found)
  have names := (read.written (after changes).workspace.rootImports).namesDistinct distinct
  have held (file : SourceFile) (listed : file ∈ (after changes).workspace.files) :
      file.symbols ⊆ (after changes).workspace.symbols :=
    fun symbol has => List.mem_flatMap_of_mem listed has
  have told := checkFiles_cycles current.ids names current.memo (fun _ member => (by cases member))
    held checked.check fun _ _ was => was
  obtain ⟨found, looked, tells⟩ := lookup_related told
    (consistent.tidy.paths.sublist (List.filter_sublist.map _))
    (List.mem_filter.mpr ⟨inside, by simp [user]⟩)
  have diagnostics := outcome_checkFile consistent ready current inside
  rw [looked] at diagnostics
  have parsed := read.parsed file inside
  have allTold : TellsCycles (Index.build (after changes).workspace.symbols
      (after changes).workspace.rootImports) (after changes).workspace.memo file.symbols
      (file.faults ++ found) := by
    have noFault : aboutCycles file.faults = [] := by
      apply List.filter_eq_nil_iff.mpr
      intro fault listed
      rw [parsed.faults] at listed
      obtain ⟨_, _, rfl⟩ := List.mem_map.mp listed
      exact Bool.false_ne_true
    unfold TellsCycles at tells ⊢
    rw [aboutCycles_append, noFault, List.nil_append, tells]
  have once : file.symbols.Nodup := by
    have part : file.symbols.Sublist (after changes).workspace.symbols :=
      List.sublist_flatten_of_mem (List.mem_map_of_mem inside)
    exact (List.Nodup.of_map _ distinct).sublist part
  have apart : ∀ one ∈ file.symbols, ∀ other ∈ file.symbols,
      cycleWarning one = cycleWarning other → one = other := by
    intro one first other second same
    obtain ⟨name, isName⟩ := (parsed.written one first).qualifiedName
    obtain ⟨otherName, isOther⟩ := (parsed.written other second).qualifiedName
    apply List.inj_on_of_nodup_map distinct (held file inside first) (held file inside second)
    have messages := congrArg Diagnostic.finding same
    rw [cycleWarning, cycleWarning, isName, isOther] at messages
    rw [isName, isOther]
    exact congrArg Key.text (Finding.specializationCycle.inj messages)
  refine ⟨_, diagnostics, fun symbol has => allTold.count apart once has, ?_⟩
  exact fun diagnostic listed code => allTold.source listed code

/-- A definition that specializes itself through one of a library, and one that specializes
these. -/
def looped : List Change :=
  [.load "lib.sysml" "part def L :> A;" true,
    .load "m.sysml" "part def A :> L; part def B :> A; part x :> x;" false, .reindex]

theorem checkFile_cycles_looped :
    ∃ index file found, (after looped).workspace.index = some index ∧
      file ∈ (after looped).workspace.files ∧ file.isLibrary = false ∧
      outcome (checkFile file.path) (after looped) = (.ok found, after looped) ∧
      found.map (·.finding) = [.specializationCycle "A"] ∧
      ∀ symbol ∈ file.symbols, found.count (cycleWarning symbol) ≤ 1 ∧
        (cycleWarning symbol ∈ found ↔ symbol.kind.isDefinition = true ∧
          Relation.TransGen (SpecializesTo index (after looped).workspace.memo) symbol symbol) := by
  have reads : ∀ change ∈ looped, change.reads = true := by decide
  have facts : (after looped).isReady = true ∧
      (((after looped).workspace.symbols.map (·.qualifiedName)).map Key.display).Nodup ∧
      ((after looped).workspace.file? "m.sysml").map
        (fun file => (file.path, file.isLibrary)) = some ("m.sysml", false) ∧
      (outcome (checkFile "m.sysml") (after looped)).1.toOption.map (·.map (·.finding)) =
        some [.specializationCycle "A"] := by
    decide +kernel
  obtain ⟨ready, texts, looked, findings⟩ := facts
  have distinct : ((after looped).workspace.symbols.map (·.qualifiedName)).Nodup :=
    texts.of_map _
  have indexed := ((after_read reads).checked ready).found
  obtain ⟨file, isFile, same⟩ := Option.map_eq_some_iff.mp looked
  obtain ⟨path, user⟩ := Prod.mk.inj same
  have inside := List.mem_of_find?_eq_some isFile
  obtain ⟨found, checked, told, _⟩ :=
    checkFile_cycles reads rfl ready indexed distinct inside user
  rw [← path, checked] at findings
  -- from here on it may be any session: no step evaluates its texts again
  generalize after looped = session at *
  exact ⟨_, file, found, indexed, inside, user, checked, Option.some.inj findings, told⟩

end Session

end Sysml
