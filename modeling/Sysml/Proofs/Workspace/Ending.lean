import Sysml.Proofs.Scope.Termination
import Sysml.Proofs.Workspace.Findings

/-!
# Checks that end

Where all references have answers and all imports can be looked up, the check of all files
ends, so the index is built (`rebuild_ends`): the search for specialization cycles stacks
each name at most once.
-/

set_option autoImplicit false

namespace Sysml

open Scope

/-- An import that can be looked up and told of. -/
def Import.Checks (index : Index) (scope : Option Key) (i : Import) : Prop :=
  i.text.isProper = true ∧ ∃ found, resolveImport index i scope = .ok found

theorem Import.text_isProper {i : Import} {path : String} (isPath : i.path = .text path) :
    i.text.isProper = true := by
  rw [Import.text, isPath]
  split
  · rfl
  · split <;> rfl

/-- What a symbol refers to has an answer, whatever is remembered. -/
structure Symbol.Checks (index : Index) (symbol : Symbol) : Prop where
  references : ∀ reference ∈ symbol.references,
    Ends index index.Has (resolveReference index reference symbol)
  imports : ∀ i ∈ symbol.imports, i.Checks index (some symbol.qualifiedName)

namespace Workspace

variable {index : Index} {allowed : Failure → Prop} {inv : Memo → Prop} {symbol : Symbol}

theorem checkImports_ends (path : String) {scope : Option Key} (seen : List Key)
    {imports : List Import} (checks : ∀ i ∈ imports, i.Checks index scope) :
    ∃ found, checkImports index path scope seen imports = .ok found := by
  induction imports generalizing seen with
  | nil => exact ⟨[], rfl⟩
  | cons i rest ih =>
    obtain ⟨isProper, named, resolved⟩ := checks i List.mem_cons_self
    have proper : i.text.proper = .ok i.text := if_pos isProper
    obtain ⟨others, checked⟩ := ih (i.text :: seen)
      fun other member => checks other (List.mem_cons_of_mem _ member)
    rw [checkImports, proper, resolved, ok_bind]
    dsimp only
    rw [ok_bind, checked]
    exact ⟨_, rfl⟩

theorem checkReferences_ends {references : List Reference}
    (answers : ∀ reference ∈ references,
      Halts allowed inv index.Has (resolveReference index reference symbol)) :
    Halts allowed inv (fun _ => True) (checkReferences index symbol references) := by
  induction references with
  | nil => exact .pure trivial
  | cons reference rest ih =>
    have next := ih fun other member => answers other (List.mem_cons_of_mem _ member)
    simp only [checkReferences]
    split
    · refine (answers reference List.mem_cons_self).bind fun found _ => next.bind fun others _ => ?_
      split <;> exact .pure trivial
    · exact next

/-- A step of the search for cycles stacks symbols of the index, and no more than it visits. -/
def Steps (index : Index) (stack : List Symbol) (visited : List Key)
    (step : Option (List Symbol × List Key)) : Prop :=
  ∀ next, step = some next → next.1 ⊆ index.symbols ∧
    next.1.length + unvisited index next.2 ≤ stack.length + unvisited index visited

theorem stepGenerals_ends (goal : Key) {references : List Reference}
    (answers : ∀ reference ∈ references,
      Halts allowed inv index.Has (resolveReference index reference symbol))
    {stack : List Symbol} (inside : stack ⊆ index.symbols) (visited : List Key) :
    Halts allowed inv (Steps index stack visited)
      (stepGenerals index goal symbol references stack visited) := by
  induction references generalizing stack visited with
  | nil =>
    refine .pure fun next same => ?_
    cases same
    exact ⟨inside, Nat.le_refl _⟩
  | cons reference rest ih =>
    have later {stack : List Symbol} (inside : stack ⊆ index.symbols) (visited : List Key) :=
      ih (fun other member => answers other (List.mem_cons_of_mem _ member)) inside visited
    simp only [stepGenerals]
    split
    · refine (answers reference List.mem_cons_self).bind fun target has => ?_
      cases target with
      | none => exact later inside visited
      | some target =>
        have known := has target rfl
        dsimp only
        split
        · exact .pure fun next same => (by cases same)
        · split
          · exact later inside visited
          · next fresh =>
            have fewer := unvisited_cons (List.mem_filter.mpr ⟨known, BEq.rfl⟩)
              (Bool.eq_false_iff.mpr fresh)
            refine (later (List.cons_subset.mpr ⟨known, inside⟩) _).mono fun step steps next same => ?_
            obtain ⟨insideAfter, few⟩ := steps next same
            rw [List.length_cons] at few
            exact ⟨insideAfter, by omega⟩
    · exact later inside visited

section Checking

variable (answers : ∀ symbol ∈ index.symbols, ∀ reference ∈ symbol.references,
    Halts allowed inv index.Has (resolveReference index reference symbol))

include answers

/-- The search for a cycle visits no name twice, so it ends. -/
theorem reaches_ends (goal : Key) {fuel : Nat} {stack : List Symbol}
    (inside : stack ⊆ index.symbols) {visited : List Key}
    (enough : stack.length + unvisited index visited < fuel) :
    Halts allowed inv (fun _ => True) (reaches index goal fuel stack visited) := by
  induction fuel generalizing stack visited with
  | zero => omega
  | succ fuel ih =>
    cases stack with
    | nil => exact .pure trivial
    | cons symbol stack =>
      obtain ⟨known, insideRest⟩ := List.cons_subset.mp inside
      refine (stepGenerals_ends goal (answers symbol known) insideRest visited).bind
        fun step steps => ?_
      cases step with
      | none => exact .pure trivial
      | some next =>
        obtain ⟨insideAfter, few⟩ := steps next rfl
        rw [List.length_cons] at enough
        exact ih insideAfter (by omega)

theorem isCyclic_ends (known : symbol ∈ index.symbols) :
    Halts allowed inv (fun _ => True) (isCyclic index symbol) := by
  unfold isCyclic
  split
  · refine reaches_ends answers _ (List.cons_subset.mpr ⟨known, List.nil_subset _⟩) ?_
    have most := unvisited_le index []
    rw [List.length_singleton]
    omega
  · exact .pure trivial

variable (imports : ∀ symbol ∈ index.symbols, ∀ i ∈ symbol.imports,
    i.Checks index (some symbol.qualifiedName))

include imports

theorem checkSymbol_ends (path : String) (duplicate : List Nat) (known : symbol ∈ index.symbols) :
    Halts allowed inv (fun _ => True) (checkSymbol index path duplicate symbol) := by
  obtain ⟨named, checked⟩ := checkImports_ends path [] (imports symbol known)
  refine (checkReferences_ends (answers symbol known)).bind fun unresolved _ => ?_
  refine (Halts.lift (p := fun _ => True) checked trivial).bind fun _ _ => ?_
  exact (isCyclic_ends answers known).bind fun cyclic _ => .pure trivial

theorem checkSymbols_ends (path : String) (duplicate : List Nat) {symbols : List Symbol}
    (known : symbols ⊆ index.symbols) :
    Halts allowed inv (fun _ => True) (checkSymbols index path duplicate symbols) := by
  induction symbols with
  | nil => exact .pure trivial
  | cons symbol rest ih =>
    obtain ⟨knownFirst, knownRest⟩ := List.cons_subset.mp known
    exact (checkSymbol_ends answers imports path duplicate knownFirst).bind fun _ _ =>
      (ih knownRest).bind fun _ _ => .pure trivial

theorem checkFiles_ends (duplicate : List Nat) {files : List SourceFile}
    (roots : ∀ file ∈ files, ∀ i ∈ file.imports, i.Checks index none)
    (known : ∀ file ∈ files, file.symbols ⊆ index.symbols) :
    Halts allowed inv (fun _ => True) (checkFiles index duplicate files) := by
  induction files with
  | nil => exact .pure trivial
  | cons file rest ih =>
    have next := ih (fun other member => roots other (List.mem_cons_of_mem _ member))
      fun other member => known other (List.mem_cons_of_mem _ member)
    obtain ⟨found, checked⟩ := checkImports_ends file.path [] (roots file List.mem_cons_self)
    rw [checkFiles]
    split
    · exact next
    · refine (Halts.lift (p := fun _ => True) checked trivial).bind fun _ _ => ?_
      exact (checkSymbols_ends answers imports file.path duplicate (known file List.mem_cons_self)).bind
        fun _ _ => next.bind fun _ _ => .pure trivial

end Checking

section Rebuilding

variable {w : Workspace}
  (indexable : ∀ symbol ∈ w.symbols, isIndexable symbol = true ∧ symbol.name.isProper = true)
  (roots : ∀ file ∈ w.files, ∀ i ∈ file.imports,
    i.Checks (Index.build w.symbols w.rootImports) none)
  (imports : ∀ symbol ∈ w.symbols, ∀ i ∈ symbol.imports,
    i.Checks (Index.build w.symbols w.rootImports) (some symbol.qualifiedName))

include indexable roots imports

/-- Where what symbols refer to has an answer or fails as is allowed, so does the index. -/
theorem rebuild_halts (first : inv []) (answers : ∀ symbol ∈ w.symbols,
    ∀ reference ∈ symbol.references, Halts allowed inv (Index.build w.symbols w.rootImports).Has
      (resolveReference (Index.build w.symbols w.rootImports) reference symbol)) :
    (∃ later, w.rebuild = (.ok (Index.build w.symbols w.rootImports), later)) ∨
      ∃ failure later, w.rebuild = (.error failure, later) ∧ allowed failure := by
  have inside : ∀ file ∈ w.files, file.symbols ⊆ (Index.build w.symbols w.rootImports).symbols :=
    fun file member symbol has => List.mem_flatMap_of_mem member has
  have keys : w.symbols.all isIndexable = true :=
    List.all_eq_true.mpr fun symbol member => (indexable symbol member).1
  have texts : (w.symbols.all fun symbol => symbol.name.isProper) = true :=
    List.all_eq_true.mpr fun symbol member => (indexable symbol member).2
  have halts : Halts allowed inv (fun _ => True) w.checking :=
    checkFiles_ends answers imports (duplicates [] w.symbols) roots inside
  rw [rebuild_eq, keys, texts]
  rcases halts [] first with ⟨findings, memo, ran, _⟩ | ⟨failure, memo, ran, isAllowed⟩
  · rw [ran]
    exact .inl ⟨_, rfl⟩
  · rw [ran]
    exact .inr ⟨failure, _, rfl, isAllowed⟩

/-- Where all that symbols refer to has an answer, the index is built. -/
theorem rebuild_finishes (first : inv []) (answers : ∀ symbol ∈ w.symbols,
    ∀ reference ∈ symbol.references, Finishes inv (Index.build w.symbols w.rootImports).Has
      (resolveReference (Index.build w.symbols w.rootImports) reference symbol)) :
    ∃ later, w.rebuild = (.ok (Index.build w.symbols w.rootImports), later) := by
  rcases rebuild_halts indexable roots imports first answers with built | ⟨_, _, _, never⟩
  · exact built
  · exact never.elim

end Rebuilding

/-- The same where this holds whatever is remembered. -/
theorem rebuild_ends {w : Workspace}
    (indexable : ∀ symbol ∈ w.symbols, isIndexable symbol = true ∧ symbol.name.isProper = true)
    (roots : ∀ file ∈ w.files, ∀ i ∈ file.imports,
      i.Checks (Index.build w.symbols w.rootImports) none)
    (checks : ∀ symbol ∈ w.symbols, symbol.Checks (Index.build w.symbols w.rootImports)) :
    ∃ later, w.rebuild = (.ok (Index.build w.symbols w.rootImports), later) :=
  rebuild_finishes indexable roots (fun symbol known => (checks symbol known).imports)
    (fun _ member => (by cases member)) fun symbol known => (checks symbol known).references

end Workspace

end Sysml

/-!
## Symbols that are bound by ids

Where a document binds all references and imports by ids to symbols of the index, each
of them means the symbol it is bound to, whatever is remembered, so no search is needed to
check them (`Symbol.Bound.checks`).
-/

namespace Sysml

open Scope

/-- All references and imports of a symbol are bound to symbols of the index. -/
structure Symbol.Bound (index : Index) (symbol : Symbol) : Prop where
  references : ∀ reference ∈ symbol.references, ∃ target ∈ index.symbols,
    boundTo index reference.targetId = .ok (some target)
  imports : ∀ i ∈ symbol.imports, ∃ target ∈ index.symbols,
    boundTo index i.targetId = .ok (some target)
  texts : ∀ i ∈ symbol.imports, i.text.isProper = true

section Binding

variable {index : Index} {target : Symbol}

/-- A reference that is bound means what it is bound to. -/
theorem resolveReference_bound {reference : Reference}
    (bound : boundTo index reference.targetId = .ok (some target)) (symbol : Symbol)
    (memo : Memo) :
    outcome (resolveReference index reference symbol) memo = (.ok (some target), memo) := by
  have goal : boundTarget index reference = .ok (some target) := by
    rw [boundTarget, bound]
    rfl
  have found : outcome (liftM (boundTarget index reference) : Search (Option Symbol)) memo =
      (.ok (some target), memo) := by
    rw [outcome_liftM, goal]
  rw [resolveReference, referAt]
  exact outcome_bind_of_ok found

/-- An import that is bound names what it is bound to. -/
theorem resolveImport_bound {i : Import} (bound : boundTo index i.targetId = .ok (some target))
    (scope : Option Key) : resolveImport index i scope = .ok (some target) := by
  unfold resolveImport
  rw [bound]
  rfl

/-- What is bound needs no search. -/
theorem Symbol.Bound.checks {symbol : Symbol} (bound : symbol.Bound index) :
    symbol.Checks index := by
  refine ⟨fun reference has memo inside => ?_, fun i has => ⟨bound.texts i has, ?_⟩⟩
  · obtain ⟨target, known, isBound⟩ := bound.references reference has
    exact .inl ⟨_, memo, resolveReference_bound isBound symbol memo, has_some known, inside⟩
  · obtain ⟨target, _, isBound⟩ := bound.imports i has
    exact ⟨_, resolveImport_bound isBound _⟩

end Binding

end Sysml
