import Sysml.Proofs.Scope.Recasting
import Sysml.Proofs.Workspace.Tidy

/-!
# Checking does not depend on ids and serial numbers

Where symbols change in their ids alone, and in their serial numbers one for one, the same is
found wrong with a workspace, and its index answers with the changed symbols (`rebuild_recast`).
-/

set_option autoImplicit false

namespace Sysml

open Scope

def SourceFile.recast (change : Symbol → Symbol) (file : SourceFile) : SourceFile :=
  { file with symbols := file.symbols.map change }

theorem Scope.Behaves.keeps {α : Type} {index : Index} {active : List Query} {post : α → Prop}
    {run : Search α} (behaves : Behaves index active post run) (memo : Memo)
    (inside : memo.Within index) :
    (outcome run memo).2.Within index ∧ ∀ value, (outcome run memo).1 = .ok value → post value :=
  ⟨behaves.within inside, behaves.answers inside⟩

namespace Workspace

section Files

variable {change : Symbol → Symbol} {w other : Workspace}
  (files : other.files = w.files.map (SourceFile.recast change))

include files

theorem symbols_recast : other.symbols = w.symbols.map change := by
  rw [Workspace.symbols, files, Workspace.symbols, List.flatMap_map, List.map_flatMap]
  rfl

theorem rootImports_recast : other.rootImports = w.rootImports := by
  rw [Workspace.rootImports, files, List.map_map]
  rfl

theorem file?_recast (path : String) :
    other.file? path = (w.file? path).map (SourceFile.recast change) := by
  rw [Workspace.file?, files, List.find?_map]
  rfl

end Files

variable {change : Symbol → Symbol} {index other : Index}

abbrev Repeats {α : Type} (change : Symbol → Symbol) (index : Index) (left right : Search α) :
    Prop :=
  ImagesOn (Memo.Within index) (Memo.recast change) id left right

/-- The symbols of both lists of serial numbers are the same, before and after the change. -/
def DoublesAlike (change : Symbol → Symbol) (one other : List Nat) : Prop :=
  ∀ symbol, other.contains (change symbol).serial = one.contains symbol.serial

/-- The search for a cycle stacks symbols of the index only. -/
theorem stepGenerals_stacked (within : index.IdsWithin) (goal : Key) (symbol : Symbol)
    (references : List Reference) {stack : List Symbol} (inside : stack ⊆ index.symbols)
    (visited : List Key) :
    Behaves index [] (fun step => ∀ next, step = some next → next.1 ⊆ index.symbols)
      (stepGenerals index goal symbol references stack visited) := by
  induction references generalizing stack visited with
  | nil =>
    refine .pure ?_
    rintro next ⟨⟩
    exact inside
  | cons reference rest ih =>
    simp only [stepGenerals]
    split
    · refine (resolveReference_behaves within reference symbol).bind fun found has => ?_
      cases found with
      | none => exact ih inside visited
      | some target =>
        dsimp only
        split
        · exact .pure fun next none_ => (by cases none_)
        · split
          · exact ih inside visited
          · exact ih (List.cons_subset.mpr ⟨has target rfl, inside⟩) _
    · exact ih inside visited

section Changed

variable (recast : Recast change index other)

include recast

theorem checkImports_recast (path : String) (scope : Option Key) (seen : List Key)
    {imports again : List Import}
    (alike : List.Forall₂ (ImportsAlike change index other) imports again) :
    checkImports other path scope seen again = checkImports index path scope seen imports := by
  induction alike generalizing seen with
  | nil => rfl
  | @cons i later rest others first _ ih =>
    have text : later.text = i.text := (congrArg Import.text first.1 :)
    have span : later.span = i.span := (congrArg Import.span first.1 :)
    simp only [checkImports, recast.resolveImport first, ih, text, span]
    cases i.text.proper with
    | error failure => rfl
    | ok text =>
      cases resolveImport index i scope with
      | error failure => rfl
      | ok found => cases found <;> rfl

theorem checkReferences_recast (within : index.IdsWithin) (symbol : Symbol)
    {references again : List Reference}
    (alike : List.Forall₂ (RefersAlike change index other) references again) :
    Repeats change index (checkReferences index symbol references)
      (checkReferences other (change symbol) again) := by
  induction alike with
  | nil => exact (Images.pure []).on
  | @cons reference later rest others first _ ih =>
    have targetId : later.targetId = reference.targetId := (congrArg Reference.targetId first.1 :)
    have target : later.target = reference.target := (congrArg Reference.target first.1 :)
    have kind : later.kind = reference.kind := (congrArg Reference.kind first.1 :)
    have span : later.span = reference.span := (congrArg Reference.span first.1 :)
    simp only [checkReferences, targetId, target, kind, span, recast.recasts.file]
    split
    · refine ImagesOn.bind (resolveReference_recast recast first symbol).on
        (resolveReference_behaves within reference symbol).keeps fun found _ => ?_
      refine ih.bind (checkReferences_behaves within symbol rest).keeps fun findings _ => ?_
      cases found with
      | none => exact (Images.pure _).on
      | some found => exact (Images.pure findings).on
    · exact ih

abbrev StepsAlike (change : Symbol → Symbol) (index : Index)
    (left right : Search (Option (List Symbol × List Key))) : Prop :=
  ImagesOn (Memo.Within index) (Memo.recast change)
    (Option.map (Prod.map (List.map change) id)) left right

theorem stepGenerals_recast (within : index.IdsWithin) (goal : Key) (symbol : Symbol)
    {references again : List Reference}
    (alike : List.Forall₂ (RefersAlike change index other) references again) (stack : List Symbol)
    (visited : List Key) :
    StepsAlike change index (stepGenerals index goal symbol references stack visited)
      (stepGenerals other goal (change symbol) again (stack.map change) visited) := by
  induction alike generalizing stack visited with
  | nil => exact (Images.pure (some (stack, visited))).on
  | @cons reference later rest others first _ ih =>
    have kind : later.kind = reference.kind := (congrArg Reference.kind first.1 :)
    simp only [stepGenerals, kind]
    split
    · refine ImagesOn.bind (resolveReference_recast recast first symbol).on
        (resolveReference_behaves within reference symbol).keeps fun found _ => ?_
      cases found with
      | none => exact ih stack visited
      | some target =>
        dsimp only [Option.map_some]
        rw [recast.recasts.qualifiedName]
        split
        · exact (Images.pure none).on
        · split
          · exact ih stack visited
          · exact ih (target :: stack) (target.qualifiedName :: visited)
    · exact ih stack visited

theorem reaches_recast (within : index.IdsWithin) (goal : Key) (fuel : Nat) {stack : List Symbol}
    (inside : stack ⊆ index.symbols) (visited : List Key) :
    Repeats change index (reaches index goal fuel stack visited)
      (reaches other goal fuel (stack.map change) visited) := by
  induction fuel generalizing stack visited with
  | zero => exact (Images.throw _).on
  | succ fuel ih =>
    cases stack with
    | nil => exact (Images.pure false).on
    | cons symbol stack =>
      obtain ⟨known, others⟩ := List.cons_subset.mp inside
      have alike := (recast.bound symbol known).refersAlike recast.recasts
      refine (stepGenerals_recast recast within goal symbol alike stack visited).bind
        (stepGenerals_stacked within goal symbol symbol.references others visited).keeps
        fun step stacked => ?_
      cases step with
      | none => exact (Images.pure true).on
      | some next => exact ih (stacked next rfl) next.2

theorem isCyclic_recast (within : index.IdsWithin) {symbol : Symbol}
    (known : symbol ∈ index.symbols) :
    Repeats change index (isCyclic index symbol) (isCyclic other (change symbol)) := by
  unfold isCyclic
  rw [recast.recasts.kind]
  split
  · unfold inCycle
    rw [recast.size, recast.recasts.qualifiedName]
    exact reaches_recast recast within symbol.qualifiedName _
      (List.cons_subset.mpr ⟨known, List.nil_subset _⟩) []
  · exact (Images.pure false).on

theorem checkSymbol_recast (within : index.IdsWithin) (path : String) {one two : List Nat}
    (doubled : DoublesAlike change one two) {symbol : Symbol} (known : symbol ∈ index.symbols) :
    Repeats change index (checkSymbol index path one symbol)
      (checkSymbol other path two (change symbol)) := by
  have bound := recast.bound symbol known
  have recasts := recast.recasts
  have doubles : doubledFindings two (change symbol) = doubledFindings one symbol := by
    rw [doubledFindings, doubled symbol, recasts.file, recasts.span, recasts.name, recasts.owner]
    rfl
  have cycles (cyclic : Bool) :
      cycleFindings (change symbol) cyclic = cycleFindings symbol cyclic := by
    rw [cycleFindings, recasts.file, recasts.span, recasts.qualifiedName]
    rfl
  have untyped : untypedFindings (change symbol) = untypedFindings symbol := by
    have typings : (change symbol).references.any (fun r => r.kind == .typing) =
        symbol.references.any (fun r => r.kind == .typing) := by
      have same := congrArg (fun symbol : Symbol => symbol.references.any fun r => r.kind == .typing)
        (recasts.bare symbol)
      simp only [Symbol.bare, List.any_map] at same
      exact same
    rw [untypedFindings, typings, recasts.kind, recasts.file, recasts.span, recasts.name]
    rfl
  unfold checkSymbol
  rw [doubles, untyped, recasts.qualifiedName]
  refine (checkReferences_recast recast within symbol (bound.refersAlike recasts)).bind
    (checkReferences_behaves within symbol symbol.references).keeps fun unresolved _ => ?_
  rw [checkImports_recast recast path _ [] (bound.importsAlike recasts)]
  refine ImagesOn.bind (Images.same _).on
    (Behaves.keeps ((Behaves.simulation index []).liftAny _)) fun imports _ => ?_
  refine (isCyclic_recast recast within known).bind (isCyclic_behaves within symbol).keeps
    fun cyclic _ => ?_
  rw [id, cycles]
  exact (Images.pure _).on

theorem checkSymbols_recast (within : index.IdsWithin) (path : String) {one two : List Nat}
    (doubled : DoublesAlike change one two) {symbols : List Symbol}
    (inside : symbols ⊆ index.symbols) :
    Repeats change index (checkSymbols index path one symbols)
      (checkSymbols other path two (symbols.map change)) := by
  induction symbols with
  | nil => exact (Images.pure []).on
  | cons symbol rest ih =>
    obtain ⟨known, others⟩ := List.cons_subset.mp inside
    refine (checkSymbol_recast recast within path doubled known).bind
      (checkSymbol_behaves within path one symbol).keeps fun found _ => ?_
    refine (ih others).bind (checkSymbols_behaves within path one rest).keeps fun findings _ => ?_
    exact (Images.pure _).on

theorem checkFiles_recast (within : index.IdsWithin) {one two : List Nat}
    (doubled : DoublesAlike change one two) {files : List SourceFile}
    (inside : ∀ file ∈ files, file.symbols ⊆ index.symbols)
    (roots : ∀ file ∈ files, ∀ i ∈ file.imports, BindsAlike change index other i.targetId) :
    Repeats change index (checkFiles index one files)
      (checkFiles other two (files.map (SourceFile.recast change))) := by
  induction files with
  | nil => exact (Images.pure []).on
  | cons file rest ih =>
    obtain ⟨known, others⟩ := List.forall_mem_cons.mp inside
    obtain ⟨bound, bounds⟩ := List.forall_mem_cons.mp roots
    have alike : List.Forall₂ (ImportsAlike change index other) file.imports file.imports :=
      List.forall₂_same.mpr fun i listed => ⟨rfl, bound i listed⟩
    rw [List.map_cons]
    change Repeats change index (if file.isLibrary then _ else _) (if file.isLibrary then _ else _)
    split
    · exact ih others bounds
    · have found := checkSymbols_recast recast within file.path doubled known
      change Repeats change index _
        (liftM (checkImports other file.path none [] file.imports) >>= fun imports => _)
      rw [checkImports_recast recast file.path none [] alike]
      refine ImagesOn.bind (Images.same _).on
        (Behaves.keeps ((Behaves.simulation index []).liftAny _)) fun imports _ => ?_
      refine found.bind (checkSymbols_behaves within file.path one file.symbols).keeps
        fun symbols _ => ?_
      refine (ih others bounds).bind (checkFiles_behaves within one rest).keeps fun findings _ => ?_
      exact (Images.pure _).on

end Changed

/-- The same symbols are told to have the name of an earlier sibling. -/
theorem duplicates_recast (recasts : Recasts change) (seen : List ((Option Key × Key) × Symbol))
    (symbols : List Symbol) :
    ∃ doubled : List Symbol, duplicates seen symbols = doubled.map (·.serial) ∧
      duplicates (seen.map fun entry => (entry.1, change entry.2)) (symbols.map change) =
        doubled.map fun symbol => (change symbol).serial := by
  induction symbols generalizing seen with
  | nil => exact ⟨[], rfl, rfl⟩
  | cons symbol rest ih =>
    have looked (key : Option Key × Key) :
        (seen.map fun entry => (entry.1, change entry.2)).lookup key =
          (seen.lookup key).map change := by
      clear ih
      induction seen with
      | nil => rfl
      | cons entry others more =>
        rw [List.map_cons, List.lookup_cons, List.lookup_cons, more]
        split <;> rfl
    rw [List.map_cons, duplicates, duplicates, looked, recasts.owner, recasts.name]
    cases seen.lookup (symbol.owner, symbol.name) with
    | none =>
      have grown := ih (seen ++ [((symbol.owner, symbol.name), symbol)])
      rw [List.map_append] at grown
      exact grown
    | some first =>
      dsimp only [Option.map_some]
      rw [recasts.kind, recasts.kind]
      split
      · exact ih seen
      · obtain ⟨doubled, one, two⟩ := ih seen
        exact ⟨symbol :: doubled, by rw [one, List.map_cons], by rw [two, List.map_cons]⟩

theorem doublesAlike_duplicates (recasts : Recasts change) (symbols : List Symbol) :
    DoublesAlike change (duplicates [] symbols) (duplicates [] (symbols.map change)) := by
  obtain ⟨doubled, one, two⟩ := duplicates_recast recasts [] symbols
  intro symbol
  rw [one]
  refine (congrArg (fun found => List.contains found _) two).trans ?_
  rw [Bool.eq_iff_iff, List.contains_iff_mem, List.contains_iff_mem, List.mem_map, List.mem_map]
  simp only [recasts.serial]

/-- Building the index over changed symbols gives the same findings, or fails alike. -/
theorem rebuild_recast {w other : Workspace}
    (recast : Recast change (Index.build w.symbols w.rootImports)
      (Index.build other.symbols other.rootImports))
    (files : other.files = w.files.map (SourceFile.recast change))
    (indexable : other.symbols.all isIndexable = w.symbols.all isIndexable) :
    (∀ index later, w.rebuild = (.ok index, later) →
      other.rebuild = (.ok (Index.build other.symbols other.rootImports),
        { other.reindexed with memo := later.memo.recast change, findings := later.findings })) ∧
      ∀ failure, w.rebuild.1 = .error failure → other.rebuild.1 = .error failure := by
  have symbols : other.symbols = w.symbols.map change := recast.symbols
  have proper : (other.symbols.all fun symbol => symbol.name.isProper) =
      w.symbols.all fun symbol => symbol.name.isProper := by
    rw [symbols, List.all_map]
    refine congrArg w.symbols.all (funext fun symbol => ?_)
    rw [Function.comp_apply, recast.recasts.name]
  have checks : outcome other.checking [] =
      ((outcome w.checking []).1, (outcome w.checking []).2.recast change) := by
    have doubled := doublesAlike_duplicates recast.recasts w.symbols
    rw [← symbols] at doubled
    have checked := checkFiles_recast recast (Index.build_idsWithin _ _) doubled
      (fun file member symbol has => List.mem_flatMap_of_mem member has)
      (fun file member => recast.roots _ (List.mem_map_of_mem member)) [] fun _ has => (by cases has)
    rw [← files, Except.map_id] at checked
    exact checked
  rw [rebuild_eq, rebuild_eq, indexable, proper, checks]
  split
  · exact ⟨fun _ _ built => (by cases built), fun _ failed => failed⟩
  · split
    · exact ⟨fun _ _ built => (by cases built), fun _ failed => failed⟩
    · rcases outcome w.checking [] with ⟨failure | findings, memo⟩
      · exact ⟨fun _ _ built => (by cases built), fun _ failed => failed⟩
      · refine ⟨fun index later built => ?_, fun _ failed => (by cases failed)⟩
        cases built
        rfl

end Workspace

end Sysml
