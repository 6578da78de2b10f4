import Sysml.Proofs.Related
import Sysml.Proofs.Workspace.Tidy

/-!
# What the checks find

Of a file that was checked, the findings about references are exactly those about
the references that mean nothing, and the findings about unresolved imports are
exactly those about the imports that name nothing. The references mean the same
ever after, because what was found for them is remembered.
-/

set_option autoImplicit false

namespace Sysml

open Scope

/-- What a reference means to an index that remembers some answers; nothing where
the search fails. -/
def Scope.meaning (index : Index) (memo : Memo) (symbol : Symbol) (reference : Reference) :
    Option Symbol :=
  (outcome (resolveReference index reference symbol) memo).1.toOption.join

/-- What an import names, as seen from a namespace; nothing where that fails. -/
def Scope.naming (index : Index) (scope : Option Key) (i : Import) : Option Symbol :=
  (resolveImport index i scope).toOption.join

namespace Finding

def isUnresolved : Finding → Bool
  | .unresolved _ _ => true
  | _ => false

def isUnresolvedImport : Finding → Bool
  | .unresolvedImport _ => true
  | _ => false

theorem code_unresolved (finding : Finding) :
    finding.code ∈ ["E0101", "E0102", "E0103"] ↔ finding.isUnresolved = true := by
  cases finding with
  | unresolved kind target => cases kind <;> simp [code, isUnresolved]
  | _ => simp [code, isUnresolved]

theorem code_unresolvedImport (finding : Finding) :
    finding.code = "W0301" ↔ finding.isUnresolvedImport = true := by
  cases finding with
  | unresolved kind target => cases kind <;> simp [code, isUnresolvedImport]
  | _ => simp [code, isUnresolvedImport]

end Finding

namespace Workspace

def missing (index : Index) (memo : Memo) (symbol : Symbol) (reference : Reference) :
    Option Diagnostic :=
  if (meaning index memo symbol reference).isSome then none
  else
    some ⟨symbol.file, reference.span,
      .unresolved reference.kind reference.target.display⟩

def missingImport (index : Index) (path : String) (scope : Option Key) (i : Import) :
    Option Diagnostic :=
  if (naming index scope i).isSome then none
  else some ⟨path, i.span, .unresolvedImport i.text.display⟩

def aboutReferences (found : List Diagnostic) : List Diagnostic :=
  found.filter (·.finding.isUnresolved)

def aboutImports (found : List Diagnostic) : List Diagnostic :=
  found.filter (·.finding.isUnresolvedImport)

@[simp] theorem aboutReferences_append (left right : List Diagnostic) :
    aboutReferences (left ++ right) = aboutReferences left ++ aboutReferences right :=
  List.filter_append ..

@[simp] theorem aboutImports_append (left right : List Diagnostic) :
    aboutImports (left ++ right) = aboutImports left ++ aboutImports right :=
  List.filter_append ..

/-- No reference of a symbol is bound by a document. -/
def Unbound (symbol : Symbol) : Prop :=
  ∀ reference ∈ symbol.references, Key.given? reference.targetId = none

section Imports

variable {index : Index} {path : String} {scope : Option Key}

theorem checkImports_ok {seen : List Key} {imports : List Import} {found : List Diagnostic}
    (ran : checkImports index path scope seen imports = .ok found) :
    (∀ i ∈ imports, resolveImport index i scope = .ok (naming index scope i)) ∧
      aboutImports found = imports.filterMap (missingImport index path scope) ∧
      aboutReferences found = [] := by
  induction imports generalizing seen found with
  | nil =>
    cases ran
    exact ⟨fun _ member => (by cases member), rfl, rfl⟩
  | cons i rest ih =>
    obtain ⟨text, proper, ran⟩ := result_bind_ok ran
    obtain ⟨named, resolved, ran⟩ := result_bind_ok ran
    obtain ⟨others, checked, same⟩ := result_bind_ok ran
    have isNamed : naming index scope i = named := by rw [naming, resolved]; rfl
    have isText : text = i.text := by
      unfold Key.proper at proper
      split at proper <;> cases proper
      rfl
    obtain ⟨resolves, about, none_⟩ := ih checked
    cases same
    have twice : aboutImports (if seen.contains text = true then
          [⟨path, i.span, .duplicateImport text.display⟩] else []) = [] ∧
        aboutReferences (if seen.contains text = true then
          [⟨path, i.span, .duplicateImport text.display⟩] else []) = [] := by
      split <;> exact ⟨rfl, rfl⟩
    refine ⟨?_, ?_, ?_⟩
    · intro other member
      rcases List.mem_cons.mp member with rfl | later
      · rw [isNamed]
        exact resolved
      · exact resolves other later
    · rw [aboutImports_append, aboutImports_append, twice.1, about, List.filterMap_cons,
        missingImport, isNamed, isText]
      cases named <;> rfl
    · rw [aboutReferences_append, aboutReferences_append, twice.2, none_]
      cases named <;> rfl

end Imports

section Telling

variable {index : Index}

/-- The references and imports of some symbols all have an answer, and the findings
tell which of them have none for a target. -/
structure Tells (index : Index) (memo : Memo) (path : String) (symbols : List Symbol)
    (found : List Diagnostic) : Prop where
  references : ∀ symbol ∈ symbols, ∀ reference ∈ symbol.references,
    outcome (resolveReference index reference symbol) memo =
      (.ok (meaning index memo symbol reference), memo)
  imports : ∀ symbol ∈ symbols, ∀ i ∈ symbol.imports,
    resolveImport index i (some symbol.qualifiedName) =
      .ok (naming index (some symbol.qualifiedName) i)
  missing : aboutReferences found =
    symbols.flatMap fun symbol => symbol.references.filterMap (missing index memo symbol)
  missingImports : aboutImports found =
    symbols.flatMap fun symbol =>
      symbol.imports.filterMap (missingImport index path (some symbol.qualifiedName))

theorem aboutImports_missing (index : Index) (memo : Memo) (symbol : Symbol)
    (references : List Reference) :
    aboutImports (references.filterMap (missing index memo symbol)) = [] := by
  refine List.filter_eq_nil_iff.mpr fun diagnostic member => ?_
  obtain ⟨reference, _, same⟩ := List.mem_filterMap.mp member
  unfold missing at same
  split at same
  · cases same
  · cases same
    simp [Finding.isUnresolvedImport]

theorem aboutReferences_missing (index : Index) (memo : Memo) (symbol : Symbol)
    (references : List Reference) :
    aboutReferences (references.filterMap (missing index memo symbol)) =
      references.filterMap (missing index memo symbol) := by
  refine List.filter_eq_self.mpr fun diagnostic member => ?_
  obtain ⟨reference, _, same⟩ := List.mem_filterMap.mp member
  unfold missing at same
  split at same
  · cases same
  · cases same
    rfl

theorem Tells.append {memo : Memo} {path : String} {left right : List Symbol}
    {found others : List Diagnostic} (first : Tells index memo path left found)
    (second : Tells index memo path right others) :
    Tells index memo path (left ++ right) (found ++ others) := by
  refine ⟨?_, ?_, ?_, ?_⟩
  · intro symbol member
    rcases List.mem_append.mp member with here | there
    · exact first.references symbol here
    · exact second.references symbol there
  · intro symbol member
    rcases List.mem_append.mp member with here | there
    · exact first.imports symbol here
    · exact second.imports symbol there
  · rw [aboutReferences_append, first.missing, second.missing, List.flatMap_append]
  · rw [aboutImports_append, first.missingImports, second.missingImports, List.flatMap_append]

end Telling

section References

variable {index : Index} (within : index.IdsWithin)

include within

/-- What a reference was found to mean it means wherever that is remembered. -/
theorem meaning_settled {symbol : Symbol} {reference : Reference} {memo later other : Memo}
    {meant : Option Symbol} (inside : memo.Within index)
    (ran : outcome (resolveReference index reference symbol) memo = (.ok meant, later))
    (known : later.Known other) :
    outcome (resolveReference index reference symbol) other =
        (.ok (meaning index other symbol reference), other) ∧
      meaning index other symbol reference = meant := by
  have again := (resolveReference_settles within reference symbol).again inside ran known
  have same : meaning index other symbol reference = meant := by rw [meaning, again]; rfl
  rw [same]
  exact ⟨again, rfl⟩

theorem checkReferences_ok {symbol : Symbol} {references : List Reference} {memo later : Memo}
    {found : List Diagnostic} (inside : memo.Within index)
    (unbound : ∀ reference ∈ references, Key.given? reference.targetId = none)
    (ran : outcome (checkReferences index symbol references) memo = (.ok found, later))
    {other : Memo} (known : later.Known other) :
    (∀ reference ∈ references, outcome (resolveReference index reference symbol) other =
      (.ok (meaning index other symbol reference), other)) ∧
      found = references.filterMap (missing index other symbol) := by
  induction references generalizing memo found with
  | nil =>
    cases ran
    exact ⟨fun _ member => (by cases member), rfl⟩
  | cons reference rest ih =>
    simp only [checkReferences, unbound reference List.mem_cons_self, Option.isNone_none,
      ↓reduceIte] at ran
    obtain ⟨meant, between, first, ran⟩ := outcome_bind_ok ran
    obtain ⟨others, last, checked, ran⟩ := outcome_bind_ok ran
    have lastSame : last = later := by
      split at ran <;> exact (Prod.mk.inj ran).2
    subst lastSame
    have insideBetween : between.Within index := by
      simpa [first] using (resolveReference_behaves within reference symbol).within inside
    have grows : between.Known last := by
      simpa [checked] using ((checkReferences_behaves within symbol rest).grows insideBetween).known
    obtain ⟨resolves, isMeant⟩ := meaning_settled within inside first
      (fun query answer was => known query answer (grows query answer was))
    obtain ⟨resolvesRest, same⟩ :=
      ih insideBetween (fun other member => unbound other (List.mem_cons_of_mem _ member)) checked
    refine ⟨?_, ?_⟩
    · intro asked member
      rcases List.mem_cons.mp member with rfl | later
      · exact resolves
      · exact resolvesRest asked later
    · rw [List.filterMap_cons, missing, isMeant, ← same]
      cases meant with
      | some target =>
        cases ran
        rfl
      | none =>
        cases ran
        rfl

theorem checkSymbol_tells {path : String} {duplicate : List Nat} {symbol : Symbol}
    {memo later : Memo} {found : List Diagnostic} (inside : memo.Within index)
    (unbound : Unbound symbol)
    (ran : outcome (checkSymbol index path duplicate symbol) memo = (.ok found, later))
    {other : Memo} (known : later.Known other) :
    Tells index other path [symbol] found := by
  obtain ⟨unresolved, between, first, ran⟩ := outcome_bind_ok ran
  obtain ⟨imports, middle, second, ran⟩ := outcome_bind_ok ran
  obtain ⟨cyclic, last, third, ran⟩ := outcome_bind_ok ran
  cases ran
  have second := (outcome_liftM _ _).symm.trans second
  cases checked : checkImports index path (some symbol.qualifiedName) [] symbol.imports with
  | error failure => rw [checked] at second; cases second
  | ok named =>
    rw [checked] at second
    cases second
    have insideBetween : between.Within index := by
      simpa [first] using
        (checkReferences_behaves within symbol symbol.references).within inside
    have grows : between.Known later := by
      simpa [third] using ((isCyclic_behaves within symbol).grows insideBetween).known
    obtain ⟨resolves, isMissing⟩ := checkReferences_ok within inside unbound first
      (fun query answer was => known query answer (grows query answer was))
    obtain ⟨names, isNamed, noReference⟩ := checkImports_ok checked
    have doubled : aboutReferences (doubledFindings duplicate symbol) = [] ∧
        aboutImports (doubledFindings duplicate symbol) = [] := by
      unfold doubledFindings
      split <;> exact ⟨rfl, rfl⟩
    have cycle : aboutReferences (cycleFindings symbol cyclic) = [] ∧
        aboutImports (cycleFindings symbol cyclic) = [] := by
      unfold cycleFindings
      split <;> exact ⟨rfl, rfl⟩
    have untyped : aboutReferences (untypedFindings symbol) = [] ∧
        aboutImports (untypedFindings symbol) = [] := by
      unfold untypedFindings
      split <;> exact ⟨rfl, rfl⟩
    refine ⟨?_, ?_, ?_, ?_⟩
    · intro one member
      cases List.mem_singleton.mp member
      exact resolves
    · intro one member
      cases List.mem_singleton.mp member
      exact names
    · simp only [aboutReferences_append, doubled, cycle, untyped, noReference, isMissing,
        aboutReferences_missing, List.nil_append, List.append_nil, List.flatMap_cons, List.flatMap_nil]
    · simp only [aboutImports_append, doubled, cycle, untyped, isNamed, isMissing,
        aboutImports_missing, List.nil_append, List.append_nil, List.flatMap_cons, List.flatMap_nil]

theorem checkSymbols_tells {path : String} {duplicate : List Nat} {symbols : List Symbol}
    {memo later : Memo} {found : List Diagnostic} (inside : memo.Within index)
    (unbound : ∀ symbol ∈ symbols, Unbound symbol)
    (ran : outcome (checkSymbols index path duplicate symbols) memo = (.ok found, later))
    {other : Memo} (known : later.Known other) :
    Tells index other path symbols found := by
  induction symbols generalizing memo found with
  | nil =>
    cases ran
    exact ⟨fun _ member => (by cases member), fun _ member => (by cases member), rfl, rfl⟩
  | cons symbol rest ih =>
    obtain ⟨here, between, first, ran⟩ := outcome_bind_ok ran
    obtain ⟨others, last, second, ran⟩ := outcome_bind_ok ran
    cases ran
    have insideBetween : between.Within index := by
      simpa [first] using (checkSymbol_behaves within path duplicate symbol).within inside
    have grows : between.Known later := by
      simpa [second] using
        ((checkSymbols_behaves within path duplicate rest).grows insideBetween).known
    have told := checkSymbol_tells within inside (unbound symbol List.mem_cons_self) first
      (fun query answer was => known query answer (grows query answer was))
    exact told.append (ih insideBetween
      (fun other member => unbound other (List.mem_cons_of_mem _ member)) second)

/-- The findings of a file tell of its imports outside of any declaration and of
its symbols. -/
structure TellsFile (index : Index) (memo : Memo) (file : SourceFile)
    (found : List Diagnostic) : Prop where
  roots : ∀ i ∈ file.imports, resolveImport index i none = .ok (naming index none i)
  symbols : ∃ outer inner, found = outer ++ inner ∧
    aboutReferences outer = [] ∧
    aboutImports outer = file.imports.filterMap (missingImport index file.path none) ∧
    Tells index memo file.path file.symbols inner

theorem checkFiles_tells {duplicate : List Nat} {files : List SourceFile} {memo later : Memo}
    {found : List (String × List Diagnostic)} (inside : memo.Within index)
    (unbound : ∀ file ∈ files, ∀ symbol ∈ file.symbols, Unbound symbol)
    (ran : outcome (checkFiles index duplicate files) memo = (.ok found, later))
    {other : Memo} (known : later.Known other) :
    List.Forall₂ (fun file entry => entry.1 = file.path ∧ TellsFile index other file entry.2)
      (files.filter fun file => !file.isLibrary) found := by
  induction files generalizing memo found with
  | nil =>
    cases ran
    exact .nil
  | cons file rest ih =>
    have unboundRest : ∀ file ∈ rest, ∀ symbol ∈ file.symbols, Unbound symbol :=
      fun file member => unbound file (List.mem_cons_of_mem _ member)
    simp only [checkFiles] at ran
    split at ran
    · next library =>
      simp only [List.filter_cons, library, Bool.not_true, Bool.false_eq_true, ↓reduceIte]
      exact ih inside unboundRest ran
    · next user =>
      simp only [List.filter_cons, user, Bool.not_false, ↓reduceIte]
      obtain ⟨outer, middle, zeroth, ran⟩ := outcome_bind_ok ran
      have zeroth := (outcome_liftM _ _).symm.trans zeroth
      cases checked : checkImports index file.path none [] file.imports with
      | error failure => rw [checked] at zeroth; cases zeroth
      | ok named =>
        rw [checked] at zeroth
        cases zeroth
        obtain ⟨inner, between, first, ran⟩ := outcome_bind_ok ran
        obtain ⟨others, last, second, ran⟩ := outcome_bind_ok ran
        cases ran
        have insideBetween : between.Within index := by
          simpa [first] using
            (checkSymbols_behaves within file.path duplicate file.symbols).within inside
        have grows : between.Known later := by
          simpa [second] using ((checkFiles_behaves within duplicate rest).grows insideBetween).known
        have told := checkSymbols_tells within inside (unbound file List.mem_cons_self) first
          (fun query answer was => known query answer (grows query answer was))
        obtain ⟨names, isNamed, noReference⟩ := checkImports_ok checked
        exact .cons ⟨rfl, names, outer, inner, rfl, noReference, isNamed, told⟩
          (ih insideBetween unboundRest second)

end References

end Workspace

end Sysml

/-!
## Siblings of one name

A declaration whose name an earlier sibling has is reported, unless both are packages. So where
nothing is reported, only packages share their name with a sibling (`duplicates_apart`).
-/

namespace Sysml

open Scope

/-- Symbols with one owner and one name, of which only packages may be. -/
def Symbol.Apart (one other : Symbol) : Prop :=
  one.owner = other.owner → one.name = other.name →
    one.kind.isPackage = true ∧ other.kind.isPackage = true

instance : Std.Symm Symbol.Apart where
  symm _ _ apart owners names := (apart owners.symm names.symm).symm

namespace Workspace

/-- Where no symbol is a duplicate, only packages share their name with an earlier sibling, and
with the first one that was seen before. -/
theorem duplicates_apart {seen : List ((Option Key × Key) × Symbol)} {symbols : List Symbol}
    (none_ : ∀ symbol ∈ symbols, symbol.serial ∉ duplicates seen symbols) :
    (∀ symbol ∈ symbols, ∀ first, seen.lookup (symbol.owner, symbol.name) = some first →
      first.kind.isPackage = true ∧ symbol.kind.isPackage = true) ∧
    symbols.Pairwise Symbol.Apart := by
  induction symbols generalizing seen with
  | nil => exact ⟨fun _ member => (by cases member), .nil⟩
  | cons symbol rest ih =>
    rw [List.forall_mem_cons, List.pairwise_cons]
    cases looked : seen.lookup (symbol.owner, symbol.name) with
    | none =>
      have added : (seen ++ [((symbol.owner, symbol.name), symbol)]).lookup
          (symbol.owner, symbol.name) = some symbol := by
        rw [List.lookup_append, looked, List.lookup_cons_self, Option.none_or]
      simp only [duplicates, looked] at none_
      obtain ⟨before, apart⟩ := ih fun other member => none_ other (List.mem_cons_of_mem _ member)
      refine ⟨⟨fun first same => (by cases same), fun other member first same => ?_⟩,
        fun other member sameOwner sameName => ?_, apart⟩
      · exact before other member first (by rw [List.lookup_append, same, Option.some_or])
      · exact before other member symbol (by rw [← sameOwner, ← sameName, added])
    | some first =>
      simp only [duplicates, looked] at none_
      split at none_
      · next packages =>
        rw [Bool.and_eq_true] at packages
        obtain ⟨before, apart⟩ := ih fun other member => none_ other (List.mem_cons_of_mem _ member)
        refine ⟨⟨fun _ same => ?_, before⟩, fun other member sameOwner sameName => ?_, apart⟩
        · cases same
          exact packages
        · exact ⟨packages.2, (before other member first (by rw [← sameOwner, ← sameName, looked])).2⟩
      · exact absurd List.mem_cons_self (none_ symbol List.mem_cons_self)

def ReportsDoubled (duplicate : List Nat) (symbols : List Symbol) (found : List Diagnostic) : Prop :=
  ∀ symbol ∈ symbols, doubledFindings duplicate symbol ⊆ found

theorem checkSymbols_doubled {index : Index} {path : String} {duplicate : List Nat}
    {symbols : List Symbol} {memo later : Memo} {found : List Diagnostic}
    (ran : outcome (checkSymbols index path duplicate symbols) memo = (.ok found, later)) :
    ReportsDoubled duplicate symbols found := by
  induction symbols generalizing memo found with
  | nil => exact fun _ member => (by cases member)
  | cons symbol rest ih =>
    obtain ⟨here, between, first, ran⟩ := outcome_bind_ok ran
    obtain ⟨others, last, second, ran⟩ := outcome_bind_ok ran
    cases ran
    obtain ⟨unresolved, _, _, first⟩ := outcome_bind_ok first
    obtain ⟨imports, _, _, first⟩ := outcome_bind_ok first
    obtain ⟨cyclic, _, _, first⟩ := outcome_bind_ok first
    cases first
    refine List.forall_mem_cons.mpr ⟨fun diagnostic doubled => ?_, fun other member =>
      List.Subset.trans (ih second other member) (List.subset_append_right _ _)⟩
    simp [doubled]

/-- A duplicate in a file that is no library is reported for the file. -/
theorem checkFiles_doubled {index : Index} {duplicate : List Nat} {files : List SourceFile}
    {memo later : Memo} {found : List (String × List Diagnostic)}
    (ran : outcome (checkFiles index duplicate files) memo = (.ok found, later)) :
    List.Forall₂ (fun file entry =>
        entry.1 = file.path ∧ ReportsDoubled duplicate file.symbols entry.2)
      (files.filter fun file => !file.isLibrary) found := by
  induction files generalizing memo found with
  | nil =>
    cases ran
    exact .nil
  | cons file rest ih =>
    simp only [checkFiles] at ran
    split at ran
    · next library =>
      simp only [List.filter_cons, library, Bool.not_true, Bool.false_eq_true, ↓reduceIte]
      exact ih ran
    · next user =>
      simp only [List.filter_cons, user, Bool.not_false, ↓reduceIte]
      obtain ⟨imports, _, _, ran⟩ := outcome_bind_ok ran
      obtain ⟨symbols, _, first, ran⟩ := outcome_bind_ok ran
      obtain ⟨others, _, second, ran⟩ := outcome_bind_ok ran
      cases ran
      exact .cons ⟨rfl, fun symbol member => List.Subset.trans (checkSymbols_doubled first symbol member)
        (List.subset_append_right _ _)⟩ (ih second)

end Workspace

end Sysml
