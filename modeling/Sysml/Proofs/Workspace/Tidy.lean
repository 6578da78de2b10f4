import Mathlib.Data.List.Flatten
import Mathlib.Data.List.Nodup
import Sysml.Proofs.Notation.Written
import Sysml.Proofs.Scope.Memo
import Sysml.Workspace.Checks
import Sysml.Workspace.Pins

/-!
# Tidy workspaces

In a workspace no two files share a path and no two symbols a serial number, and
a library file has library symbols only. Loading and pinning keep it so, and an
index that is current stays current under pins. Checks only add to the memo of searches
(`checkFiles_related`).
-/

set_option autoImplicit false

/-! ## What the checks do to the memo

The checks put searches for references one after the other and do nothing else. So a relation
between searches that sequencing keeps, and that holds where references are resolved, holds of
the checks (`checkFiles_related`): they only add to the memo, and only symbols of the index. -/

namespace Sysml.Workspace

open Scope

section Related

variable {index : Index} (sim : Simulation) (refers : ∀ reference symbol,
  sim.related index.Has (resolveReference index reference symbol)
    (resolveReference index reference symbol))

include refers

theorem checkReferences_related (symbol : Symbol) (references : List Reference) :
    sim.related (fun _ => True) (checkReferences index symbol references)
      (checkReferences index symbol references) := by
  induction references with
  | nil => exact sim.pure trivial
  | cons reference rest ih =>
    simp only [checkReferences]
    split
    · refine sim.bind (refers reference symbol) fun found _ => ?_
      refine sim.bind ih fun others _ => ?_
      split
      · exact sim.pure trivial
      · exact sim.pure trivial
    · exact ih

theorem stepGenerals_related (goal : Key) (symbol : Symbol) (references : List Reference)
    (stack : List Symbol) (visited : List Key) :
    sim.related (fun _ => True) (stepGenerals index goal symbol references stack visited)
      (stepGenerals index goal symbol references stack visited) := by
  induction references generalizing stack visited with
  | nil => exact sim.pure trivial
  | cons reference rest ih =>
    simp only [stepGenerals]
    split
    · refine sim.bind (refers reference symbol) fun found _ => ?_
      cases found with
      | none => exact ih stack visited
      | some target =>
        dsimp only
        split
        · exact sim.pure trivial
        · split
          · exact ih stack visited
          · exact ih _ _
    · exact ih stack visited

theorem reaches_related (goal : Key) (fuel : Nat) (stack : List Symbol) (visited : List Key) :
    sim.related (fun _ => True) (reaches index goal fuel stack visited)
      (reaches index goal fuel stack visited) := by
  induction fuel generalizing stack visited with
  | zero => exact sim.throw _
  | succ fuel ih =>
    cases stack with
    | nil => exact sim.pure trivial
    | cons symbol stack =>
      refine sim.bind (stepGenerals_related sim refers goal symbol _ stack visited) fun step _ => ?_
      cases step with
      | none => exact sim.pure trivial
      | some next => exact ih next.1 next.2

theorem isCyclic_related (symbol : Symbol) :
    sim.related (fun _ => True) (isCyclic index symbol) (isCyclic index symbol) := by
  unfold isCyclic
  split
  · exact reaches_related sim refers _ _ _ _
  · exact sim.pure trivial

theorem checkSymbol_related (path : String) (duplicate : List Nat) (symbol : Symbol) :
    sim.related (fun _ => True) (checkSymbol index path duplicate symbol)
      (checkSymbol index path duplicate symbol) := by
  refine sim.bind (checkReferences_related sim refers symbol _) fun unresolved _ => ?_
  refine sim.bind (sim.liftAny _) fun imports _ => ?_
  exact sim.bind (isCyclic_related sim refers symbol) fun _ _ => sim.pure trivial

theorem checkSymbols_related (path : String) (duplicate : List Nat) (symbols : List Symbol) :
    sim.related (fun _ => True) (checkSymbols index path duplicate symbols)
      (checkSymbols index path duplicate symbols) := by
  induction symbols with
  | nil => exact sim.pure trivial
  | cons symbol rest ih =>
    exact sim.bind (checkSymbol_related sim refers path duplicate symbol) fun _ _ =>
      sim.bind ih fun _ _ => sim.pure trivial

/-- The check of the files is related to itself wherever the search for a reference is. -/
theorem checkFiles_related (duplicate : List Nat) (files : List SourceFile) :
    sim.related (fun _ => True) (checkFiles index duplicate files)
      (checkFiles index duplicate files) := by
  induction files with
  | nil => exact sim.pure trivial
  | cons file rest ih =>
    simp only [checkFiles]
    split
    · exact ih
    · exact sim.bind (sim.liftAny _) fun _ _ =>
        sim.bind (checkSymbols_related sim refers _ _ _) fun _ _ =>
          sim.bind ih fun _ _ => sim.pure trivial

end Related

variable {index : Index} (within : index.IdsWithin)

include within

theorem checkReferences_behaves (symbol : Symbol) (references : List Reference) :
    Behaves index [] (fun _ => True) (checkReferences index symbol references) :=
  checkReferences_related (Behaves.simulation index []) (resolveReference_behaves within) symbol references

theorem isCyclic_behaves (symbol : Symbol) :
    Behaves index [] (fun _ => True) (isCyclic index symbol) :=
  isCyclic_related (Behaves.simulation index []) (resolveReference_behaves within) symbol

theorem checkSymbol_behaves (path : String) (duplicate : List Nat) (symbol : Symbol) :
    Behaves index [] (fun _ => True) (checkSymbol index path duplicate symbol) :=
  checkSymbol_related (Behaves.simulation index []) (resolveReference_behaves within) path duplicate symbol

theorem checkSymbols_behaves (path : String) (duplicate : List Nat) (symbols : List Symbol) :
    Behaves index [] (fun _ => True) (checkSymbols index path duplicate symbols) :=
  checkSymbols_related (Behaves.simulation index []) (resolveReference_behaves within) path duplicate
    symbols

/-- Checking the files keeps to the index and only adds to the memo. -/
theorem checkFiles_behaves (duplicate : List Nat) (files : List SourceFile) :
    Behaves index [] (fun _ => True) (checkFiles index duplicate files) :=
  checkFiles_related (Behaves.simulation index []) (resolveReference_behaves within) duplicate files

end Sysml.Workspace

/-! ## What loading and pinning keep -/

namespace Sysml

open Scope

namespace Workspace

variable {w : Workspace} {file : SourceFile}

/-- What holds of the files of a workspace, and of their symbols. -/
structure Tidy (w : Workspace) : Prop where
  paths : (w.files.map (·.path)).Nodup
  serials : (w.symbols.map (·.serial)).Nodup
  below : ∀ symbol ∈ w.symbols, symbol.serial < w.nextSerial
  libraries : ∀ file ∈ w.files, file.isLibrary = true →
    ∀ symbol ∈ file.symbols, symbol.isLibrary = true

theorem tidy_empty : Tidy {} :=
  ⟨List.nodup_nil, List.nodup_nil, fun _ member => (by cases member),
    fun _ member => (by cases member)⟩

theorem Tidy.eq_of_serial (tidy : w.Tidy) {one other : Symbol} (first : one ∈ w.symbols)
    (second : other ∈ w.symbols) (same : one.serial = other.serial) : one = other :=
  List.inj_on_of_nodup_map tidy.serials first second same

theorem numbered_serials (first : Nat) (symbols : List Symbol) :
    (numbered first symbols).map (·.serial) = List.range' first symbols.length := by
  apply List.ext_getElem
  · simp [numbered]
  · intro i _ _
    simp [numbered, List.getElem_range']

/-- Numbering is not seen where serial numbers are not. -/
theorem map_numbered {α : Type} {read : Symbol → α}
    (blind : ∀ symbol serial, read { symbol with serial } = read symbol) {first : Nat}
    {symbols : List Symbol} : (numbered first symbols).map read = symbols.map read := by
  apply List.ext_getElem
  · simp [numbered]
  · intro i _ _
    simp [numbered, blind]

/-- Numbering changes nothing but the serial numbers. -/
theorem mem_numbered {first : Nat} {symbols : List Symbol} {symbol : Symbol}
    (member : symbol ∈ numbered first symbols) :
    ∃ old ∈ symbols, ∃ serial, symbol = { old with serial } := by
  obtain ⟨i, inside, rfl⟩ := List.mem_mapIdx.mp member
  exact ⟨symbols[i], List.getElem_mem inside, first + i, rfl⟩

theorem numbered_bounds {first : Nat} {symbols : List Symbol} {symbol : Symbol}
    (member : symbol ∈ numbered first symbols) :
    first ≤ symbol.serial ∧ symbol.serial < first + symbols.length := by
  have listed : symbol.serial ∈ (numbered first symbols).map (·.serial) :=
    List.mem_map_of_mem member
  rw [numbered_serials, List.mem_range'_1] at listed
  exact listed

theorem put_symbols (w : Workspace) (file : SourceFile) :
    (w.put file).symbols =
      (w.files.filter fun held => held.path != file.path).flatMap (·.symbols) ++
        numbered w.nextSerial file.symbols := by
  simp [put, symbols]

theorem Tidy.put (tidy : w.Tidy)
    (library : file.isLibrary = true → ∀ symbol ∈ file.symbols, symbol.isLibrary = true) :
    (w.put file).Tidy := by
  have kept : ((w.files.filter fun held => held.path != file.path).flatMap (·.symbols)).Sublist
      w.symbols := List.filter_sublist.flatMap _
  refine ⟨?_, ?_, ?_, ?_⟩
  · have others : ((w.files.filter fun held => held.path != file.path).map (·.path)).Nodup :=
      tidy.paths.sublist (List.filter_sublist.map _)
    simp only [Workspace.put, List.map_append, List.map_cons, List.map_nil]
    refine List.nodup_append.mpr ⟨others, List.nodup_singleton _, ?_⟩
    intro path member other last same
    obtain ⟨held, inside, rfl⟩ := List.mem_map.mp member
    rw [List.mem_singleton.mp last] at same
    simp [same] at inside
  · rw [put_symbols, List.map_append, numbered_serials]
    refine List.nodup_append.mpr ⟨tidy.serials.sublist (kept.map _), List.nodup_range', ?_⟩
    intro serial member other new same
    obtain ⟨symbol, inside, rfl⟩ := List.mem_map.mp member
    have := tidy.below symbol (kept.subset inside)
    rw [← same, List.mem_range'_1] at new
    omega
  · intro symbol member
    rw [put_symbols] at member
    rcases List.mem_append.mp member with old | new
    · have := tidy.below symbol (kept.subset old)
      change symbol.serial < w.nextSerial + file.symbols.length
      omega
    · exact (numbered_bounds new).2
  · intro held member isLibrary symbol inside
    simp only [Workspace.put, List.mem_append, List.mem_filter, List.mem_singleton] at member
    rcases member with ⟨old, -⟩ | rfl
    · exact tidy.libraries held old isLibrary symbol inside
    · obtain ⟨before, given, _, rfl⟩ := mem_numbered inside
      exact library isLibrary before given

theorem Tidy.load (tidy : w.Tidy) (path text : String) (isLibrary : Bool) :
    (w.load path text isLibrary).Tidy := by
  refine tidy.put fun library symbol member => ?_
  exact (Notation.parse_written path text isLibrary symbol member).library.trans library

theorem Tidy.loadModel (tidy : w.Tidy) (symbols : List Symbol) (source : String) :
    (w.loadModel symbols source).Tidy :=
  tidy.put fun library => (by cases library)

/-- The index is over the symbols of the workspace, and the memo holds no others. -/
structure Current (w : Workspace) (index : Index) : Prop where
  found : w.index = some index
  symbols : index.symbols = w.symbols
  ids : index.IdsWithin
  memo : w.memo.Within index

section Adjusting

variable {change : Symbol → Symbol}

theorem adjust_symbols (w : Workspace) (change : Symbol → Symbol) :
    (w.adjust change).symbols = w.symbols.map change := by
  simp [adjust, symbols, List.flatMap_map, List.map_flatMap]

theorem Tidy.adjust (tidy : w.Tidy)
    (serial : ∀ symbol ∈ w.symbols, (change symbol).serial = symbol.serial)
    (library : ∀ symbol ∈ w.symbols, (change symbol).isLibrary = symbol.isLibrary) :
    (w.adjust change).Tidy := by
  have serials : (w.adjust change).symbols.map (·.serial) = w.symbols.map (·.serial) := by
    rw [adjust_symbols, List.map_map]
    exact List.map_congr_left serial
  refine ⟨?_, serials ▸ tidy.serials, ?_, ?_⟩
  · simpa [Workspace.adjust, Function.comp_def] using tidy.paths
  · intro symbol member
    rw [adjust_symbols] at member
    obtain ⟨old, inside, rfl⟩ := List.mem_map.mp member
    rw [serial old inside]
    exact tidy.below old inside
  · intro file member isLibrary symbol inside
    obtain ⟨held, heldIn, rfl⟩ := List.mem_map.mp member
    obtain ⟨old, oldIn, rfl⟩ := List.mem_map.mp inside
    rw [library old (List.mem_flatMap_of_mem heldIn oldIn)]
    exact tidy.libraries held heldIn isLibrary old oldIn

theorem Index.Has.adjust {index : Index} {found : Option Symbol} (has : index.Has found) :
    (index.adjust change).Has (found.map change) := by
  intro symbol same
  obtain ⟨old, held, rfl⟩ := Option.map_eq_some_iff.mp same
  exact List.mem_map_of_mem (has old held)

theorem Current.adjust {index : Index} (current : w.Current index) :
    (w.adjust change).Current (index.adjust change) := by
  refine ⟨?_, ?_, ?_, ?_⟩
  · simp [Workspace.adjust, current.found]
  · rw [adjust_symbols, ← current.symbols]
    rfl
  · intro entry member
    obtain ⟨old, held, rfl⟩ := List.mem_map.mp member
    exact List.mem_map_of_mem (current.ids old held)
  · intro entry member
    obtain ⟨old, held, rfl⟩ := List.mem_map.mp member
    exact Index.Has.adjust (current.memo old held)

end Adjusting

/-- The second workspace is tidy, and its index is current if that of the first is. -/
structure Steady (w later : Workspace) : Prop where
  tidy : later.Tidy
  current : (∃ index, w.Current index) → ∃ index, later.Current index

theorem Steady.refl (tidy : w.Tidy) : Steady w w :=
  ⟨tidy, id⟩

theorem Steady.trans {middle later : Workspace} (first : Steady w middle)
    (second : Steady middle later) : Steady w later :=
  ⟨second.tidy, fun current => second.current (first.current current)⟩

/-- A symbol may be changed, but for its serial number and where it belongs. -/
theorem Tidy.replace (tidy : w.Tidy) {old changed : Symbol} (held : old ∈ w.symbols)
    (serial : changed.serial = old.serial) (library : changed.isLibrary = old.isLibrary) :
    Steady w
      (w.adjust fun symbol => if symbol.serial = changed.serial then changed else symbol) := by
  refine ⟨tidy.adjust ?_ ?_, fun ⟨index, current⟩ => ⟨_, current.adjust⟩⟩
  · intro symbol _
    split
    · next same => exact same.symm
    · rfl
  · intro symbol member
    split
    · next same => rw [library, tidy.eq_of_serial member held (same.trans serial)]
    · rfl

theorem Tidy.pin (tidy : w.Tidy) (serial : Nat) (id : Key) : Steady w (w.pin serial id) := by
  refine ⟨tidy.adjust ?_ ?_, fun ⟨index, current⟩ => ⟨_, current.adjust⟩⟩ <;>
  · intro symbol _
    split <;> rfl

/-- What a pin makes of a symbol has its serial number and belongs where it does. -/
theorem change?_old {pin : Pin} {symbols : List Symbol} {changed : Symbol}
    (applies : pin.change? symbols = .ok (some changed)) :
    ∃ old ∈ symbols, changed.serial = old.serial ∧ changed.isLibrary = old.isLibrary := by
  cases pin with
  | element id name =>
    obtain ⟨old, found, rfl⟩ := Option.map_eq_some_iff.mp (Except.ok.inj applies)
    exact ⟨old, List.mem_of_find?_eq_some found, rfl, rfl⟩
  | relationship id source kind target =>
    simp only [Pin.change?] at applies
    split at applies
    · cases applies
    · next old found =>
      refine ⟨old, List.mem_of_find?_eq_some found, ?_⟩
      unfold Pin.onSymbol? at applies
      split at applies
      · obtain ⟨imports, _, applies⟩ := result_bind_ok applies
        obtain ⟨_, _, rfl⟩ := Option.map_eq_some_iff.mp (Except.ok.inj applies)
        exact ⟨rfl, rfl⟩
      · obtain ⟨references, _, applies⟩ := result_bind_ok applies
        obtain ⟨_, _, rfl⟩ := Option.map_eq_some_iff.mp (Except.ok.inj applies)
        exact ⟨rfl, rfl⟩

theorem applyPin_steady (tidy : w.Tidy) {pin : Pin} {later : Workspace} {applied : Bool}
    (ran : w.applyPin pin = .ok (later, applied)) : Steady w later := by
  obtain ⟨changed?, changes, ran⟩ := result_bind_ok ran
  cases changed? with
  | none =>
    cases ran
    exact .refl tidy
  | some changed =>
    cases ran
    obtain ⟨old, held, serial, library⟩ := change?_old changes
    exact tidy.replace held serial library

theorem applyPinsFrom_steady (tidy : w.Tidy) (count : Nat) (pins : List Pin) :
    Steady w (w.applyPinsFrom count pins).2 := by
  induction pins generalizing w count with
  | nil => exact .refl tidy
  | cons pin rest ih =>
    simp only [applyPinsFrom]
    split
    · exact .refl tidy
    · next later applied ran =>
      have first := applyPin_steady tidy ran
      exact first.trans (ih first.tidy _)

/-- Pins leave a workspace tidy; unless some applied and none failed, its index
stays current. -/
theorem applyEntries_steady (tidy : w.Tidy) (entries : List Value) :
    (w.applyEntries entries).2.Tidy ∧
      ((∀ count, (w.applyEntries entries).1 = .ok count → count = 0) →
        Steady w (w.applyEntries entries).2) := by
  unfold applyEntries
  split
  · exact ⟨tidy, fun _ => .refl tidy⟩
  · split
    · next pins _ =>
      have steady := applyPinsFrom_steady tidy 0 pins
      unfold applyPins
      split
      · next ran =>
        rw [ran] at steady
        exact ⟨steady.tidy, fun _ => steady⟩
      · next count later ran =>
        rw [ran] at steady
        refine ⟨?_, fun none_ => ?_⟩
        · dsimp only
          split
          · exact steady.tidy
          · exact ⟨steady.tidy.paths, steady.tidy.serials, steady.tidy.below, steady.tidy.libraries⟩
        · rw [none_ count rfl]
          exact steady
    · next pins refused _ =>
      have steady := applyPinsFrom_steady tidy 0 pins
      split
      · next ran =>
        rw [ran] at steady
        exact ⟨steady.tidy, fun _ => steady⟩
      · next ran =>
        rw [ran] at steady
        exact ⟨steady.tidy, fun _ => steady⟩

/-- A search only touches the memo. -/
theorem search_eq {α : Type} (w : Workspace) (run : Scope.Search α) :
    w.search run = ((outcome run w.memo).1, { w with memo := (outcome run w.memo).2 }) := rfl

/-- What holds of the files holds whatever becomes of the index. -/
theorem Tidy.of_files {later : Workspace} (tidy : w.Tidy) (files : later.files = w.files)
    (next : later.nextSerial = w.nextSerial) : later.Tidy := by
  refine ⟨files ▸ tidy.paths, ?_, ?_, files ▸ tidy.libraries⟩
  · rw [symbols, files]
    exact tidy.serials
  · rw [symbols, files, next]
    exact tidy.below

/-- The workspace with an index that has answered nothing yet. -/
def reindexed (w : Workspace) : Workspace :=
  { w with index := some (Index.build w.symbols w.rootImports), memo := [] }

theorem reindexed_current (w : Workspace) :
    w.reindexed.Current (Index.build w.symbols w.rootImports) :=
  ⟨rfl, rfl, Index.build_idsWithin _ _, fun _ member => (by cases member)⟩

/-- The search that building the index ends with. -/
def checking (w : Workspace) : Search (List (String × List Diagnostic)) :=
  checkFiles (Index.build w.symbols w.rootImports) (duplicates [] w.symbols) w.files

theorem rebuild_eq (w : Workspace) :
    w.rebuild =
      if !w.symbols.all isIndexable then (.error .wrongKind, w)
      else if !w.symbols.all fun symbol => symbol.name.isProper then
        (.error .wrongKind, w.reindexed)
      else
        match outcome w.checking [] with
        | (.ok findings, memo) =>
            (.ok (Index.build w.symbols w.rootImports), { w.reindexed with findings, memo })
        | (.error failure, memo) => (.error failure, { w.reindexed with memo }) := by
  have searched : w.reindexed.search w.checking =
      ((outcome w.checking []).1, { w.reindexed with memo := (outcome w.checking []).2 }) :=
    search_eq ..
  have same : (Index.build w.symbols w.rootImports).symbols = w.symbols := rfl
  unfold rebuild
  split
  · rfl
  · dsimp only
    rw [same]
    cases w.symbols.all fun symbol => symbol.name.isProper with
    | false => rfl
    | true =>
      rcases checked : outcome w.checking [] with ⟨failure | findings, memo⟩ <;>
        rw [checked] at searched <;>
        · simp only [Bool.not_true, Bool.false_eq_true, ↓reduceIte]
          unfold reindexed checking at searched
          rw [searched]
          rfl

/-- An index that was built is over all symbols, and all files were checked. -/
theorem rebuild_ok {index : Index} {later : Workspace} (built : w.rebuild = (.ok index, later)) :
    index = Index.build w.symbols w.rootImports ∧ ∃ findings memo,
      outcome w.checking [] = (.ok findings, memo) ∧
        later = { w.reindexed with findings, memo } := by
  rw [rebuild_eq] at built
  split at built
  · cases built
  · split at built
    · cases built
    · split at built
      · next findings memo ran =>
        cases built
        exact ⟨rfl, findings, memo, ran, rfl⟩
      · cases built

theorem rebuild_index {index : Index} {later : Workspace} (built : w.rebuild = (.ok index, later)) :
    later.index = some index := by
  obtain ⟨rfl, _, _, _, rfl⟩ := rebuild_ok built
  rfl

theorem rebuild_files (w : Workspace) :
    w.rebuild.2.files = w.files ∧ w.rebuild.2.nextSerial = w.nextSerial := by
  rw [rebuild_eq]
  split
  · exact ⟨rfl, rfl⟩
  · split
    · exact ⟨rfl, rfl⟩
    · split <;> exact ⟨rfl, rfl⟩

/-- Building the index leaves a workspace tidy, and makes the index current if it
ends well. -/
theorem Tidy.rebuild (tidy : w.Tidy) :
    w.rebuild.2.Tidy ∧ ∀ index, w.rebuild.1 = .ok index → w.rebuild.2.Current index := by
  refine ⟨tidy.of_files (rebuild_files w).1 (rebuild_files w).2, fun index built => ?_⟩
  obtain ⟨rfl, findings, memo, ran, same⟩ :=
    rebuild_ok (Prod.ext built rfl : w.rebuild = (.ok index, w.rebuild.2))
  have current := reindexed_current w
  have behaves := checkFiles_behaves current.ids (duplicates [] w.symbols) w.files
  have within : Memo.Within (Index.build w.symbols w.rootImports) (outcome w.checking []).2 :=
    behaves.within current.memo
  rw [ran] at within
  rw [same]
  exact ⟨rfl, rfl, current.ids, within⟩

end Workspace

end Sysml
