import Mathlib.Data.List.GetD
import Mathlib.Data.List.Induction
import Sysml.Proofs.Renumbering
import Sysml.Proofs.Session.Reachable

/-!
# Loading a file again

A file that is loaded again is replaced as a whole and moves to the end of the load order, whether
it is given as a text or as the symbols of a document. So after any loads the session holds and
finds what it does after the last load of each path alone, but for the serial numbers that tell
its symbols apart (`reindex_lasting`).
-/

set_option autoImplicit false

namespace Sysml

open Scope

/-- What is loaded under a path: a source text, or the symbols of a document. -/
inductive Load where
  | text (path content : String) (isLibrary : Bool)
  | model (symbols : List Symbol) (source : String)

namespace Load

/-- The path under which something is loaded. -/
def path : Load → String
  | text path _ _ => path
  | model _ source => source

def change : Load → Change
  | text path content isLibrary => .load path content isLibrary
  | model symbols source => .loadModel symbols source

def file : Load → SourceFile
  | text path content isLibrary =>
      let parsed := Notation.parse path content isLibrary
      ⟨path, content, isLibrary, parsed.symbols, parsed.imports, parsed.diagnostics⟩
  | model symbols source => ⟨source, "", false, symbols, [], []⟩

/-- The last load of each path, in the order of these. -/
def lasting : List Load → List Load
  | [] => []
  | load :: rest =>
      if rest.any fun later => later.path == load.path then lasting rest
      else load :: lasting rest

theorem file_path (load : Load) : load.file.path = load.path := by
  cases load <;> rfl

/-- One more load takes the place of those with its path. -/
theorem lasting_concat (loads : List Load) (last : Load) :
    lasting (loads ++ [last]) =
      (lasting loads).filter (fun load => load.path != last.path) ++ [last] := by
  induction loads with
  | nil => rfl
  | cons load rest ih =>
    rw [List.cons_append, lasting, lasting, ih, List.any_append]
    cases again : rest.any fun later => later.path == load.path with
    | true => rfl
    | false =>
      have isLast : [last].any (fun later => later.path == load.path) =
          (last.path == load.path) := by
        rw [List.any_cons, List.any_nil, Bool.or_false]
      rw [isLast, Bool.false_or, if_neg Bool.false_ne_true, List.filter_cons]
      by_cases same : last.path = load.path
      · have kept : (load.path != last.path) = false := by simp [same]
        rw [kept, if_pos (beq_iff_eq.mpr same), if_neg Bool.false_ne_true]
      · have kept : (load.path != last.path) = true := bne_iff_ne.mpr (Ne.symm same)
        rw [kept, if_neg (by simpa using same), if_pos rfl, List.cons_append]

theorem mem_lasting {loads : List Load} {load : Load} (member : load ∈ lasting loads) :
    load ∈ loads := by
  induction loads with
  | nil => cases member
  | cons first rest ih =>
    rw [lasting] at member
    split at member
    · exact List.mem_cons_of_mem _ (ih member)
    · rcases List.mem_cons.mp member with rfl | later
      · exact List.mem_cons_self
      · exact List.mem_cons_of_mem _ (ih later)

/-- No path is loaded twice by the last loads. -/
theorem lasting_paths (loads : List Load) : ((lasting loads).map path).Nodup := by
  induction loads with
  | nil => exact List.nodup_nil
  | cons load rest ih =>
    rw [lasting]
    split
    · exact ih
    · next unlike =>
      rw [List.map_cons]
      refine List.nodup_cons.mpr ⟨fun member => unlike ?_, ih⟩
      obtain ⟨later, isLater, same⟩ := List.mem_map.mp member
      exact List.any_eq_true.mpr ⟨later, mem_lasting isLater, beq_iff_eq.mpr same⟩

/-- Loads of different paths all last. -/
theorem lasting_of_nodup {loads : List Load} (distinct : (loads.map path).Nodup) :
    lasting loads = loads := by
  induction loads with
  | nil => rfl
  | cons load rest ih =>
    rw [List.map_cons] at distinct
    obtain ⟨fresh, others⟩ := List.nodup_cons.mp distinct
    have unlike : ¬ (rest.any fun later => later.path == load.path) = true := by
      intro again
      obtain ⟨later, member, same⟩ := List.any_eq_true.mp again
      exact fresh (List.mem_map.mpr ⟨later, member, beq_iff_eq.mp same⟩)
    rw [lasting, if_neg unlike, ih others]

theorem lasting_lasting (loads : List Load) : lasting (lasting loads) = lasting loads :=
  lasting_of_nodup (lasting_paths loads)

theorem lasting_eq_nil {loads : List Load} : lasting loads = [] ↔ loads = [] := by
  constructor
  · intro none_
    rcases List.eq_nil_or_concat loads with rfl | ⟨before, last, rfl⟩
    · rfl
    · rw [List.concat_eq_append, lasting_concat] at none_
      simp at none_
  · rintro rfl
    rfl

end Load

/-! ## Serial numbers one for one -/

/-- Different numbers can be replaced one for one by as many different ones. -/
theorem exists_renumbering {old new : List Nat} (oldApart : old.Nodup) (newApart : new.Nodup)
    (same : old.length = new.length) {bound : Nat} (below : ∀ n ∈ new, n < bound) :
    ∃ number : Nat → Nat, Function.Injective number ∧ old.map number = new := by
  -- the numbers that are not replaced move out of the way, to above the bound
  let number (n : Nat) : Nat := new.getD (old.idxOf n) (bound + n)
  have replaced (n : Nat) (listed : n ∈ old) :
      ∃ inside : old.idxOf n < new.length, number n = new[old.idxOf n] := by
    have inside : old.idxOf n < new.length := same ▸ List.idxOf_lt_length_of_mem listed
    exact ⟨inside, List.getD_eq_getElem _ _ inside⟩
  have moved (n : Nat) (unlisted : n ∉ old) : number n = bound + n := by
    have outside : new.length ≤ old.idxOf n :=
      Nat.le_of_eq (same.symm.trans (List.idxOf_eq_length unlisted).symm)
    exact List.getD_eq_default _ _ outside
  have under (n : Nat) (listed : n ∈ old) : number n < bound := by
    obtain ⟨inside, isNew⟩ := replaced n listed
    exact isNew ▸ below _ (List.getElem_mem inside)
  refine ⟨number, fun one other alike => ?_, ?_⟩
  · by_cases first : one ∈ old <;> by_cases second : other ∈ old
    · obtain ⟨_, isOne⟩ := replaced one first
      obtain ⟨_, isOther⟩ := replaced other second
      rw [isOne, isOther, newApart.getElem_inj_iff] at alike
      exact (List.idxOf_inj first).mp alike
    · have := under one first
      rw [alike, moved other second] at this
      omega
    · have := under other second
      rw [← alike, moved one first] at this
      omega
    · rw [moved one first, moved other second] at alike
      omega
  · apply List.ext_getElem
    · rw [List.length_map, same]
    · intro i inside _
      rw [List.length_map] at inside
      obtain ⟨_, isNew⟩ := replaced old[i] (List.getElem_mem inside)
      rw [List.getElem_map, isNew]
      simp only [oldApart.idxOf_getElem]

/-- A symbol is another under a new number if it is so without the numbers. -/
theorem Symbol.eq_renumber {one other : Symbol} {number : Nat → Nat}
    (alike : other.renumber (fun _ => 0) = one.renumber fun _ => 0)
    (serial : other.serial = number one.serial) : other = one.renumber number := by
  have restored (symbol : Symbol) (serial : Nat) (same : symbol.serial = serial) :
      symbol = { symbol.renumber (fun _ => 0) with serial } := by
    subst same
    rfl
  rw [restored other _ serial, alike]
  rfl

theorem symbols_eq_renumber {one other : List Symbol} {number : Nat → Nat}
    (alike : other.map (Symbol.renumber fun _ => 0) = one.map (Symbol.renumber fun _ => 0))
    (serials : other.map (·.serial) = one.map fun symbol => number symbol.serial) :
    other = one.map (Symbol.renumber number) := by
  induction one generalizing other with
  | nil => exact List.map_eq_nil_iff.mp alike
  | cons symbol rest ih =>
    cases other with
    | nil => cases alike
    | cons again others =>
      rw [List.map_cons, List.map_cons] at alike serials
      obtain ⟨first, alike⟩ := List.cons.inj alike
      obtain ⟨number_, serials⟩ := List.cons.inj serials
      rw [List.map_cons, ← ih alike serials, ← Symbol.eq_renumber first number_]

/-- Files that are the same without the serial numbers of their symbols are so under new ones,
where the symbols of all files are. -/
theorem files_eq_renumber {one other : List SourceFile} {number : Nat → Nat}
    (alike : other.map (SourceFile.renumber fun _ => 0) = one.map (SourceFile.renumber fun _ => 0))
    (serials : (other.flatMap (·.symbols)).map (·.serial) =
      (one.flatMap (·.symbols)).map fun symbol => number symbol.serial) :
    other = one.map (SourceFile.renumber number) := by
  induction one generalizing other with
  | nil => exact List.map_eq_nil_iff.mp alike
  | cons file rest ih =>
    cases other with
    | nil => cases alike
    | cons again others =>
      rw [List.map_cons, List.map_cons] at alike
      obtain ⟨first, alike⟩ := List.cons.inj alike
      have symbols := (congrArg SourceFile.symbols first :)
      change again.symbols.map _ = file.symbols.map _ at symbols
      have lengths : (again.symbols.map (·.serial)).length =
          (file.symbols.map fun symbol => number symbol.serial).length := by
        simpa using congrArg List.length symbols
      rw [List.flatMap_cons, List.flatMap_cons, List.map_append, List.map_append] at serials
      obtain ⟨here, there⟩ := List.append_inj serials lengths
      have changed := symbols_eq_renumber symbols here
      have isAgain : again = file.renumber number := by
        have whole : again = { again.renumber (fun _ => 0) with symbols := again.symbols } := rfl
        rw [whole, first, changed]
        rfl
      rw [List.map_cons, ← ih alike there, ← isAgain]

namespace Workspace

variable {w other : Workspace}

/-- Where files are the same without serial numbers, their symbols' can be replaced one for one. -/
theorem Tidy.exists_renumbering (tidy : w.Tidy) (tidyToo : other.Tidy)
    (alike : other.files.map (SourceFile.renumber fun _ => 0) =
      w.files.map (SourceFile.renumber fun _ => 0)) :
    ∃ number : Nat → Nat, Function.Injective number ∧
      other.files = w.files.map (SourceFile.renumber number) := by
  have lengths : (w.symbols.map (·.serial)).length = (other.symbols.map (·.serial)).length := by
    have counts (files : List SourceFile) : (files.flatMap (·.symbols)).length =
        ((files.map (SourceFile.renumber fun _ => 0)).flatMap (·.symbols)).length := by
      rw [List.flatMap_map, List.length_flatMap, List.length_flatMap]
      refine congrArg List.sum (List.map_congr_left fun file _ => ?_)
      exact (List.length_map _).symm
    rw [List.length_map, List.length_map, symbols, symbols, counts, counts other.files, alike]
  have below : ∀ n ∈ other.symbols.map (·.serial), n < other.nextSerial := by
    intro n member
    obtain ⟨symbol, inside, rfl⟩ := List.mem_map.mp member
    exact tidyToo.below symbol inside
  obtain ⟨number, apart, replaced⟩ :=
    Sysml.exists_renumbering tidy.serials tidyToo.serials lengths below
  refine ⟨number, apart, files_eq_renumber alike ?_⟩
  rw [List.map_map] at replaced
  exact replaced.symm

/-- A file that is put takes the place of the one with its path. -/
theorem put_bare (w : Workspace) (file : SourceFile) :
    (w.put file).files.map (SourceFile.renumber fun _ => 0) =
      (w.files.map (SourceFile.renumber fun _ => 0)).filter (fun held => held.path != file.path) ++
        [file.renumber fun _ => 0] := by
  have bare : (numbered w.nextSerial file.symbols).map (Symbol.renumber fun _ => 0) =
      file.symbols.map (Symbol.renumber fun _ => 0) :=
    map_numbered fun _ _ => rfl
  rw [put, List.map_append, List.map_singleton, List.filter_map]
  refine congrArg _ (congrArg (fun symbols => [{ file with symbols }]) bare)

end Workspace

namespace Session

def loaded (loads : List Load) : Session :=
  after (loads.map Load.change)

theorem loaded_concat (loads : List Load) (last : Load) :
    loaded (loads ++ [last]) =
      touched { loaded loads with workspace := (loaded loads).workspace.put last.file } := by
  unfold loaded after
  rw [List.map_append, List.foldl_append]
  cases last <;> rfl

/-- The files are those of the last loads. -/
theorem loaded_files (loads : List Load) :
    (loaded loads).workspace.files.map (SourceFile.renumber fun _ => 0) =
      (Load.lasting loads).map fun load => load.file.renumber fun _ => 0 := by
  induction loads using List.reverseRecOn with
  | nil => rfl
  | append_singleton loads last ih =>
    rw [loaded_concat, Load.lasting_concat, List.map_append, List.map_singleton]
    refine (Workspace.put_bare _ last.file).trans ?_
    rw [ih, List.filter_map]
    have kept : (fun held : SourceFile => held.path != last.file.path) ∘
        (fun load : Load => load.file.renumber fun _ => 0) =
        fun load : Load => load.path != last.path := by
      funext load
      change (load.file.path != last.file.path) = _
      rw [Load.file_path, Load.file_path]
    rw [kept]

/-- After loads the index is stale, except at the start. -/
theorem loaded_phase (loads : List Load) :
    (loaded loads).phase = (if loads = [] then .empty else .loading) ∧
      (loaded loads).isDirty = !loads.isEmpty := by
  induction loads using List.reverseRecOn with
  | nil => exact ⟨rfl, rfl⟩
  | append_singleton loads last ih =>
    rw [loaded_concat, if_neg (List.append_ne_nil_of_right_ne_nil _ (List.cons_ne_nil _ _))]
    refine ⟨rfl, ?_⟩
    cases loads <;> rfl

/-- The second session holds and finds what the first does, under other serial numbers. -/
structure Renumbers (number : Nat → Nat) (one other : Session) : Prop where
  files : other.workspace.files = one.workspace.files.map (SourceFile.renumber number)
  phase : other.phase = one.phase
  index : one.isReady = true → ∃ index, one.workspace.index = some index ∧
    other.workspace.index = some (index.renumber number)
  findings : one.isReady = true → other.workspace.findings = one.workspace.findings

theorem Renumbers.isReady {number : Nat → Nat} {one other : Session}
    (renumbers : Renumbers number one other) : other.isReady = one.isReady := by
  rw [Session.isReady, renumbers.phase]
  rfl

theorem outcome_required (operation : String) (session : Session) :
    outcome (require operation) session =
      (if session.isReady then .ok ⟨⟩ else .error (.wrongPhase operation session.phase),
        session) := by
  unfold require
  rw [outcome_bind_of_ok (outcome_get session)]
  cases session.isReady <;> rfl

/-- The same diagnostics are told of each file where files differ in their symbols alone. -/
theorem checkFile_recast {change : Symbol → Symbol} {one other : Session}
    (ready : one.isReady = true) (readyToo : other.isReady = true)
    (files : other.workspace.files = one.workspace.files.map (SourceFile.recast change))
    {index again : Index} (found : one.workspace.index = some index)
    (foundToo : other.workspace.index = some again)
    (findings : other.workspace.findings = one.workspace.findings) (path : String) :
    (outcome (checkFile path) other).1 = (outcome (checkFile path) one).1 := by
  unfold Session.checkFile
  rw [outcome_bind, outcome_bind, outcome_required, outcome_required, ready, readyToo]
  simp only [↓reduceIte, outcome_onWorkspace, Workspace.checkFile,
    Workspace.file?_recast files path, Workspace.currentIndex, found, foundToo, findings]
  cases one.workspace.file? path <;> rfl

/-- The same diagnostics are told of each file. -/
theorem Renumbers.checkFile {number : Nat → Nat} {one other : Session}
    (renumbers : Renumbers number one other) (path : String) :
    (outcome (checkFile path) other).1 = (outcome (checkFile path) one).1 := by
  cases ready : one.isReady with
  | true =>
    obtain ⟨index, found, again⟩ := renumbers.index ready
    exact checkFile_recast ready (renumbers.isReady.trans ready) renumbers.files found again
      (renumbers.findings ready) path
  | false =>
    unfold Session.checkFile
    rw [outcome_bind, outcome_bind, outcome_required, outcome_required, renumbers.isReady,
      renumbers.phase, ready]
    rfl

/-- Building the index over renumbered files gives the same findings, or fails alike. -/
theorem reindex_renumbers {one other : Session} {number : Nat → Nat}
    (apart : Function.Injective number)
    (files : other.workspace.files = one.workspace.files.map (SourceFile.renumber number))
    (phase : other.phase = one.phase) (consistent : one.Consistent)
    (consistentToo : other.Consistent) (stale : one.phase = .empty ∨ one.isDirty = true)
    (staleToo : other.phase = .empty ∨ other.isDirty = true) :
    (outcome reindex other).1 = (outcome reindex one).1 ∧
      Renumbers number (outcome reindex one).2 (outcome reindex other).2 := by
  have kept := (Workspace.rebuild_files one.workspace).1
  have keptToo := (Workspace.rebuild_files other.workspace).1
  rw [consistent.reindex_stale stale, consistentToo.reindex_stale staleToo]
  rcases built : one.workspace.rebuild with ⟨failure | index, later⟩ <;> rw [built] at kept
  · have unready : one.isReady = false := by
      rcases stale with isEmpty | isDirty
      · rw [isReady, isEmpty]
      · rw [isReady, consistent.dirty isDirty]
    have failed := Workspace.rebuild_renumbered_error apart files (congrArg Prod.fst built)
    rcases builtToo : other.workspace.rebuild with ⟨failureToo | _, laterToo⟩ <;>
      rw [builtToo] at failed keptToo <;> cases failed
    refine ⟨rfl, keptToo.trans (files.trans (congrArg _ kept.symm)), phase, ?_, ?_⟩
    · exact fun ready => absurd (unready.symm.trans ready) Bool.false_ne_true
    · exact fun ready => absurd (unready.symm.trans ready) Bool.false_ne_true
  · have found := Workspace.rebuild_index built
    rw [Workspace.rebuild_renumbered apart files built]
    exact ⟨rfl, files.trans (congrArg _ kept.symm), rfl, fun _ => ⟨index, found, rfl⟩, fun _ => rfl⟩

/-- After any loads, once the index was built, a session holds and finds what it does after the last
load of each path alone: its files and symbols are the same in the same order, but for serial
numbers, and so are its index and its diagnostics. -/
theorem reindex_lasting (loads : List Load) :
    ∃ number : Nat → Nat, Function.Injective number ∧
      (outcome reindex (loaded loads)).1 = (outcome reindex (loaded (Load.lasting loads))).1 ∧
      Renumbers number (outcome reindex (loaded (Load.lasting loads))).2
        (outcome reindex (loaded loads)).2 ∧
      ∀ path, (outcome (checkFile path) (outcome reindex (loaded loads)).2).1 =
        (outcome (checkFile path) (outcome reindex (loaded (Load.lasting loads))).2).1 := by
  have consistent (loads : List Load) : (loaded loads).Consistent := after_consistent _
  have stale (loads : List Load) :
      (loaded loads).phase = .empty ∨ (loaded loads).isDirty = true := by
    obtain ⟨phase, dirty⟩ := loaded_phase loads
    cases loads with
    | nil => exact .inl phase
    | cons load rest => exact .inr dirty
  have phase : (loaded loads).phase = (loaded (Load.lasting loads)).phase := by
    rw [(loaded_phase loads).1, (loaded_phase (Load.lasting loads)).1]
    simp only [Load.lasting_eq_nil]
  have alike : (loaded loads).workspace.files.map (SourceFile.renumber fun _ => 0) =
      (loaded (Load.lasting loads)).workspace.files.map (SourceFile.renumber fun _ => 0) := by
    rw [loaded_files, loaded_files, Load.lasting_lasting]
  obtain ⟨number, apart, files⟩ :=
    (consistent (Load.lasting loads)).tidy.exists_renumbering (consistent loads).tidy alike
  obtain ⟨same, renumbers⟩ := reindex_renumbers apart files phase (consistent _) (consistent _)
    (stale _) (stale _)
  exact ⟨number, apart, same, renumbers, renumbers.checkFile⟩

end Session

end Sysml
