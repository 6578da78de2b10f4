import Mathlib.Data.List.Induction
import Sysml.Proofs.Session.Complete

/-!
# Answers from a current index

A session is asked for what its index tells. It answers from an index over what is loaded, or
refuses and stays as it was: it refuses exactly while the index was not built since the latest
change (`ask_fresh`). An operation that gives ids and then fails is the exception. It changes ids
that the index has taken in, and the session goes on answering from it
(`torn_entries_answered`).
-/

set_option autoImplicit false

namespace Sysml

open Scope

inductive Question where
  | summary
  | index
  | symbols
  | files
  | fileSymbols (path : String)
  | rootImports (path : String)
  | checkFile (path : String)
  | markDiagnosed
  | markExported

inductive Answer where
  | numbers (files symbols : Nat)
  | index (index : Index)
  | symbols (symbols : List Symbol)
  | files (files : List SourceFile)
  | imports (imports : List Import)
  | diagnostics (diagnostics : List Diagnostic)
  | done

/-- One step in the use of a session. -/
inductive Request where
  | load (path text : String) (isLibrary : Bool)
  | loadModel (symbols : List Symbol) (source : String)
  | applyEntries (entries : List Value)
  | reindex
  | ask (question : Question)
  /-- A search on the index that a session gives out. -/
  | search (run : Index → Search Unit)

namespace Question

def ask : Question → Operation Answer
  | .summary => (fun numbers => .numbers numbers.1 numbers.2) <$> Session.summary
  | .index => .index <$> Session.index
  | .symbols => .symbols <$> Session.symbols
  | .files => .files <$> Session.files
  | .fileSymbols path => .symbols <$> Session.fileSymbols path
  | .rootImports path => .imports <$> Session.rootImports path
  | .checkFile path => .diagnostics <$> Session.checkFile path
  | .markDiagnosed => (fun _ => .done) <$> Session.markDiagnosed
  | .markExported => (fun _ => .done) <$> Session.markExported

def operation : Question → String
  | .summary => "query_summary"
  | .index | .symbols => "index"
  | .files => "files"
  | .fileSymbols _ => "file_symbols"
  | .rootImports _ => "root_imports"
  | .checkFile _ => "check_file"
  | .markDiagnosed => "diagnostics"
  | .markExported => "export"

def answer (w : Workspace) : Question → Answer
  | .summary => .numbers w.files.length w.symbols.length
  | .index => .index (Index.build w.symbols w.rootImports)
  | .symbols => .symbols w.symbols
  | .files => .files w.files
  | .fileSymbols path => .symbols ((w.file? path).elim [] (·.symbols))
  | .rootImports path => .imports ((w.file? path).elim [] (·.imports))
  | .checkFile path =>
      .diagnostics ((w.file? path).elim [] fun file =>
        file.faults ++ (w.findings.lookup path).getD [])
  | .markDiagnosed | .markExported => .done

def phase (before : Phase) : Question → Phase
  | .markDiagnosed => .diagnosed
  | .markExported => .exported
  | _ => before

end Question

namespace Session

/-- The session after a request; where the request fails, after what it did before. -/
def serve (session : Session) : Request → Session
  | .load path text isLibrary => (outcome (load path text isLibrary) session).2
  | .loadModel symbols source => (outcome (loadModel symbols source) session).2
  | .applyEntries entries => (outcome (applyEntries entries) session).2
  | .reindex => (outcome reindex session).2
  | .ask question => (outcome question.ask session).2
  | .search run => (outcome (search run) session).2

def served (requests : List Request) : Session :=
  requests.foldl serve {}

end Session

namespace Request

/-- The request changes what is loaded: it loads a file, or gives an id. -/
def changes (session : Session) : Request → Bool
  | .load _ _ _ | .loadModel _ _ => true
  | .applyEntries entries =>
      match (outcome (Session.applyEntries entries) session).1 with
      | .ok count => count != 0
      | .error _ => false
  | .reindex | .ask _ | .search _ => false

/-- The index can be built if it is to be, and entries that are refused have given no id. -/
def Fits (session : Session) : Request → Prop
  | .reindex => ∃ later, outcome Session.reindex session = (.ok ⟨⟩, later)
  | .applyEntries entries => ∀ failure later,
      session.workspace.applyEntries entries = (.error failure, later) → later = session.workspace
  | _ => True

def Indexed (requests : List Request) : Prop :=
  ∃ earlier later, requests = earlier ++ .reindex :: later ∧
    ∀ before request after, later = before ++ request :: after →
      request.changes (Session.served (earlier ++ .reindex :: before)) = false

def Smooth (requests : List Request) : Prop :=
  ∀ before request after, requests = before ++ request :: after →
    request.Fits (Session.served before)

end Request

namespace Workspace

variable {w : Workspace}

/-- The index is over what is loaded, and what was found is what a check of all files finds. -/
structure Fresh (w : Workspace) : Prop where
  index : w.index = some (Index.build w.symbols w.rootImports)
  findings : ∃ memo, outcome w.checking [] = (.ok w.findings, memo)

theorem Checked.fresh (checked : w.Checked) : w.Fresh :=
  ⟨checked.found, w.memo, checked.check⟩

/-- A search leaves the index fresh. -/
theorem Fresh.searched (fresh : w.Fresh) (memo : Memo) : Fresh { w with memo } :=
  ⟨fresh.index, fresh.findings⟩

/-- Pins are counted from where the count starts, and where none is counted none changes
anything. -/
theorem applyPinsFrom_total {pins : List Pin} {count total : Nat} {later : Workspace}
    (ran : w.applyPinsFrom count pins = (.ok total, later)) :
    count ≤ total ∧ (total = count → later = w) := by
  induction pins generalizing w count with
  | nil =>
    cases ran
    exact ⟨Nat.le_refl _, fun _ => rfl⟩
  | cons pin rest ih =>
    rw [applyPinsFrom] at ran
    split at ran
    · cases ran
    · next between applied first =>
      obtain ⟨more, unchanged⟩ := ih ran
      cases applied with
      | true =>
        rw [if_pos rfl] at more
        exact ⟨by omega, fun same => (by omega)⟩
      | false =>
        rw [if_neg Bool.false_ne_true] at more unchanged
        refine ⟨more, fun same => (unchanged same).trans ?_⟩
        obtain ⟨changed?, _, first⟩ := result_bind_ok first
        cases changed? with
        | none =>
          cases first
          rfl
        | some changed => cases first

/-- Entries that give no id change nothing. -/
theorem applyEntries_none {entries : List Value} {later : Workspace}
    (ran : w.applyEntries entries = (.ok 0, later)) : later = w := by
  unfold applyEntries at ran
  split at ran
  · cases ran
  · split at ran
    · unfold applyPins at ran
      split at ran
      · cases ran
      · next pins _ count between applied =>
        obtain ⟨rfl, same⟩ : count = 0 ∧ between = later := by
          split at ran <;> cases ran
          · next isZero => exact ⟨rfl, rfl⟩
          · next notZero => exact absurd rfl notZero
        exact same ▸ (applyPinsFrom_total applied).2 rfl
    · split at ran <;> cases ran

end Workspace

namespace Session

variable {session : Session}

theorem outcome_refused {α : Type} (refused : session.isReady = false) (operation : String)
    (next : Unit → Operation α) :
    outcome (require operation >>= next) session =
      (.error (.wrongPhase operation session.phase), session) := by
  refine outcome_bind_of_error ?_
  unfold require
  rw [outcome_bind_of_ok (outcome_get session), refused]
  rfl

theorem outcome_applyEntries (entries : List Value) (session : Session) :
    outcome (applyEntries entries) session =
      match session.workspace.applyEntries entries with
      | (.error failure, later) => (.error failure, { session with workspace := later })
      | (.ok count, later) =>
          (.ok count,
            if count = 0 then { session with workspace := later }
            else touched { session with workspace := later }) := by
  unfold applyEntries
  rw [outcome_bind, outcome_onWorkspace]
  rcases session.workspace.applyEntries entries with ⟨failure | count, later⟩
  · rfl
  · by_cases isZero : count = 0
    · subst isZero
      rfl
    · dsimp only
      rw [if_pos isZero, if_neg isZero]
      rfl

/-- A session that is not ready refuses each question and stays as it was. -/
theorem outcome_ask_refused (refused : session.isReady = false) (question : Question) :
    outcome question.ask session =
      (.error (.wrongPhase question.operation session.phase), session) := by
  have index : outcome Session.index session =
      (.error (.wrongPhase "index" session.phase), session) := outcome_refused refused _ _
  cases question with
  | summary =>
    rw [Question.ask, outcome_map, summary, outcome_refused refused]
    rfl
  | index =>
    rw [Question.ask, outcome_map, index]
    rfl
  | symbols =>
    rw [Question.ask, outcome_map, symbols, outcome_bind_of_error index]
    rfl
  | files =>
    rw [Question.ask, outcome_map, files, outcome_refused refused]
    rfl
  | fileSymbols path =>
    rw [Question.ask, outcome_map, fileSymbols, outcome_refused refused]
    rfl
  | rootImports path =>
    rw [Question.ask, outcome_map, rootImports, outcome_refused refused]
    rfl
  | checkFile path =>
    rw [Question.ask, outcome_map, checkFile, outcome_refused refused]
    rfl
  | markDiagnosed =>
    rw [Question.ask, outcome_map, markDiagnosed, outcome_refused refused]
    rfl
  | markExported =>
    rw [Question.ask, outcome_map, markExported, outcome_refused refused]
    rfl

theorem outcome_currentIndex (fresh : session.workspace.Fresh) :
    outcome (onWorkspace Workspace.currentIndex) session =
      (.ok (Index.build session.workspace.symbols session.workspace.rootImports), session) := by
  rw [outcome_onWorkspace, Workspace.currentIndex, fresh.index]

theorem outcome_index_fresh (ready : session.isReady = true) (fresh : session.workspace.Fresh) :
    outcome Session.index session =
      (.ok (Index.build session.workspace.symbols session.workspace.rootImports), session) := by
  unfold Session.index
  rw [outcome_bind_of_ok (outcome_require ready _), outcome_currentIndex fresh]

/-- A session with a fresh index answers each question from it, and at most its phase changes. -/
theorem outcome_ask_ready (ready : session.isReady = true) (fresh : session.workspace.Fresh)
    (question : Question) :
    outcome question.ask session =
      (.ok (question.answer session.workspace),
        { session with phase := question.phase session.phase }) := by
  have index := outcome_index_fresh ready fresh
  cases question with
  | summary =>
    rw [Question.ask, outcome_map, summary, outcome_bind_of_ok (outcome_require ready _),
      outcome_bind_of_ok (outcome_get session), outcome_bind_of_ok (outcome_currentIndex fresh)]
    rfl
  | index =>
    rw [Question.ask, outcome_map, index]
    rfl
  | symbols =>
    rw [Question.ask, outcome_map, symbols, outcome_bind_of_ok index]
    rfl
  | files =>
    rw [Question.ask, outcome_map, outcome_files ready]
    rfl
  | fileSymbols path =>
    rw [Question.ask, outcome_map, fileSymbols, outcome_bind_of_ok (outcome_require ready _),
      outcome_bind_of_ok (outcome_get session)]
    rfl
  | rootImports path =>
    rw [Question.ask, outcome_map, rootImports, outcome_bind_of_ok (outcome_require ready _),
      outcome_bind_of_ok (outcome_get session)]
    rfl
  | checkFile path =>
    rw [Question.ask, outcome_map, checkFile, outcome_bind_of_ok (outcome_require ready _),
      outcome_onWorkspace, Workspace.checkFile, Question.answer]
    cases session.workspace.file? path with
    | none => rfl
    | some file =>
      dsimp only
      rw [Workspace.currentIndex, fresh.index]
      rfl
  | markDiagnosed =>
    rw [Question.ask, outcome_map, markDiagnosed, outcome_bind_of_ok (outcome_require ready _)]
    rfl
  | markExported =>
    rw [Question.ask, outcome_map, markExported, outcome_bind_of_ok (outcome_require ready _)]
    rfl

/-- A search leaves a session as it was, but for what is remembered of it. -/
theorem outcome_search (run : Index → Search Unit) {session : Session}
    (fresh : session.isReady = true → session.workspace.Fresh) :
    ∃ memo, (outcome (search run) session).2 =
      { session with workspace := { session.workspace with memo } } := by
  cases ready : session.isReady with
  | false =>
    have refused : outcome Session.index session =
        (.error (.wrongPhase "index" session.phase), session) := outcome_refused ready _ _
    rw [search, outcome_bind_of_error refused]
    exact ⟨session.workspace.memo, rfl⟩
  | true =>
    rw [search, outcome_bind_of_ok (outcome_index_fresh ready (fresh ready)), outcome_onWorkspace,
      Workspace.search_eq]
    exact ⟨_, rfl⟩

end Session

namespace Request

variable {requests : List Request} {last : Request}

theorem served_concat (requests : List Request) (last : Request) :
    Session.served (requests ++ [last]) = (Session.served requests).serve last := by
  rw [Session.served, List.foldl_append]
  rfl

/-- The last request builds the index, or else changes nothing that it was built over. -/
theorem indexed_concat : Indexed (requests ++ [last]) ↔
    last = .reindex ∨ Indexed requests ∧ last.changes (Session.served requests) = false := by
  constructor
  · rintro ⟨earlier, later, same, unchanged⟩
    rcases List.eq_nil_or_concat later with rfl | ⟨others, final, rfl⟩
    · obtain ⟨rfl, isLast⟩ := List.append_inj' same rfl
      exact .inl (List.cons.inj isLast).1
    · rw [List.concat_eq_append] at same unchanged
      rw [← List.cons_append, ← List.append_assoc] at same
      obtain ⟨rfl, isLast⟩ := List.append_inj' same rfl
      obtain rfl := (List.cons.inj isLast).1
      refine .inr ⟨⟨earlier, others, rfl, fun before request after split => ?_⟩, ?_⟩
      · refine unchanged before request (after ++ [last]) ?_
        rw [split, List.append_assoc, List.cons_append]
      · exact unchanged others last [] rfl
  · rintro (rfl | ⟨⟨earlier, later, rfl, unchanged⟩, unchangedLast⟩)
    · exact ⟨requests, [], rfl, fun before _ _ split => (by simp at split)⟩
    · refine ⟨earlier, later ++ [last], by rw [List.append_assoc, List.cons_append], ?_⟩
      intro before request after split
      rcases List.eq_nil_or_concat after with rfl | ⟨others, final, rfl⟩
      · obtain ⟨rfl, isLast⟩ := List.append_inj' split rfl
        obtain rfl := (List.cons.inj isLast).1
        exact unchangedLast
      · rw [List.concat_eq_append, ← List.cons_append, ← List.append_assoc] at split
        obtain ⟨rfl, _⟩ := List.append_inj' split rfl
        exact unchanged before request others rfl

theorem smooth_nil : Smooth [] := by
  intro before request after split
  simp at split

theorem smooth_concat :
    Smooth (requests ++ [last]) ↔ Smooth requests ∧ last.Fits (Session.served requests) := by
  constructor
  · intro smooth
    refine ⟨fun before request after split => ?_, smooth requests last [] rfl⟩
    refine smooth before request (after ++ [last]) ?_
    rw [split, List.append_assoc, List.cons_append]
  · rintro ⟨smooth, fits⟩ before request after split
    rcases List.eq_nil_or_concat after with rfl | ⟨others, final, rfl⟩
    · obtain ⟨rfl, isLast⟩ := List.append_inj' split rfl
      obtain rfl := (List.cons.inj isLast).1
      exact fits
    · rw [List.concat_eq_append, ← List.cons_append, ← List.append_assoc] at split
      obtain ⟨rfl, _⟩ := List.append_inj' split rfl
      exact smooth before request others rfl

theorem Smooth.push {whole : List Request} (smooth : Smooth requests)
    (same : whole = requests ++ [last]) (fits : last.Fits (Session.served requests)) :
    Smooth whole :=
  same ▸ smooth_concat.mpr ⟨smooth, fits⟩

end Request

namespace Session

variable {session : Session}

/-- What holds between requests: a session is ready or not as the given proposition says, and if
it is, its index is fresh. -/
structure Tracks (indexed : Prop) (session : Session) : Prop where
  ready : session.isReady = true ↔ indexed
  fresh : session.isReady = true → session.workspace.Fresh
  dirty : session.isDirty = true ↔ session.phase = .loading

theorem tracks_touched (workspace : Workspace) : Tracks False (touched { session with workspace }) where
  ready := by simp [isReady, touched]
  fresh isReady := by cases isReady
  dirty := by simp [touched]

theorem Tracks.congr {indexed other : Prop} (tracks : Tracks indexed session)
    (same : indexed ↔ other) : Tracks other session :=
  ⟨tracks.ready.trans same, tracks.fresh, tracks.dirty⟩

theorem Tracks.rebuilt {indexed : Prop} (tracks : Tracks indexed session) {later : Session}
    (ran : outcome reindex session = (.ok ⟨⟩, later)) : Tracks True later := by
  rw [outcome_reindex] at ran
  split at ran
  · next isEmpty =>
    split at ran
    · next index workspace built =>
      cases ran
      have clean : session.isDirty ≠ true := fun isDirty => by
        rw [tracks.dirty.mp isDirty] at isEmpty
        cases isEmpty
      refine ⟨⟨fun _ => trivial, fun _ => rfl⟩, fun _ => (Workspace.checked_rebuild built).1.fresh, ?_⟩
      exact ⟨fun isDirty => absurd isDirty clean, fun isLoading => (by cases isLoading)⟩
    · cases ran
  · next notEmpty =>
    split at ran
    · split at ran
      · next index workspace built =>
        cases ran
        refine ⟨⟨fun _ => trivial, fun _ => rfl⟩, fun _ => (Workspace.checked_rebuild built).1.fresh, ?_⟩
        exact ⟨fun isDirty => (by cases isDirty), fun isLoading => (by cases isLoading)⟩
      · cases ran
    · next clean =>
      cases ran
      have ready : session.isReady = true := by
        have notLoading : session.phase ≠ .loading := fun isLoading =>
          clean (tracks.dirty.mpr isLoading)
        unfold isReady
        split
        · next isEmpty => exact absurd isEmpty notEmpty
        · next isLoading => exact absurd isLoading notLoading
        all_goals rfl
      exact ⟨⟨fun _ => trivial, fun _ => ready⟩, tracks.fresh, tracks.dirty⟩

theorem ne_loading_of_ready (ready : session.isReady = true) : session.phase ≠ .loading := by
  intro isLoading
  rw [isReady, isLoading] at ready
  cases ready

theorem isReady_answered (ready : session.isReady = true) (question : Question) :
    isReady { session with phase := question.phase session.phase } = true := by
  cases question with
  | markDiagnosed => rfl
  | markExported => rfl
  | _ => exact ready

theorem Tracks.answered {indexed : Prop} (tracks : Tracks indexed session) (question : Question) :
    Tracks indexed (outcome question.ask session).2 := by
  cases ready : session.isReady with
  | false =>
    rw [outcome_ask_refused ready]
    exact tracks
  | true =>
    rw [outcome_ask_ready ready (tracks.fresh ready)]
    have readyToo := isReady_answered ready question
    have clean : session.isDirty ≠ true := fun isDirty =>
      ne_loading_of_ready ready (tracks.dirty.mp isDirty)
    refine ⟨?_, fun _ => tracks.fresh ready, ?_⟩
    · exact ⟨fun _ => tracks.ready.mp ready, fun _ => readyToo⟩
    · exact ⟨fun isDirty => absurd isDirty clean,
        fun isLoading => absurd isLoading (ne_loading_of_ready readyToo)⟩

/-- What a request makes of a session that is tracked. -/
theorem Tracks.serve {indexed : Prop} (tracks : Tracks indexed session) {request : Request}
    (fits : request.Fits session) :
    Tracks (request = .reindex ∨ indexed ∧ request.changes session = false)
      (session.serve request) := by
  cases request with
  | load path text isLibrary =>
    exact (tracks_touched _).congr (by simp [Request.changes])
  | loadModel symbols source =>
    exact (tracks_touched _).congr (by simp [Request.changes])
  | applyEntries entries =>
    simp only [Session.serve, Request.changes, outcome_applyEntries]
    rcases applied : session.workspace.applyEntries entries with ⟨failure | count, later⟩
    · obtain rfl := fits failure later applied
      exact tracks.congr (by simp)
    · by_cases isZero : count = 0
      · subst isZero
        obtain rfl := Workspace.applyEntries_none applied
        exact tracks.congr (by simp)
      · dsimp only
        rw [if_neg isZero]
        exact (tracks_touched later).congr (by simp [isZero])
  | reindex =>
    obtain ⟨later, ran⟩ := fits
    rw [Session.serve, ran]
    exact (tracks.rebuilt ran).congr (by simp)
  | ask question => exact (tracks.answered question).congr (by simp [Request.changes])
  | search run =>
    obtain ⟨memo, same⟩ := outcome_search run tracks.fresh
    rw [Session.serve, same]
    have searched : Tracks indexed { session with workspace := { session.workspace with memo } } :=
      ⟨tracks.ready, fun ready => (tracks.fresh ready).searched memo, tracks.dirty⟩
    exact searched.congr (by simp [Request.changes])

/-- What is tracked through any requests that fit. -/
theorem tracks_served {requests : List Request} (smooth : Request.Smooth requests) :
    Tracks (Request.Indexed requests) (served requests) := by
  induction requests using List.reverseRecOn with
  | nil =>
    refine ⟨⟨fun ready => (by cases ready), ?_⟩, fun ready => (by cases ready), ?_⟩
    · rintro ⟨earlier, later, same, _⟩
      simp at same
    · exact ⟨fun isDirty => (by cases isDirty), fun isLoading => (by cases isLoading)⟩
  | append_singleton requests last ih =>
    obtain ⟨smooth, fits⟩ := Request.smooth_concat.mp smooth
    rw [Request.served_concat]
    exact ((ih smooth).serve fits).congr Request.indexed_concat.symm

/-- After any requests of which none fails halfway: a question is refused, and nothing else
happens, exactly while the index was not built since the latest change; else it is answered from
an index over what is loaded and from a check of it. -/
theorem ask_fresh (requests : List Request) (smooth : Request.Smooth requests)
    (question : Question) :
    (Request.Indexed requests →
      (served requests).workspace.Fresh ∧
        outcome question.ask (served requests) =
          (.ok (question.answer (served requests).workspace),
            { served requests with phase := question.phase (served requests).phase })) ∧
      (¬ Request.Indexed requests →
        outcome question.ask (served requests) =
          (.error (.wrongPhase question.operation (served requests).phase), served requests)) := by
  have tracks := tracks_served smooth
  constructor
  · intro indexed
    have ready := tracks.ready.mpr indexed
    exact ⟨tracks.fresh ready, outcome_ask_ready ready (tracks.fresh ready) question⟩
  · intro stale
    exact outcome_ask_refused (Bool.eq_false_iff.mpr fun ready => stale (tracks.ready.mp ready))
      question

/-- An entry that gives an id to a definition, and one that nothing can be looked up by. -/
def halfway : List Value :=
  [.map [(.text "id", .text "x"), (.text "qualifiedName", .text "A")],
    .map [(.text "id", .text "y"), (.text "qualifiedName", .list [])]]

/-- A definition that is checked, given an id, and checked again. -/
def revised : List Request :=
  [.load "m.sysml" "part def A :> B;" false, .reindex, .ask (.checkFile "m.sysml"),
    .applyEntries (halfway.take 1), .ask .markDiagnosed, .reindex]

theorem revised_indexed : Request.Indexed revised :=
  ⟨revised.take 5, [], rfl, fun before _ _ split => (by simp at split)⟩

theorem revised_smooth : Request.Smooth revised := by
  have reindexes (requests : List Request)
      (built : (outcome reindex (served requests)).1.toOption.isSome = true) :
      Request.Fits (served requests) .reindex := by
    rcases ran : outcome reindex (served requests) with ⟨failure | done, later⟩
    · rw [ran] at built
      cases built
    · exact ⟨later, ran⟩
  have entries : Request.Fits (served (revised.take 3)) (.applyEntries (halfway.take 1)) := by
    intro failure later refused
    have applied : ((served (revised.take 3)).workspace.applyEntries
        (halfway.take 1)).1.toOption.isSome = true := by decide +kernel
    rw [refused] at applied
    cases applied
  have loaded : Request.Smooth (revised.take 1) := Request.smooth_nil.push rfl trivial
  have built : Request.Smooth (revised.take 2) := loaded.push rfl (reindexes _ (by decide +kernel))
  have asked : Request.Smooth (revised.take 3) := built.push rfl trivial
  have given : Request.Smooth (revised.take 4) := asked.push rfl entries
  have refused : Request.Smooth (revised.take 5) := given.push rfl trivial
  exact refused.push rfl (reindexes _ (by decide +kernel))

theorem ask_fresh_revised :
    Request.Smooth revised ∧ Request.Indexed revised ∧
      (served revised).workspace.Fresh ∧
      outcome (Question.ask (.checkFile "m.sysml")) (served revised) =
        (.ok (Question.answer (served revised).workspace (.checkFile "m.sysml")),
          { served revised with phase := (served revised).phase }) :=
  ⟨revised_smooth, revised_indexed,
    (ask_fresh revised revised_smooth (.checkFile "m.sysml")).1 revised_indexed⟩

/-- Entries of which the first gives an id and the second is refused: the session goes on to answer
from the index that was built before, where the id is not known. -/
theorem torn_entries_answered :
    let session := served [.load "m.sysml" "part def A;" false, .reindex, .applyEntries halfway]
    (session.workspace.symbols.any fun symbol => symbol.elementId == some (.text "x")) = true ∧
      (outcome Session.index session).1.toOption.map
          (fun index => (index.lookupId (.text "x")).isSome) = some false ∧
      ((Index.build session.workspace.symbols session.workspace.rootImports).lookupId
        (.text "x")).isSome = true := by
  decide +kernel

end Session

end Sysml
