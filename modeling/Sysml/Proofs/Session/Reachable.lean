import Sysml.Document.Import
import Sysml.Proofs.Workspace.Tidy

/-!
# Reachable sessions

What holds of a session after any changes, whether they succeeded or not: its
workspace is tidy, and while the session is ready its index is current.

A document without problems is taken in in stages: the index is built, the elements are bound or
become symbols, the relationships are added to these, and the symbols are loaded and checked.
Only the last stage (`takeIn`) replaces files of the workspace.
-/

set_option autoImplicit false

namespace Sysml

inductive Change where
  | load (path text : String) (isLibrary : Bool)
  | loadModel (symbols : List Symbol) (source : String)
  | applyEntries (entries : List Value)
  | importDocument (document : Document) (source : String)
  | reindex

namespace Session

/-- The session after a change; where the change fails, after what it did before. -/
def change (session : Session) : Change → Session
  | .load path text isLibrary => (outcome (load path text isLibrary) session).2
  | .loadModel symbols source => (outcome (loadModel symbols source) session).2
  | .applyEntries entries => (outcome (applyEntries entries) session).2
  | .importDocument document source => (outcome (importDocument document source) session).2
  | .reindex => (outcome reindex session).2

def after (changes : List Change) : Session :=
  changes.foldl change {}

/-- The workspace is tidy, and the index is current when it may be asked. -/
structure Consistent (session : Session) : Prop where
  tidy : session.workspace.Tidy
  dirty : session.isDirty = true → session.phase = .loading
  current : session.isReady = true → ∃ index, session.workspace.Current index

theorem consistent_new : Consistent {} :=
  ⟨Workspace.tidy_empty, fun isDirty => (by cases isDirty), fun isReady => (by cases isReady)⟩

/-- An operation that leaves sessions consistent, whether it fails or not. -/
def Keeps {α : Type} (run : Operation α) : Prop :=
  ∀ session : Session, session.Consistent → (outcome run session).2.Consistent

section Sequencing

variable {α β : Type}

theorem keeps_pure (value : α) : Keeps (pure value : Operation α) :=
  fun _ consistent => consistent

theorem keeps_throw (failure : Failure) : Keeps (throw failure : Operation α) :=
  fun _ consistent => consistent

theorem keeps_ofExcept (result : Except Failure α) :
    Keeps (MonadExcept.ofExcept result : Operation α) := by
  intro session consistent
  rw [outcome_ofExcept]
  exact consistent

theorem Keeps.bind {run : Operation α} {next : α → Operation β} (first : Keeps run)
    (rest : ∀ value, Keeps (next value)) : Keeps (run >>= next) := by
  intro session consistent
  have between := first session consistent
  rw [outcome_bind]
  rcases ran : outcome run session with ⟨failure | value, later⟩ <;> rw [ran] at between
  · exact between
  · exact rest value later between

end Sequencing

theorem keeps_note (level : NoteLevel) (text : String) : Keeps (note level text) :=
  fun _ consistent => ⟨consistent.tidy, consistent.dirty, consistent.current⟩

theorem consistent_touched {session : Session} (tidy : session.workspace.Tidy) :
    session.touched.Consistent :=
  ⟨tidy, fun _ => rfl, fun isReady => (by cases isReady)⟩

theorem keeps_load (path text : String) (isLibrary : Bool) : Keeps (load path text isLibrary) := by
  intro session consistent
  exact consistent_touched (consistent.tidy.load path text isLibrary)

theorem keeps_loadModel (symbols : List Symbol) (source : String) :
    Keeps (loadModel symbols source) := by
  intro session consistent
  exact consistent_touched (consistent.tidy.loadModel symbols source)

/-- What an operation of the workspace does to a session. -/
theorem outcome_onWorkspace {α : Type} (run : Workspace → Except Failure α × Workspace)
    (session : Session) :
    outcome (onWorkspace run) session =
      ((run session.workspace).1, { session with workspace := (run session.workspace).2 }) := by
  unfold onWorkspace
  refine (outcome_bind_of_ok (outcome_get session)).trans ?_
  rcases run session.workspace with ⟨failure | value, later⟩ <;> rfl

theorem Consistent.steady {session : Session} (consistent : session.Consistent)
    {later : Workspace} (steady : Workspace.Steady session.workspace later) :
    Consistent { session with workspace := later } :=
  ⟨steady.tidy, consistent.dirty, fun isReady => steady.current (consistent.current isReady)⟩

theorem keeps_applyEntries (entries : List Value) : Keeps (applyEntries entries) := by
  intro session consistent
  obtain ⟨tidy, steady⟩ := Workspace.applyEntries_steady consistent.tidy entries
  unfold applyEntries
  rw [outcome_bind, outcome_onWorkspace]
  rcases ran : session.workspace.applyEntries entries with ⟨failure | count, later⟩ <;>
    rw [ran] at tidy steady
  · exact consistent.steady (steady fun _ same => (by cases same))
  · by_cases none_ : count = 0
    · subst none_
      exact consistent.steady (steady fun _ same => (Except.ok.inj same).symm)
    · dsimp only
      rw [if_pos none_]
      exact @consistent_touched { session with workspace := later } tidy

theorem outcome_reindex (session : Session) :
    outcome reindex session =
      if session.phase = .empty then
        match session.workspace.rebuild with
        | (.ok _, later) => (.ok ⟨⟩, { session with workspace := later, phase := .indexed })
        | (.error failure, later) => (.error failure, { session with workspace := later })
      else if session.isDirty then
        match session.workspace.rebuild with
        | (.ok _, later) =>
            (.ok ⟨⟩, { session with workspace := later, phase := .indexed, isDirty := false })
        | (.error failure, later) => (.error failure, { session with workspace := later })
      else (.ok ⟨⟩, session) := by
  unfold reindex
  refine (outcome_bind_of_ok (outcome_get session)).trans ?_
  split
  · rw [outcome_bind, outcome_onWorkspace]
    rcases session.workspace.rebuild with ⟨failure | index, later⟩ <;> rfl
  · refine (outcome_bind_of_ok (outcome_get session)).trans ?_
    split
    · rw [outcome_bind, outcome_onWorkspace]
      rcases session.workspace.rebuild with ⟨failure | index, later⟩ <;> rfl
    · rfl

theorem Consistent.clean {session : Session} (consistent : session.Consistent)
    (isEmpty : session.phase = .empty) : session.isDirty = false := by
  cases isDirty : session.isDirty with
  | false => rfl
  | true =>
    rw [consistent.dirty isDirty] at isEmpty
    cases isEmpty

/-- Where the index is stale it is built. -/
theorem Consistent.reindex_stale {session : Session} (consistent : session.Consistent)
    (stale : session.phase = .empty ∨ session.isDirty = true) :
    outcome reindex session =
      match session.workspace.rebuild with
      | (.ok _, later) =>
          (.ok ⟨⟩, { session with workspace := later, phase := .indexed, isDirty := false })
      | (.error failure, later) => (.error failure, { session with workspace := later }) := by
  rw [outcome_reindex]
  split
  · next isEmpty =>
    have clean := consistent.clean isEmpty
    rw [← clean]
  · next isOpen => rw [stale.resolve_left isOpen, if_pos rfl]

theorem keeps_reindex : Keeps reindex := by
  intro session consistent
  obtain ⟨tidy, current⟩ := consistent.tidy.rebuild
  rw [outcome_reindex]
  split
  · next isEmpty =>
    have clean := consistent.clean isEmpty
    split
    · next index later built =>
      rw [built] at tidy current
      exact ⟨tidy, fun isDirty => (by simp [clean] at isDirty), fun _ => ⟨index, current index rfl⟩⟩
    · next failure later built =>
      rw [built] at tidy
      exact ⟨tidy, consistent.dirty, fun ready => (by simp [isReady, isEmpty] at ready)⟩
  · split
    · next isDirty =>
      split
      · next index later built =>
        rw [built] at tidy current
        exact ⟨tidy, fun isDirty => (by cases isDirty), fun _ => ⟨index, current index rfl⟩⟩
      · next failure later built =>
        rw [built] at tidy
        refine ⟨tidy, consistent.dirty, fun ready => ?_⟩
        simp [isReady, consistent.dirty isDirty] at ready
    · exact consistent

theorem currentIndex_of_current {session : Session} {index : Scope.Index}
    (current : session.workspace.Current index) :
    session.workspace.currentIndex = (.ok index, session.workspace) := by
  rw [Workspace.currentIndex, current.found]

/-- In a consistent session the index is given as it is. -/
theorem outcome_index {session : Session} (consistent : session.Consistent) :
    outcome index session =
      if session.isReady then
        ((session.workspace.currentIndex).1, session)
      else (.error (.wrongPhase "index" session.phase), session) := by
  unfold index
  rw [outcome_bind]
  unfold require
  rw [outcome_bind_of_ok (outcome_get session)]
  cases ready : session.isReady with
  | false => rfl
  | true =>
    obtain ⟨index, current⟩ := consistent.current ready
    change outcome (onWorkspace Workspace.currentIndex) session = _
    rw [outcome_onWorkspace, currentIndex_of_current current]
    rfl

theorem keeps_index : Keeps index := by
  intro session consistent
  rw [outcome_index consistent]
  split <;> exact consistent

theorem keeps_pin (serial : Nat) (id : Key) :
    Keeps (modify fun session =>
      { session with workspace := session.workspace.pin serial id }) := by
  intro session consistent
  exact consistent.steady (consistent.tidy.pin serial id)

theorem keeps_takeElements (document : Document) (source : String) (index : Scope.Index)
    (taken : Document.Elements) (records : List Record) :
    Keeps (document.takeElements source index taken records) := by
  induction records generalizing taken with
  | nil => exact keeps_pure _
  | cons record rest ih =>
    simp only [Document.takeElements]
    split
    · exact ih taken
    · refine (keeps_ofExcept _).bind fun name => ?_
      refine Keeps.bind (fun session consistent => ?_) fun twin? => ?_
      · exact (outcome_liftM (Document.loadedTwin? index record name) session).symm ▸ consistent
      · cases twin? with
        | some twin => exact (keeps_pin _ _).bind fun _ => ih _
        | none => exact (keeps_ofExcept _).bind fun _ => ih _

theorem keeps_importDocument (document : Document) (source : String) :
    Keeps (importDocument document source) := by
  unfold importDocument
  dsimp only
  split
  · exact keeps_throw _
  · refine keeps_reindex.bind fun _ => keeps_index.bind fun index => ?_
    refine (keeps_takeElements document source index _ _).bind fun taken => ?_
    refine (keeps_ofExcept _).bind fun attached => ?_
    obtain ⟨symbols, skipped⟩ := attached
    have rest (result : ImportResult) : Keeps (do
        loadModel symbols source
        reindex
        note .info "Loaded symbols into workspace with preserved element IDs"
        return result) :=
      (keeps_loadModel _ _).bind fun _ => keeps_reindex.bind fun _ =>
        (keeps_note _ _).bind fun _ => keeps_pure _
    dsimp only
    split
    · exact (keeps_note _ _).bind fun _ => rest _
    · exact rest _

/-- Every change keeps a session consistent. -/
theorem Consistent.change {session : Session} (consistent : session.Consistent)
    (change : Change) : (session.change change).Consistent := by
  cases change with
  | load path text isLibrary => exact keeps_load path text isLibrary session consistent
  | loadModel symbols source => exact keeps_loadModel symbols source session consistent
  | applyEntries entries => exact keeps_applyEntries entries session consistent
  | importDocument document source =>
    exact keeps_importDocument document source session consistent
  | reindex => exact keeps_reindex session consistent

/-- So a session is consistent after any changes. -/
theorem after_consistent (changes : List Change) : (after changes).Consistent := by
  have from_ (session : Session) (consistent : session.Consistent) :
      (changes.foldl Session.change session).Consistent := by
    induction changes generalizing session with
    | nil => exact consistent
    | cons first rest ih => exact ih _ (consistent.change first)
  exact from_ {} consistent_new

end Session

end Sysml

/-! ## The stages of an import -/

namespace Sysml.Session

/-- The last stage of an import: the symbols are loaded and checked. -/
def takeIn (symbols : List Symbol) (source : String) (result : ImportResult) :
    Operation ImportResult := do
  loadModel symbols source
  reindex
  note .info "Loaded symbols into workspace with preserved element IDs"
  return result

def told (document : Document) (symbols : List Symbol) : ImportResult :=
  { document.validate with messages := [], symbolCount := symbols.length }

/-- What an import does once it has an index. -/
def bindAll (document : Document) (source : String) (index : Scope.Index) :
    Operation ImportResult := do
  let taken ← document.takeElements source index ⟨[], document.externalRefs⟩ document.records
  let (symbols, skipped) ← MonadExcept.ofExcept
    (Document.attachAll taken.names taken.symbols 0 document.relationships)
  if skipped ≠ 0 then
    note .warning ("Skipped " ++ toString skipped ++
      " relationships without a supported kind or source")
  takeIn symbols source (told document symbols)

def warned (session : Session) (skipped : Nat) : Session :=
  if skipped ≠ 0 then
    { session with
      notes := session.notes ++ [⟨.warning, "Skipped " ++ toString skipped ++
        " relationships without a supported kind or source"⟩] }
  else session

@[simp] theorem warned_workspace (session : Session) (skipped : Nat) :
    (session.warned skipped).workspace = session.workspace := by
  unfold warned
  split <;> rfl

variable {document : Document} {source : String} {session ready pinned : Session}
  {index : Scope.Index} {taken : Document.Elements} {symbols : List Symbol} {skipped : Nat}

theorem outcome_takeIn (symbols : List Symbol) (source : String) (result : ImportResult)
    (session : Session) :
    outcome (takeIn symbols source result) session =
      match (session.workspace.loadModel symbols source).rebuild with
      | (.ok _, later) =>
          (.ok result, { session with
            workspace := later, phase := .indexed, isDirty := false
            notes := session.notes ++
              [⟨.info, "Loaded symbols into workspace with preserved element IDs"⟩] })
      | (.error failure, later) =>
          (.error failure, { session with workspace := later, phase := .loading, isDirty := true }) := by
  have loaded : outcome (loadModel symbols source) session =
      (.ok ⟨⟩, { session with
        workspace := session.workspace.loadModel symbols source, phase := .loading,
        isDirty := true }) := rfl
  unfold takeIn
  rw [outcome_bind_of_ok loaded, outcome_bind, outcome_reindex, if_neg nofun, if_pos rfl]
  dsimp only
  rcases (session.workspace.loadModel symbols source).rebuild with ⟨failure | index, later⟩ <;> rfl

/-- Building the index leaves the files. -/
theorem reindex_files (session : Session) :
    (outcome reindex session).2.workspace.files = session.workspace.files := by
  have files := (Workspace.rebuild_files session.workspace).1
  rw [outcome_reindex]
  split
  · rcases built : session.workspace.rebuild with ⟨failure | index, later⟩ <;> rw [built] at files
    · exact files
    · exact files
  · split
    · rcases built : session.workspace.rebuild with ⟨failure | index, later⟩ <;> rw [built] at files
      · exact files
      · exact files
    · rfl

/-- A document with problems is not taken in at all. -/
theorem importDocument_invalid (invalid : document.problems ≠ []) (source : String)
    (session : Session) :
    ∃ failure, outcome (importDocument document source) session = (.error failure, session) := by
  have isInvalid : (!document.validate.messages.isEmpty) = true := by
    simpa [Document.validate] using invalid
  unfold importDocument
  dsimp only
  rw [if_pos isInvalid]
  exact ⟨_, rfl⟩

/-- A document without problems is taken in by the index. -/
theorem importDocument_eq (valid : document.problems = []) (source : String) :
    importDocument document source = (do
      reindex
      let index ← Session.index
      bindAll document source index) := by
  have noMessages : document.validate.messages = [] := valid
  unfold importDocument
  dsimp only
  rw [noMessages]
  rfl

/-- Once all elements and relationships were taken in, the last stage is left. -/
theorem outcome_bindAll
    (took : outcome (document.takeElements source index ⟨[], document.externalRefs⟩
      document.records) ready = (.ok taken, pinned))
    (attached : Document.attachAll taken.names taken.symbols 0 document.relationships =
      .ok (symbols, skipped)) :
    outcome (bindAll document source index) ready =
      outcome (takeIn symbols source (told document symbols)) (pinned.warned skipped) := by
  have attaches : outcome (MonadExcept.ofExcept (Document.attachAll taken.names taken.symbols 0
      document.relationships) : Operation (List Symbol × Nat)) pinned =
      (.ok (symbols, skipped), pinned) := by
    rw [outcome_ofExcept, attached]
  unfold bindAll
  rw [outcome_bind_of_ok took, outcome_bind_of_ok attaches]
  unfold warned
  dsimp only
  split <;> rfl

/-- A document that was taken in went through all stages. -/
theorem importDocument_stages (consistent : session.Consistent) {result : ImportResult}
    {once : Session}
    (imported : outcome (importDocument document source) session = (.ok result, once)) :
    ∃ ready index taken pinned symbols skipped, document.problems = [] ∧
      outcome reindex session = (.ok ⟨⟩, ready) ∧ ready.Consistent ∧ ready.isReady = true ∧
      ready.workspace.Current index ∧
      outcome (document.takeElements source index ⟨[], document.externalRefs⟩ document.records)
        ready = (.ok taken, pinned) ∧
      Document.attachAll taken.names taken.symbols 0 document.relationships =
        .ok (symbols, skipped) ∧
      outcome (takeIn symbols source (told document symbols)) (pinned.warned skipped) =
        (.ok result, once) := by
  by_cases valid : document.problems = []
  · rw [importDocument_eq valid] at imported
    obtain ⟨_, ready, built, imported⟩ := outcome_bind_ok imported
    have readyConsistent : ready.Consistent := by
      have keeps := keeps_reindex session consistent
      rw [built] at keeps
      exact keeps
    obtain ⟨index, held, gives, imported⟩ := outcome_bind_ok imported
    rw [outcome_index readyConsistent] at gives
    split at gives
    · next isReady =>
      obtain ⟨known, current⟩ := readyConsistent.current isReady
      rw [currentIndex_of_current current] at gives
      cases gives
      have whole := imported
      obtain ⟨taken, pinned, took, imported⟩ := outcome_bind_ok imported
      obtain ⟨⟨symbols, skipped⟩, _, attaches, _⟩ := outcome_bind_ok imported
      rw [outcome_ofExcept] at attaches
      obtain ⟨attached, _⟩ := Prod.mk.inj attaches
      rw [outcome_bindAll took attached] at whole
      exact ⟨_, _, taken, pinned, symbols, skipped, valid, built, readyConsistent, isReady,
        current, took, attached, whole⟩
    · cases gives
  · obtain ⟨failure, failed⟩ := importDocument_invalid valid source session
    rw [failed] at imported
    cases imported

end Sysml.Session
