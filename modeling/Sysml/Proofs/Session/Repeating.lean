import Sysml.Proofs.Document.Adding
import Sysml.Proofs.Session.Export
import Sysml.Report

/-!
# Reading changes no export

What a session is asked for may make it remember more of what its index means, may count as a
diagnosis or an export, and may leave a note. The model stays as it is, and so a document that is
built again is the document that was built before (`buildDocument_repeats`).
-/

set_option autoImplicit false

/-!
## Composing again

A document is composed of what the index answers, and an answer that was stored is given again. So
composing goes the same way again on a draft that remembers more (`compose_repeats`).
-/

namespace Sysml

open Scope

theorem Scope.Memo.Known.refl (memo : Memo) : memo.Known memo :=
  fun _ _ known => known

theorem Scope.Memo.Known.trans {memo middle later : Memo} (first : memo.Known middle)
    (second : middle.Known later) : memo.Known later :=
  fun query found known => second query found (first query found known)

namespace Draft

/-- The draft remembers symbols of the index, and all that was remembered at the start. -/
structure Remembers (index : Index) (start : Memo) (draft : Draft) : Prop where
  within : draft.memo.Within index
  known : start.Known draft.memo

theorem Remembers.of_memo {index : Index} {start : Memo} {draft later : Draft}
    (remembers : Remembers index start draft) (same : later.memo = draft.memo) :
    Remembers index start later := by
  constructor
  · exact same ▸ remembers.within
  · exact same ▸ remembers.known

/-- A step that goes on remembering, and that goes the same way again where nothing is missing of
what was remembered after it. -/
structure Repeats (index : Index) (step : Drafting PUnit) : Prop where
  remembers : ∀ start, Ensures (Remembers index start) (fun _ => True) step
  again : ∀ {draft later : Draft}, draft.memo.Within index →
    outcome step draft = (.ok ⟨⟩, later) → ∀ {memo}, later.memo.Known memo →
      outcome step (draft.withMemo memo) = (.ok ⟨⟩, later.withMemo memo)

namespace Repeats

variable {index : Index} {step next : Drafting PUnit}

theorem done : Repeats index (pure ⟨⟩) := by
  constructor
  · exact fun _ => .pure trivial
  · intro draft later _ ran memo _
    cases ran
    rfl

theorem throw (failure : Failure) : Repeats index (MonadExcept.throw failure) := by
  constructor
  · exact fun _ => .throw failure
  · intro draft later _ ran
    cases ran

/-- After a step that is repeated another one is: what the first one remembered is still remembered
in the end. -/
theorem andThen (first : Repeats index step) (rest : Repeats index next) :
    Repeats index (do step; next) := by
  constructor
  · exact fun start => (first.remembers start).bind fun _ _ => rest.remembers start
  · intro draft later within ran memo known
    obtain ⟨_, middle, ranFirst, ranRest⟩ := outcome_bind_ok ran
    have inside : middle.memo.Within index := by
      have kept := (first.remembers draft.memo).keeps ⟨within, .refl _⟩
      rw [ranFirst] at kept
      exact kept.within
    have grows : middle.memo.Known later.memo := by
      have kept := (rest.remembers middle.memo).keeps ⟨inside, .refl _⟩
      rw [ranRest] at kept
      exact kept.known
    rw [outcome_bind_of_ok (first.again within ranFirst (grows.trans known))]
    exact rest.again inside ranRest known

theorem forM {α : Type} {items : List α} {each : α → Drafting PUnit}
    (steps : ∀ item, Repeats index (each item)) : Repeats index (items.forM each) := by
  induction items with
  | nil => exact done
  | cons item rest ih => exact (steps item).andThen ih

/-- A change that neither looks at what is remembered nor touches it. -/
theorem changes {change : Draft → Draft}
    (apart : ∀ draft memo, change (draft.withMemo memo) = (change draft).withMemo memo) :
    Repeats index (modify change) := by
  constructor
  · intro start
    apply Ensures.changes
    intro draft remembers
    apply remembers.of_memo
    have same := apart draft draft.memo
    rw [withMemo_eq rfl] at same
    rw [same]
    rfl
  · intro draft later _ ran memo _
    cases ran
    rw [outcome_modify, apart]

/-- Going on by what a draft has besides what it remembers. -/
theorem reads {next : Draft → Drafting PUnit} (apart : ∀ draft memo,
    next (draft.withMemo memo) = next draft) (rest : ∀ draft, Repeats index (next draft)) :
    Repeats index (get >>= next) := by
  constructor
  · exact fun start => Ensures.reads.bind fun draft _ => (rest draft).remembers start
  · intro draft later within ran memo known
    rw [outcome_bind_of_ok (outcome_get draft)] at ran
    rw [outcome_bind_of_ok (outcome_get _), apart]
    exact (rest draft).again within ran known

end Repeats

section Composing

variable {index : Index} {selfContained : Bool}

theorem addLink?_remembers (start : Memo) (provenance : String) (owner : Key)
    (link? : Option Link) :
    Ensures (Remembers index start) (fun _ => True)
      (addLink? index selfContained provenance owner link?) := by
  cases link? with
  | none => exact .pure trivial
  | some link =>
    constructor
    · exact fun _ _ => trivial
    · intro draft remembers
      rw [addLink?_some]
      cases added : addLink index selfContained provenance owner link draft with
      | error failure => exact remembers
      | ok later =>
        obtain ⟨id, _, rfl⟩ := addLink_ok added
        apply remembers.of_memo
        rw [add_memo, reach_memo]

variable (within : index.IdsWithin)

include within

/-- Whatever becomes of a search, what was remembered stays. -/
theorem search_remembers (start : Memo) (reference : Reference) (symbol : Symbol) :
    Ensures (Remembers index start) (fun _ => True)
      (search (resolveReference index reference symbol)) := by
  have behaves := resolveReference_behaves within reference symbol
  constructor
  · exact fun _ _ => trivial
  · intro draft remembers
    rw [outcome_search]
    constructor
    · exact behaves.within remembers.within
    · exact remembers.known.trans (behaves.grows remembers.within).known

theorem takeUp_remembers (start : Memo) (provenance : String) (symbol : Symbol) :
    Ensures (Remembers index start) (fun _ => True)
      (takeUp index selfContained provenance symbol) := by
  have each {α : Type} {items : List α} {step : α → Drafting PUnit}
      (steps : ∀ item, Ensures (Remembers index start) (fun _ => True) (step item)) :
      Ensures (Remembers index start) (fun _ => True) (items.forM step) := by
    induction items with
    | nil => exact .pure trivial
    | cons item rest ih => exact (steps item).bind fun _ _ => ih
  have adds (link? : Option Link) : Ensures (Remembers index start) (fun _ => True)
      (addLink? index selfContained provenance (idOf index symbol) link?) :=
    addLink?_remembers start provenance (idOf index symbol) link?
  have references : Ensures (Remembers index start) (fun _ => True)
      (symbol.references.forM (addReference index selfContained provenance symbol)) :=
    each fun reference => (search_remembers within start reference symbol).bind fun meant _ =>
      adds (reference.link? symbol meant)
  have imports : Ensures (Remembers index start) (fun _ => True)
      (symbol.imports.forM (addImport index selfContained provenance symbol)) :=
    each fun i => (Ensures.lift (resolveImport index i (some symbol.qualifiedName))).bind
      fun named _ => (Ensures.lift (i.link? symbol named)).bind fun link? _ => adds link?
  refine Ensures.reads.bind fun draft _ => ?_
  split
  · exact .pure trivial
  · refine (Ensures.changes fun draft remembers => ?_).bind fun _ _ => references.bind fun _ _ =>
      imports
    exact remembers.of_memo (declare_memo ..)

/-- A symbol is taken up again alike: what its references mean was remembered. -/
theorem takeUp_repeats (provenance : String) (symbol : Symbol) :
    Repeats index (takeUp index selfContained provenance symbol) := by
  constructor
  · exact fun start => takeUp_remembers within start provenance symbol
  · intro draft later inside ran memo known
    cases seen : draft.visited.contains symbol.serial with
    | true =>
      have isSeen : (draft.withMemo memo).visited.contains symbol.serial = true := seen
      rw [takeUp_outcome, seen] at ran
      cases ran
      rw [takeUp_outcome, isSeen]
      rfl
    | false =>
      obtain ⟨_, _, tells⟩ := takeUp_finds within inside seen ran
      obtain ⟨answered, added⟩ := tells memo known
      have begun : (draft.withMemo memo).begun index selfContained provenance symbol =
          (draft.begun index selfContained provenance symbol).withMemo memo :=
        declare_withMemo symbol { draft with visited := symbol.serial :: draft.visited } memo
      have unseen : (draft.withMemo memo).visited.contains symbol.serial = false := seen
      apply takeUp_ends within unseen answered
      rw [begun]
      exact added

theorem drain_repeats (fuel : Nat) : Repeats index (drain index selfContained fuel) := by
  induction fuel with
  | zero =>
    apply Repeats.reads (fun _ _ => rfl)
    intro draft
    split
    · exact .throw _
    · exact .done
  | succ fuel ih =>
    apply Repeats.reads (fun _ _ => rfl)
    intro draft
    split
    · exact .done
    · next symbol rest _ =>
      apply Repeats.andThen
      · exact .changes fun _ _ => rfl
      · exact (takeUp_repeats within Record.inlinedProvenance symbol).andThen ih

/-- A document is composed again alike. -/
theorem compose_repeats (symbols : List Symbol) :
    Repeats index (compose index selfContained symbols) := by
  apply Repeats.andThen
  · exact .forM fun symbol => takeUp_repeats within Record.modelProvenance symbol
  · apply Repeats.reads (fun _ _ => rfl)
    exact fun draft => drain_repeats within _

end Composing

end Draft

end Sysml

namespace Sysml

open Scope

/-- What a session may be asked for that changes nothing in its model. -/
inductive Reading where
  | resolve (query : Query)
  | resolveReference (reference : Reference) (symbol : Symbol)
  | checkFile (path : String)
  | analyze
  | outline
  | buildDocument (selfContained : Bool) (name : Value)

namespace Session

/-- The session after a reading; where the reading fails, after what it did before. -/
def consult (session : Session) : Reading → Session
  | .resolve query => (outcome (search fun index => resolve index query) session).2
  | .resolveReference reference symbol =>
      (outcome (search fun index => resolveReference index reference symbol) session).2
  | .checkFile path => (outcome (checkFile path) session).2
  | .analyze => (outcome Report.analyze session).2
  | .outline => (outcome Report.outline session).2
  | .buildDocument selfContained name => (outcome (buildDocument selfContained name) session).2

/-- The sessions that changes and readings lead to, in whatever order they come. -/
inductive Reached : Session → Prop where
  | new : Reached {}
  | change {session : Session} : Reached session → ∀ change, Reached (session.change change)
  | consult {session : Session} : Reached session → ∀ reading, Reached (session.consult reading)

/-- The second session has the model of the first and remembers all that was remembered. -/
structure Undisturbed (session later : Session) : Prop where
  workspace : later.workspace = { session.workspace with memo := later.workspace.memo }
  known : session.workspace.memo.Known later.workspace.memo
  ready : later.isReady = session.isReady
  consistent : later.Consistent

theorem Undisturbed.refl {session : Session} (consistent : session.Consistent) :
    Undisturbed session session :=
  ⟨rfl, .refl _, rfl, consistent⟩

theorem Undisturbed.trans {session middle later : Session} (first : Undisturbed session middle)
    (second : Undisturbed middle later) : Undisturbed session later := by
  constructor
  · rw [second.workspace, first.workspace]
  · exact first.known.trans second.known
  · exact second.ready.trans first.ready
  · exact second.consistent

/-- A ready session that remembers more. -/
theorem Consistent.remember {session : Session} {index : Index} (consistent : session.Consistent)
    (current : session.workspace.Current index) {memo : Memo} (within : memo.Within index)
    (known : session.workspace.memo.Known memo) :
    Undisturbed session { session with workspace := { session.workspace with memo } } := by
  constructor
  · rfl
  · exact known
  · rfl
  · constructor
    · exact consistent.tidy.of_files rfl rfl
    · exact consistent.dirty
    · exact fun _ => ⟨index, current.found, current.symbols, current.ids, within⟩

/-- An operation that leaves the model as it is, whether it fails or not. -/
def Looks {α : Type} (run : Operation α) : Prop :=
  ∀ session : Session, session.Consistent → Undisturbed session (outcome run session).2

namespace Looks

variable {α β : Type} {run : Operation α}

theorem pure (value : α) : Looks (Pure.pure value : Operation α) :=
  fun _ consistent => .refl consistent

theorem bind {next : α → Operation β} (first : Looks run) (rest : ∀ value, Looks (next value)) :
    Looks (run >>= next) := by
  intro session consistent
  have between := first session consistent
  rw [outcome_bind]
  rcases ran : outcome run session with ⟨failure | value, later⟩ <;> rw [ran] at between
  · exact between
  · exact between.trans (rest value later between.consistent)

theorem mapM {items : List α} {step : α → Operation β} (steps : ∀ item, Looks (step item)) :
    Looks (items.mapM step) := by
  induction items with
  | nil => exact pure []
  | cons item rest ih =>
    rw [List.mapM_cons]
    exact (steps item).bind fun first => ih.bind fun others => pure (first :: others)

theorem note (level : NoteLevel) (text : String) : Looks (Session.note level text) := by
  intro session consistent
  constructor
  · rfl
  · exact .refl _
  · rfl
  · exact keeps_note level text session consistent

/-- What is only done while the index is current has to be looked at for such sessions. -/
theorem require {operation : String} {next : Unit → Operation β}
    (rest : ∀ (session : Session) (index : Index), session.Consistent → session.isReady = true →
      session.workspace.Current index → Undisturbed session (outcome (next ()) session).2) :
    Looks (Session.require operation >>= next) := by
  intro session consistent
  cases ready : session.isReady with
  | false =>
    have refused : outcome (Session.require operation) session =
        (.error (.wrongPhase operation session.phase), session) := by
      unfold Session.require
      rw [outcome_bind_of_ok (outcome_get session), ready]
      rfl
    rw [outcome_bind_of_error refused]
    exact .refl consistent
  | true =>
    obtain ⟨index, current⟩ := consistent.current ready
    rw [outcome_bind_of_ok (outcome_require ready operation)]
    exact rest session index consistent ready current

/-- A mark of what was done with a ready session. -/
theorem mark {operation : String} {phase : Phase}
    (marks : ∀ session : Session, { session with phase }.isReady = true) :
    Looks (do
      Session.require operation
      modify fun session : Session => { session with phase }) := by
  apply require
  intro session index consistent ready current
  have clean : session.isDirty ≠ true := by
    intro isDirty
    unfold isReady at ready
    rw [consistent.dirty isDirty] at ready
    cases ready
  constructor
  · rfl
  · exact .refl _
  · exact (marks session).trans ready.symm
  · exact ⟨consistent.tidy, fun isDirty => absurd isDirty clean, fun _ => ⟨index, current⟩⟩

theorem currentIndex {session : Session} {index : Index}
    (current : session.workspace.Current index) :
    outcome (onWorkspace Workspace.currentIndex) session = (.ok index, session) := by
  rw [outcome_onWorkspace, currentIndex_of_current current]

/-- A search whatever it finds, and whether it ends or not. -/
theorem search {run : Index → Search (Option Symbol)}
    (behaves : ∀ index : Index, index.IdsWithin → Behaves index [] index.Has (run index)) :
    Looks (Session.search run) := by
  intro session consistent
  cases ready : session.isReady with
  | false =>
    have refused : outcome Session.index session =
        (.error (.wrongPhase "index" session.phase), session) := by
      rw [outcome_index consistent, ready]
      rfl
    rw [Session.search, outcome_bind_of_error refused]
    exact .refl consistent
  | true =>
    obtain ⟨index, current⟩ := consistent.current ready
    have gives : outcome Session.index session = (.ok index, session) := by
      rw [outcome_index consistent, ready, currentIndex_of_current current]
      rfl
    have searches := behaves index current.ids
    rw [Session.search, outcome_bind_of_ok gives, outcome_onWorkspace, Workspace.search_eq]
    exact consistent.remember current (searches.within current.memo)
      (searches.grows current.memo).known

theorem checkFile (path : String) : Looks (Session.checkFile path) := by
  apply require
  intro session index consistent ready current
  rw [outcome_onWorkspace, Workspace.checkFile]
  cases session.workspace.file? path with
  | none => exact .refl consistent
  | some file =>
    dsimp only
    rw [currentIndex_of_current current]
    exact .refl consistent

theorem files : Looks Session.files :=
  require fun _ _ consistent _ _ => .refl consistent

theorem fileSymbols (path : String) : Looks (Session.fileSymbols path) :=
  require fun _ _ consistent _ _ => .refl consistent

theorem summary : Looks Session.summary := by
  apply require
  intro session index consistent ready current
  rw [outcome_bind_of_ok (outcome_get session),
    outcome_bind_of_ok (currentIndex current)]
  exact .refl consistent

theorem collectFrom (files : List SourceFile) : Looks (Report.collectFrom files) := by
  induction files with
  | nil => exact pure []
  | cons file rest ih =>
    rw [Report.collectFrom]
    split
    · exact ih
    · exact (checkFile file.path).bind fun found => ih.bind fun others => pure (found ++ others)

theorem analyze : Looks Report.analyze := by
  apply bind
  · exact files.bind fun listed => (collectFrom listed).bind fun found =>
      pure (found.mergeSort Report.before)
  · exact fun _ => summary.bind fun _ => (mark fun _ => rfl).bind fun _ => pure _

theorem outline : Looks Report.outline := by
  refine files.bind fun listed => ?_
  apply bind
  · exact mapM fun file => (fileSymbols file.path).bind fun symbols => pure _
  · exact fun listed => (mark fun _ => rfl).bind fun _ => pure _

theorem buildDocument (selfContained : Bool) (name : Value) :
    Looks (Session.buildDocument selfContained name) := by
  intro session consistent
  cases ready : session.isReady with
  | false =>
    have refused : outcome Session.index session =
        (.error (.wrongPhase "index" session.phase), session) := by
      rw [outcome_index consistent, ready]
      rfl
    rw [Session.buildDocument, outcome_bind_of_error refused]
    exact .refl consistent
  | true =>
    obtain ⟨index, current⟩ := consistent.current ready
    have composes : Draft.Repeats index
        (Draft.compose index selfContained session.workspace.ownSymbols) :=
      Draft.compose_repeats current.ids _
    have start : Draft.Remembers index session.workspace.memo { memo := session.workspace.memo } :=
      ⟨current.memo, .refl _⟩
    have remembers := (composes.remembers session.workspace.memo).keeps start
    have kept := consistent.remember current remembers.within remembers.known
    rw [outcome_buildDocument consistent ready current]
    rcases ran : outcome (Draft.compose index selfContained session.workspace.ownSymbols)
      { memo := session.workspace.memo } with ⟨failure | _, draft⟩ <;> rw [ran] at kept
    · exact kept
    · exact kept.trans (note .info _ _ kept.consistent)

end Looks

/-- No reading disturbs a session. -/
theorem Consistent.consult {session : Session} (consistent : session.Consistent)
    (reading : Reading) : Undisturbed session (session.consult reading) := by
  cases reading with
  | resolve query => exact Looks.search (fun _ within => resolve_behaves within query) _ consistent
  | resolveReference reference symbol =>
    exact Looks.search (fun _ within => resolveReference_behaves within reference symbol) _
      consistent
  | checkFile path => exact Looks.checkFile path _ consistent
  | analyze => exact Looks.analyze _ consistent
  | outline => exact Looks.outline _ consistent
  | buildDocument selfContained name => exact Looks.buildDocument selfContained name _ consistent

theorem Reached.consistent {session : Session} (reached : session.Reached) :
    session.Consistent := by
  induction reached with
  | new => exact consistent_new
  | change _ change consistent => exact consistent.change change
  | consult _ reading consistent => exact (consistent.consult reading).consistent

theorem reached_after (changes : List Change) : (after changes).Reached := by
  have from_ (session : Session) (reached : session.Reached) :
      (changes.foldl Session.change session).Reached := by
    induction changes generalizing session with
    | nil => exact reached
    | cons first rest ih => exact ih _ (reached.change first)
  exact from_ {} .new

/-- So none does one after the other. -/
theorem Consistent.consulted {session : Session} (consistent : session.Consistent)
    (readings : List Reading) :
    Undisturbed session (readings.foldl Session.consult session) := by
  induction readings generalizing session with
  | nil => exact .refl consistent
  | cons reading rest ih =>
    have first := consistent.consult reading
    exact first.trans (ih first.consistent)

/-- Whatever a session is asked for after a document was built: the document is built again, with
the same records, external references and metadata. -/
theorem buildDocument_repeats {session once : Session} (reached : session.Reached)
    {selfContained : Bool} {name : Value} {document : Document}
    (built : outcome (buildDocument selfContained name) session = (.ok document, once))
    (readings : List Reading) :
    ∃ again, outcome (buildDocument selfContained name) (readings.foldl consult once) =
      (.ok document, again) := by
  have consistent := reached.consistent
  obtain ⟨index, draft, ready, current, composed, rfl⟩ := buildDocument_ok consistent built
  have firstly := Looks.buildDocument selfContained name session consistent
  have remembered : once.workspace.memo = draft.memo := by
    rw [outcome_buildDocument consistent ready current, composed] at built
    cases built
    rfl
  rw [built] at firstly
  have between := firstly.consistent.consulted readings
  have undisturbed := firstly.trans between
  have known : draft.memo.Known (readings.foldl consult once).workspace.memo :=
    remembered ▸ between.known
  generalize readings.foldl consult once = later at undisturbed known ⊢
  have laterReady : later.isReady = true := undisturbed.ready.trans ready
  have laterCurrent : later.workspace.Current index := by
    obtain ⟨other, isCurrent⟩ := undisturbed.consistent.current laterReady
    have same : later.workspace.index = session.workspace.index := by rw [undisturbed.workspace]
    rw [isCurrent.found, current.found] at same
    exact Option.some.inj same ▸ isCurrent
  have own : later.workspace.ownSymbols = session.workspace.ownSymbols := by
    rw [undisturbed.workspace]
    rfl
  have again := (Draft.compose_repeats current.ids _).again current.memo composed known
  rw [outcome_buildDocument undisturbed.consistent laterReady laterCurrent, own]
  change outcome (Draft.compose index selfContained session.workspace.ownSymbols)
    { memo := later.workspace.memo } = _ at again
  rw [again]
  exact ⟨_, rfl⟩

/-- A definition that specializes one of a library, which specializes another one. -/
def layered : List Change :=
  [.load "lib.sysml" "part def C; part def B :> C;" true, .load "a.sysml" "part def A :> B;" false,
    .reindex]

def probing : List Reading :=
  [.resolve ⟨"B::x", some (.text "A"), "a.sysml"⟩, .buildDocument true (.text "whole"),
    .checkFile "a.sysml", .analyze, .outline]

theorem buildDocument_repeats_layered :
    ∃ document once again,
      outcome (buildDocument false (.text "model")) (after layered) = (.ok document, once) ∧
      document.records.length = 2 ∧
      ((probing.take 1).foldl consult once).workspace.memo.length ≠ once.workspace.memo.length ∧
      outcome (buildDocument false (.text "model")) (probing.foldl consult once) =
        (.ok document, again) := by
  have measured : (match outcome (buildDocument false (.text "model")) (after layered) with
      | (.ok document, once) => decide (document.records.length = 2 ∧
          ((probing.take 1).foldl consult once).workspace.memo.length ≠
            once.workspace.memo.length)
      | (.error _, _) => false) = true := by
    decide +kernel
  rcases built : outcome (buildDocument false (.text "model")) (after layered) with
    ⟨failure | document, once⟩ <;> rw [built] at measured
  · cases measured
  · obtain ⟨records, more⟩ := of_decide_eq_true measured
    obtain ⟨again, same⟩ := buildDocument_repeats (reached_after layered) built probing
    exact ⟨document, once, again, rfl, records, more, same⟩

end Session

end Sysml
