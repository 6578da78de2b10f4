import Sysml.Proofs.Document.Closed
import Sysml.Proofs.Session.Reachable

/-!
# The export of a session

What a document is composed of, and that it refers to nothing unknown in any
session that can be reached (`buildDocument_closed`).
-/

set_option autoImplicit false

namespace Sysml

namespace Workspace

def ownSymbols (w : Workspace) : List Symbol :=
  ((w.files.filter fun file => !file.isLibrary).flatMap (·.symbols)).filter
    fun symbol => !symbol.isLibrary

theorem ownSymbols_subset (w : Workspace) : w.ownSymbols ⊆ w.symbols := by
  intro symbol member
  obtain ⟨file, inside, held⟩ := List.mem_flatMap.mp (List.mem_filter.mp member).1
  exact List.mem_flatMap_of_mem (List.mem_filter.mp inside).1 held

/-- The model's own symbols are those that are no library's. -/
theorem Tidy.ownSymbols_eq {w : Workspace} (tidy : w.Tidy) :
    w.ownSymbols = w.symbols.filter fun symbol => !symbol.isLibrary := by
  unfold ownSymbols symbols
  have libraries := tidy.libraries
  generalize w.files = files at libraries
  induction files with
  | nil => rfl
  | cons file rest ih =>
    have others := ih fun other member => libraries other (List.mem_cons_of_mem _ member)
    rw [List.filter_cons]
    cases library : file.isLibrary with
    | false =>
      simp only [Bool.not_false, ↓reduceIte]
      rw [List.flatMap_cons, List.flatMap_cons, List.filter_append, List.filter_append, others]
    | true =>
      have none_ : (file.symbols.filter fun symbol => !symbol.isLibrary) = [] := by
        refine List.filter_eq_nil_iff.mpr fun symbol held => ?_
        simp [libraries file List.mem_cons_self library symbol held]
      simp only [Bool.not_true, Bool.false_eq_true, ↓reduceIte]
      rw [List.flatMap_cons, List.filter_append, none_, List.nil_append, others]

/-- A symbol that is no library's is the model's own. -/
theorem Tidy.mem_ownSymbols {w : Workspace} (tidy : w.Tidy) {symbol : Symbol}
    (member : symbol ∈ w.symbols) (own : symbol.isLibrary = false) : symbol ∈ w.ownSymbols := by
  rw [tidy.ownSymbols_eq]
  exact List.mem_filter.mpr ⟨member, by simp [own]⟩

theorem Tidy.file?_path {w : Workspace} (tidy : w.Tidy) {file : SourceFile}
    (member : file ∈ w.files) : w.file? file.path = some file := by
  obtain ⟨found, looked⟩ := Option.isSome_iff_exists.mp
    (List.find?_isSome.mpr ⟨file, member, by simp⟩ :
      (w.files.find? fun held => held.path == file.path).isSome = true)
  have same : found.path = file.path := by simpa using List.find?_some looked
  rw [file?, looked,
    List.inj_on_of_nodup_map tidy.paths (List.mem_of_find?_eq_some looked) member same]

end Workspace

namespace Session

variable {session : Session} {index : Scope.Index}

theorem outcome_require (ready : session.isReady = true) (operation : String) :
    outcome (require operation) session = (.ok ⟨⟩, session) := by
  unfold require
  rw [outcome_bind_of_ok (outcome_get session), ready]
  rfl

theorem outcome_files (ready : session.isReady = true) :
    outcome files session = (.ok session.workspace.files, session) := by
  unfold files
  rw [outcome_bind_of_ok (outcome_require ready _)]
  rfl

theorem outcome_ownSymbols (consistent : session.Consistent) (ready : session.isReady = true) :
    outcome ownSymbols session = (.ok session.workspace.ownSymbols, session) := by
  have symbols : outcome ((session.workspace.files.filter fun file => !file.isLibrary).mapM
      fun file => fileSymbols file.path) session =
      (.ok ((session.workspace.files.filter fun file => !file.isLibrary).map (·.symbols)),
        session) := by
    refine outcome_mapM fun file member => ?_
    unfold fileSymbols
    rw [outcome_bind_of_ok (outcome_require ready _), outcome_bind_of_ok (outcome_get session),
      consistent.tidy.file?_path (List.mem_filter.mp member).1]
    rfl
  unfold ownSymbols
  rw [outcome_bind_of_ok (outcome_files ready)]
  refine (outcome_bind_of_ok symbols).trans ?_
  simp [Workspace.ownSymbols, List.flatMap_def]

def documentOf (draft : Draft) (selfContained : Bool) (name : Value) : Document :=
  Document.make draft.records draft.externalRefs
    [(.text "name", name), (.text "selfContained", .bool selfContained)]

/-- In a session that is ready, a document is what is composed of the model's own
symbols. -/
theorem outcome_buildDocument (consistent : session.Consistent) (ready : session.isReady = true)
    (current : session.workspace.Current index) (selfContained : Bool) (name : Value) :
    outcome (buildDocument selfContained name) session =
      match outcome (Draft.compose index selfContained session.workspace.ownSymbols)
        { memo := session.workspace.memo } with
      | (.ok _, draft) =>
          (.ok (documentOf draft selfContained name),
            { session with
              workspace := { session.workspace with memo := draft.memo }
              notes := session.notes ++
                [⟨.info, "Built document with " ++ toString draft.records.length ++ " records"⟩] })
      | (.error failure, draft) =>
          (.error failure,
            { session with workspace := { session.workspace with memo := draft.memo } }) := by
  have indexed : outcome Session.index session = (.ok index, session) := by
    rw [outcome_index consistent, ready, currentIndex_of_current current]
    rfl
  unfold buildDocument
  rw [outcome_bind_of_ok indexed, outcome_bind_of_ok (outcome_ownSymbols consistent ready),
    outcome_bind, outcome_onWorkspace]
  generalize composed : (Draft.compose index selfContained session.workspace.ownSymbols).run.run
    { memo := session.workspace.memo } = result
  change outcome (Draft.compose index selfContained session.workspace.ownSymbols)
    { memo := session.workspace.memo } = result at composed
  rw [composed]
  rcases result with ⟨failure | done, draft⟩ <;> rfl

/-- What a document is made of, if one is built. -/
theorem buildDocument_ok (consistent : session.Consistent) {selfContained : Bool} {name : Value}
    {document : Document} {later : Session}
    (built : outcome (buildDocument selfContained name) session = (.ok document, later)) :
    ∃ index draft, session.isReady = true ∧ session.workspace.Current index ∧
      outcome (Draft.compose index selfContained session.workspace.ownSymbols)
        { memo := session.workspace.memo } = (.ok ⟨⟩, draft) ∧
      document = documentOf draft selfContained name := by
  cases ready : session.isReady with
  | false =>
    unfold buildDocument at built
    rw [outcome_bind, outcome_index consistent, ready] at built
    cases built
  | true =>
    obtain ⟨index, current⟩ := consistent.current ready
    rw [outcome_buildDocument consistent ready current] at built
    split at built
    · next done draft composed =>
      cases built
      exact ⟨index, draft, rfl, current, composed, rfl⟩
    · cases built

end Session

/-- Whatever was done to a session: the ids of a document that it builds are
distinct, the document refers to nothing unknown, and it lists nothing outside of
it that no record has as its owner or target. -/
theorem Session.buildDocument_closed (changes : List Change) (selfContained : Bool) (name : Value)
    {document : Document} {later : Session}
    (built : outcome (Session.buildDocument selfContained name) (Session.after changes) =
      (.ok document, later)) :
    (document.ids.Pairwise fun one other => (one == other) = false) ∧
      (∀ record ∈ document.records, ∀ id ∈ record.references,
        document.ids.contains id = true ∨
          (document.externalRefs.map (·.1)).contains id = true) ∧
      document.danglingReferences = [] ∧
      ∀ key ∈ document.externalRefs.map (·.1), ∃ record ∈ document.records, ∃ id,
        (record.owner = some id ∨ record.target = some id) ∧ (id == key) = true := by
  have consistent := Session.after_consistent changes
  obtain ⟨index, draft, ready, current, composed, rfl⟩ := Session.buildDocument_ok consistent built
  have tidy := consistent.tidy
  have owes : Draft.Owes index (Session.after changes).workspace.ownSymbols :=
    { serials := fun one first other second same =>
        tidy.eq_of_serial (current.symbols ▸ first) (current.symbols ▸ second) same
      ids := current.ids
      all := fun symbol member own => tidy.mem_ownSymbols (current.symbols ▸ member) own }
  have inside : (Session.after changes).workspace.ownSymbols ⊆ index.symbols :=
    current.symbols ▸ Workspace.ownSymbols_subset _
  obtain ⟨apart, ends, listed⟩ := Draft.compose_closed owes inside current.memo composed
  have known : ∀ record ∈ draft.records, ∀ id ∈ record.references,
      (draft.records.map (·.id)).contains id = true ∨ draft.outside.contains id = true := by
    intro record member id isEnd
    rcases ends record member id isEnd with held | outside
    · obtain ⟨other, inside, same⟩ := List.any_eq_true.mp held
      refine .inl (List.contains_iff_exists_mem_beq.mpr ⟨other.id, ?_, BEq.symm same⟩)
      exact List.mem_map_of_mem inside
    · exact .inr outside
  refine ⟨List.pairwise_map.mpr apart, known, ?_, listed⟩
  refine Document.danglingReferences_eq_nil fun record member id isEnd => ?_
  exact Bool.or_eq_true_iff.mpr (known record member id isEnd)

/-- A definition that specializes a library definition and imports its members: the
self-contained document has four records. -/
theorem Session.buildDocument_closed_inlined :
    ∃ document later,
      outcome (Session.buildDocument true (.text "model")) (Session.after
        [.load "lib.sysml" "part def B { part x; }" true,
          .load "a.sysml" "part def A :> B { import B::*; }" false, .reindex]) =
        (.ok document, later) ∧
      document.records.length = 4 ∧
      (document.ids.Pairwise fun one other => (one == other) = false) ∧
      (∀ record ∈ document.records, ∀ id ∈ record.references,
        document.ids.contains id = true ∨
          (document.externalRefs.map (·.1)).contains id = true) ∧
      document.danglingReferences = [] ∧
      ∀ key ∈ document.externalRefs.map (·.1), ∃ record ∈ document.records, ∃ id,
        (record.owner = some id ∨ record.target = some id) ∧ (id == key) = true := by
  have counted : (outcome (Session.buildDocument true (.text "model")) (Session.after
      [.load "lib.sysml" "part def B { part x; }" true,
        .load "a.sysml" "part def A :> B { import B::*; }" false, .reindex])).1.toOption.map
      (fun document => document.records.length) = some 4 := by decide +kernel
  rcases built : outcome (Session.buildDocument true (.text "model")) (Session.after
    [.load "lib.sysml" "part def B { part x; }" true,
      .load "a.sysml" "part def A :> B { import B::*; }" false, .reindex]) with
    ⟨failure | document, later⟩ <;> rw [built] at counted
  · cases counted
  · exact ⟨document, later, rfl, Option.some.inj counted,
      Session.buildDocument_closed _ _ _ built⟩

end Sysml
