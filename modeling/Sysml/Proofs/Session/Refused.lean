import Sysml.Proofs.Document.TakingIn
import Sysml.Proofs.Session.Again
import Sysml.Proofs.Session.Analyzing
import Sysml.Proofs.Session.Repeating

/-!
# A refused document leaves nothing behind

An import looks for what is wrong with a document, builds the index, converts the records, and only
then loads anything. What fails before that leaves the session as it was, unless an element was
bound to a library symbol of another id; what fails after that is the check of what was loaded, and
from then on there is no index (`importDocument_refused`).
-/

set_option autoImplicit false

namespace Sysml

open Scope

/-! ## Building the index once more -/

/-- Where the index could not be built, trying again changes nothing. -/
theorem Workspace.rebuild_again {w later : Workspace} {failure : Failure}
    (failed : w.rebuild = (.error failure, later)) : later.rebuild = (.error failure, later) := by
  have unbuilt := failed
  rw [rebuild_eq] at failed
  split at failed
  · cases failed
    exact unbuilt
  · next indexable =>
    split at failed
    · next proper =>
      cases failed
      rw [rebuild_eq]
      exact (if_neg indexable).trans (if_pos proper)
    · next proper =>
      split at failed
      · cases failed
      · next other memo ran =>
        cases failed
        rw [rebuild_eq]
        refine (if_neg indexable).trans ((if_neg proper).trans ?_)
        have same : Workspace.checking { w.reindexed with memo } = w.checking := rfl
        rw [same, ran]
        rfl

/-- Symbols may be given ids that are texts. -/
theorem Workspace.Spelled.pin {w : Workspace} (spelled : w.Spelled) (serial : Nat) (id : String) :
    (w.pin serial (.text id)).Spelled := by
  intro file inside
  obtain ⟨old, isOld, rfl⟩ := List.mem_map.mp inside
  refine ⟨?_, (spelled old isOld).imports⟩
  intro symbol has
  obtain ⟨before, wasIn, rfl⟩ := List.mem_map.mp has
  have was := (spelled old isOld).symbols before wasIn
  split
  · exact was.pinned id
  · exact was

namespace Session

/-- The session is as another was: it holds the same files, and whatever is asked after the index
was built is answered alike. -/
structure AsIt (later session : Session) : Prop where
  files : later.workspace.files = session.workspace.files
  answers : ∀ {α : Type} (run : Operation α),
    outcome (do reindex; run) later = outcome (do reindex; run) session

theorem AsIt.refl (session : Session) : session.AsIt session :=
  ⟨rfl, fun _ => rfl⟩

theorem AsIt.of_reindex {later session : Session}
    (files : later.workspace.files = session.workspace.files)
    (same : outcome reindex later = outcome reindex session) : later.AsIt session := by
  refine ⟨files, fun run => ?_⟩
  rw [outcome_bind, outcome_bind, same]

/-- A failed attempt to build the index leaves the session as it was. -/
theorem asIt_of_unbuilt {session later : Session} {failure : Failure}
    (failed : outcome reindex session = (.error failure, later)) : later.AsIt session := by
  have files := reindex_files session
  rw [failed] at files
  refine .of_reindex files ?_
  have whole := failed
  rw [outcome_reindex] at failed
  rw [whole]
  split at failed
  · next isEmpty =>
    split at failed
    · cases failed
    · next other workspace unbuilt =>
      cases failed
      rw [outcome_reindex]
      refine (if_pos isEmpty).trans ?_
      dsimp only
      rw [Workspace.rebuild_again unbuilt]
  · next isOpen =>
    split at failed
    · next isDirty =>
      split at failed
      · cases failed
      · next other workspace unbuilt =>
        cases failed
        rw [outcome_reindex]
        refine (if_neg isOpen).trans ((if_pos isDirty).trans ?_)
        dsimp only
        rw [Workspace.rebuild_again unbuilt]
    · cases failed

/-- A session whose index was built is as it was. -/
theorem asIt_of_reindexed {session later : Session} (consistent : session.Consistent)
    (built : outcome reindex session = (.ok ⟨⟩, later)) : later.AsIt session := by
  have files := reindex_files session
  rw [built] at files
  refine .of_reindex files ?_
  rw [built]
  rw [outcome_reindex] at built
  split at built
  · next isEmpty =>
    split at built
    · cases built
      rw [outcome_reindex, if_neg nofun, consistent.clean isEmpty]
      rfl
    · cases built
  · next isOpen =>
    split at built
    · split at built
      · cases built
        rfl
      · cases built
    · next isClean =>
      cases built
      rw [outcome_reindex, if_neg isOpen, if_neg isClean]

end Session

/-! ## Before anything is loaded -/

/-- Where a change leaves the symbols it leaves the workspace: the index and the memo hold no
others. -/
theorem Workspace.Current.adjust_idle {w : Workspace} {index : Index} (current : w.Current index)
    {change : Symbol → Symbol} (idle : ∀ symbol ∈ w.symbols, change symbol = symbol) :
    w.adjust change = w := by
  have files : (w.files.map fun file => { file with symbols := file.symbols.map change }) =
      w.files := by
    refine (List.map_congr_left fun file inside => ?_).trans (List.map_id _)
    have same : file.symbols.map change = file.symbols :=
      (List.map_congr_left fun symbol has =>
        idle symbol (List.mem_flatMap_of_mem inside has)).trans (List.map_id _)
    rw [same]
    rfl
  have known : ∀ symbol ∈ index.symbols, change symbol = symbol := current.symbols ▸ idle
  have byId : (index.byId.map fun entry => (entry.1, change entry.2)) = index.byId :=
    (List.map_congr_left fun entry listed =>
      congrArg (Prod.mk entry.1) (known entry.2 (current.ids entry listed))).trans (List.map_id _)
  have memo : (w.memo.map fun entry => (entry.1, entry.2.map change)) = w.memo := by
    refine (List.map_congr_left fun entry listed => ?_).trans (List.map_id _)
    have same : entry.2.map change = entry.2 := by
      cases found : entry.2 with
      | none => rfl
      | some symbol => rw [Option.map_some, known symbol (current.memo entry listed symbol found)]
    rw [same]
    rfl
  have symbols : index.symbols.map change = index.symbols :=
    (List.map_congr_left known).trans (List.map_id _)
  have isIndex : w.index.map (·.adjust change) = w.index := by
    rw [current.found, Option.map_some, Index.adjust, symbols, byId]
  rw [Workspace.adjust, files, isIndex, memo]

namespace Document

/-- The ids that elements give to the library symbols that they are bound to, by serial number. The
first element that cannot be taken ends them. -/
def bindings (document : Document) (source : String) (index : Index) :
    List Record → List (Nat × Key)
  | [] => []
  | record :: rest =>
      if record.isRelationship then document.bindings source index rest
      else
        match document.qualifiedNameOf record with
        | .error _ => []
        | .ok name =>
            match loadedTwin? index record name with
            | .error _ => []
            | .ok (some twin) => (twin.serial, record.id) :: document.bindings source index rest
            | .ok none =>
                match document.symbolOf source name record with
                | .error _ => []
                | .ok _ => document.bindings source index rest

/-- Taking elements changes nothing in a session but the ids. -/
theorem takeElements_session (document : Document) (source : String) (index : Index)
    (taken : Elements) (records : List Record) (session : Session) :
    (outcome (document.takeElements source index taken records) session).2 =
      { session with
        workspace := session.workspace.pinEach (document.bindings source index records) } := by
  induction records generalizing taken session with
  | nil => rfl
  | cons record rest ih =>
    unfold takeElements bindings
    split
    · exact ih taken session
    · cases document.qualifiedNameOf record with
      | error failure => rfl
      | ok name =>
        have goesOn (next : Key → Operation Elements) :
            (MonadExcept.ofExcept (.ok name : Except Failure Key) : Operation Key) >>= next =
              next name := rfl
        simp only [goesOn]
        cases loadedTwin? index record name with
        | error failure => rfl
        | ok twin? =>
          cases twin? with
          | some twin =>
            exact ih ⟨taken.symbols, Entries.put record.id name taken.names⟩
              { session with workspace := session.workspace.pin twin.serial record.id }
          | none =>
            dsimp only
            cases document.symbolOf source name record with
            | error failure => rfl
            | ok symbol =>
              exact ih ⟨taken.symbols ++ [symbol], Entries.put record.id name taken.names⟩ session

end Document

namespace Session

def freshIndex : Operation Index := do
  reindex
  index

/-- What an import makes of a document before it loads anything: the symbols, and the number of
relationships that add nothing to them. -/
def convert (document : Document) (source : String) (index : Index) :
    Operation (List Symbol × Nat) := do
  let taken ← document.takeElements source index ⟨[], document.externalRefs⟩ document.records
  MonadExcept.ofExcept
    (Document.attachAll taken.names taken.symbols 0 document.relationships)

/-- An import ends before it loads anything: the document has problems, there is no index, or the
records cannot be converted. -/
def StopsEarly (session : Session) (document : Document) (source : String) : Prop :=
  document.problems ≠ [] ∨ ∃ failure stopped,
    outcome (freshIndex >>= convert document source) session = (.error failure, stopped)

/-- The ids that an import gives to library symbols before it loads anything, by serial number. -/
def boundIds (session : Session) (document : Document) (source : String) : List (Nat × Key) :=
  if document.problems = [] then
    match (outcome freshIndex session).1 with
    | .ok index => document.bindings source index document.records
    | .error _ => []
  else []

/-- Converting the records changes nothing in a session but the ids. -/
theorem convert_session (document : Document) (source : String) (index : Index)
    (session : Session) :
    (outcome (convert document source index) session).2 =
      { session with
        workspace :=
          session.workspace.pinEach (document.bindings source index document.records) } := by
  rw [← document.takeElements_session source index ⟨[], document.externalRefs⟩, convert,
    outcome_bind]
  rcases outcome (document.takeElements source index ⟨[], document.externalRefs⟩ document.records)
    session with ⟨failure | taken, pinned⟩
  · rfl
  · dsimp only
    rw [outcome_ofExcept]

theorem importDocument_eq_bindAll {document : Document} (valid : document.problems = [])
    (source : String) :
    importDocument document source = freshIndex >>= bindAll document source := by
  rw [importDocument_eq valid, freshIndex, bind_assoc]

/-- With an index an import fails where the records cannot be converted, or in the last stage. -/
theorem bindAll_fails {document : Document} {source : String} {index : Index} {failure : Failure}
    {ready later : Session}
    (failed : outcome (bindAll document source index) ready = (.error failure, later)) :
    outcome (convert document source index) ready = (.error failure, later) ∨
      ∃ symbols skipped pinned,
        outcome (convert document source index) ready = (.ok (symbols, skipped), pinned) ∧
        outcome (takeIn symbols source (told document symbols)) (pinned.warned skipped) =
          (.error failure, later) := by
  have whole := failed
  rw [bindAll, outcome_bind] at failed
  rw [convert, outcome_bind]
  rcases took : outcome (document.takeElements source index ⟨[], document.externalRefs⟩
    document.records) ready with ⟨refusal | taken, pinned⟩ <;> rw [took] at failed
  · cases failed
    exact .inl rfl
  · dsimp only at failed ⊢
    rw [outcome_ofExcept]
    cases attached : Document.attachAll taken.names taken.symbols 0 document.relationships with
    | error refusal =>
      rw [attached] at failed
      cases failed
      exact .inl rfl
    | ok made =>
      exact .inr ⟨made.1, made.2, pinned, rfl, (outcome_bindAll took attached).symm.trans whole⟩

end Session

/-! ## Taking in a document whose fields have their types -/

namespace Document.Typed

variable {document : Document} {record : Record} (typed : document.Typed)

include typed

theorem bare_spelled (source : String) (member : record ∈ document.records) :
    (document.bare source record).Spelled := by
  obtain ⟨_, name, _, isName⟩ := typed.fullName_text member
  obtain ⟨id, _, isId⟩ := typed.id_text member
  refine ⟨⟨⟨name, isName⟩, ?_, ?_⟩, ?_, ?_, ?_⟩
  · intro owner owned
    obtain ⟨holder, isHolder, rfl⟩ := Option.map_eq_some_iff.mp owned
    obtain ⟨_, outer, _, isOuter⟩ := typed.fullName_text (mem_of_ownerOf? isHolder)
    exact ⟨outer, isOuter⟩
  · intro i listed
    cases listed
  · rcases (typed.records record member).name with missing | ⟨given, isGiven⟩
    · simp only [bare, nameOrEmpty, missing]
      rfl
    · simp only [bare, nameOrEmpty, isGiven]
      split <;> rfl
  · change (Key.given? (some record.id)).all Key.isProper = true
    rw [typed.id_given member, isId]
    rfl
  · intro reference listed
    cases listed

/-- Each element is bound to its twin in the library or becomes a symbol. -/
theorem takeElements_spelled (source : String) (index : Index) {records : List Record}
    (part : records ⊆ document.records) (taken : Document.Elements)
    (symbols : ∀ symbol ∈ taken.symbols, symbol.Spelled) (names : TextNames taken.names)
    (session : Session) (spelled : session.workspace.Spelled) :
    ∃ elements later, outcome (document.takeElements source index taken records) session =
        (.ok elements, later) ∧
      (∀ symbol ∈ elements.symbols, symbol.Spelled) ∧ TextNames elements.names ∧
      later.workspace.Spelled := by
  induction records generalizing taken session with
  | nil => exact ⟨taken, session, rfl, symbols, names, spelled⟩
  | cons record rest ih =>
    obtain ⟨member, partRest⟩ := List.cons_subset.mp part
    rw [Document.takeElements]
    split
    · exact ih partRest taken symbols names session spelled
    · obtain ⟨qualified, name, _, isText⟩ := typed.fullName_text member
      obtain ⟨id, _, isId⟩ := typed.id_text member
      have named : outcome (MonadExcept.ofExcept (document.qualifiedNameOf record) : Operation Key)
          session = (.ok (document.fullName record), session) := by
        rw [outcome_ofExcept, qualified]
      have proper : (document.fullName record).proper = .ok (document.fullName record) := by
        rw [isText]
        rfl
      have twin : ∃ twin?, Document.loadedTwin? index record (document.fullName record) =
          .ok twin? := by
        unfold Document.loadedTwin?
        split
        · rw [proper]
          exact ⟨_, rfl⟩
        · exact ⟨none, rfl⟩
      obtain ⟨twin?, isTwin⟩ := twin
      have sought : outcome (liftM (Document.loadedTwin? index record (document.fullName record)) :
          Operation (Option Symbol)) session = (.ok twin?, session) := by
        rw [outcome_liftM, isTwin]
      have more : TextNames (Entries.put record.id (document.fullName record) taken.names) := by
        rw [isText]
        exact names.put record.id name
      refine (outcome_bind_of_ok named).symm ▸ (outcome_bind_of_ok sought).symm ▸ ?_
      cases twin? with
      | some twin =>
        have pins : outcome (modify fun session : Session =>
            { session with workspace := session.workspace.pin twin.serial record.id } :
              Operation PUnit) session =
            (.ok ⟨⟩, { session with workspace := session.workspace.pin twin.serial record.id }) :=
          rfl
        refine (outcome_bind_of_ok pins).symm ▸ ?_
        have pinned : (session.workspace.pin twin.serial record.id).Spelled := by
          rw [isId]
          exact spelled.pin twin.serial id
        exact ih partRest
          ⟨taken.symbols, Entries.put record.id (document.fullName record) taken.names⟩ symbols more
          { session with workspace := session.workspace.pin twin.serial record.id } pinned
      | none =>
        have made : outcome (MonadExcept.ofExcept
            (document.symbolOf source (document.fullName record) record) : Operation Symbol)
              session = (.ok (document.bare source record), session) := by
          rw [outcome_ofExcept, symbolOf_bare typed source member]
        refine (outcome_bind_of_ok made).symm ▸ ?_
        refine ih partRest _ ?_ more session spelled
        intro symbol listed
        rcases List.mem_append.mp listed with old | new
        · exact symbols symbol old
        · rw [List.mem_singleton.mp new]
          exact typed.bare_spelled source member

end Document.Typed

/-! ## Adding the relationships -/

theorem TextNames.targetName {names : List (Key × Key)} (texts : TextNames names)
    (record : Record) : ∃ name, record.targetName names = .text name := by
  unfold Record.targetName
  cases found : names.lookup ((Key.given? record.target).getD (.text "")) with
  | none => exact ⟨"", rfl⟩
  | some name =>
    obtain ⟨_, _, listed⟩ := Entries.exists_mem_of_lookup found
    exact texts _ listed

theorem Symbol.Spelled.attach {symbol : Symbol} (spelled : symbol.Spelled)
    {names : List (Key × Key)} (texts : TextNames names) {record : Record}
    (typed : record.Typed) : (symbol.attach names record).Spelled := by
  obtain ⟨name, isName⟩ := texts.targetName record
  refine ⟨⟨spelled.typed.qualifiedName, spelled.typed.owner, ?_⟩, spelled.name, spelled.elementId, ?_⟩
  · intro i listed
    rcases List.mem_append.mp listed with old | new
    · exact spelled.typed.imports i old
    · have isImport := Option.mem_toList.mp new
      unfold Record.asImport? at isImport
      split at isImport
      · cases isImport
        exact ⟨⟨name, isName⟩, typed.target⟩
      · cases isImport
  · intro reference listed
    rcases List.mem_append.mp listed with old | new
    · exact spelled.references reference old
    · have isReference := Option.mem_toList.mp new
      unfold Record.asReference? at isReference
      split at isReference
      · cases isReference
      · obtain ⟨kind, _, rfl⟩ := Option.map_eq_some_iff.mp isReference
        refine ⟨⟨name, isName⟩, typed.target, ?_⟩
        rintro _ ⟨⟩
        exact ⟨name, isName⟩

/-- A relationship adds something to a symbol, or nothing. -/
theorem attach?_typed {record : Record} (typed : record.Typed) (names : List (Key × Key)) :
    Document.attach? names record = .ok (some fun symbol => symbol.attach names record) ∨
      Document.attach? names record = .ok none := by
  cases supported : Record.isRelationshipKind record.kind with
  | true => exact .inl (attach?_supported supported typed.visibility names)
  | false =>
    obtain ⟨noReference, noImport⟩ := Bool.or_eq_false_iff.mp supported
    refine .inr ?_
    unfold Document.attach?
    rw [noImport, Option.isSome_eq_false_iff.mp noReference |> Option.isNone_iff_eq_none.mp]
    rfl

/-- The relationships are added to symbols that go by texts. -/
theorem attachAll_spelled {names : List (Key × Key)} (texts : TextNames names)
    {records : List Record} (typed : ∀ record ∈ records, record.Typed) {symbols : List Symbol}
    (spelled : ∀ symbol ∈ symbols, symbol.Spelled) (skipped : Nat) :
    ∃ attached count, Document.attachAll names symbols skipped records = .ok (attached, count) ∧
      ∀ symbol ∈ attached, symbol.Spelled := by
  induction records generalizing symbols skipped with
  | nil => exact ⟨symbols, skipped, rfl, spelled⟩
  | cons record rest ih =>
    obtain ⟨isTyped, restTyped⟩ := List.forall_mem_cons.mp typed
    rw [Document.attachAll]
    split
    · rcases attach?_typed isTyped names with adds | nothing
      · rw [adds, ok_bind]
        refine ih restTyped ?_ skipped
        intro symbol listed
        rcases mem_changeLast listed with old | ⟨old, held, rfl⟩
        · exact spelled symbol old
        · exact (spelled old held).attach texts isTyped
      · rw [nothing, ok_bind]
        exact ih restTyped spelled (skipped + 1)
    · exact ih restTyped spelled (skipped + 1)

/-! ## The import -/

/-- A document that goes by texts is loaded into a workspace that does. -/
theorem Workspace.Spelled.loadModel {w : Workspace} (spelled : w.Spelled) {symbols : List Symbol}
    (texts : ∀ symbol ∈ symbols, symbol.Spelled) (source : String) :
    (w.loadModel symbols source).Spelled := by
  intro file inside
  rcases List.mem_append.mp inside with old | new
  · exact spelled file (List.mem_filter.mp old).1
  · rw [List.mem_singleton.mp new]
    refine ⟨?_, ?_⟩
    · intro symbol has
      obtain ⟨before, wasIn, serial, rfl⟩ := mem_numbered has
      exact (texts before wasIn).renumber serial
    · intro i listed
      cases listed

namespace Session

/-- Taking in what was made of a document fails only where its symbols cannot be checked. -/
theorem takeIn_fails {session : Session} (spelled : session.workspace.Spelled)
    {symbols : List Symbol} (texts : ∀ symbol ∈ symbols, symbol.Spelled) {source : String}
    {result : ImportResult} {failure : Failure} {later : Session}
    (failed : outcome (takeIn symbols source result) session = (.error failure, later)) :
    failure = .unbounded ∨ failure = .noSegments := by
  rw [outcome_takeIn] at failed
  split at failed
  · cases failed
  · next built =>
    cases failed
    exact (spelled.loadModel texts source).rebuild_fails built

/-- Where what was loaded cannot be checked, the session has no index from then on. -/
theorem not_asIt_of_takeIn {session ready pinned later : Session} {symbols : List Symbol}
    {source : String} {result : ImportResult} {failure : Failure}
    (built : outcome reindex session = (.ok ⟨⟩, ready))
    (failed : outcome (takeIn symbols source result) pinned = (.error failure, later)) :
    ¬ later.AsIt session := by
  intro asIt
  have again : outcome reindex later = (.error failure, later) := by
    rw [outcome_takeIn] at failed
    split at failed
    · cases failed
    · next unbuilt =>
      cases failed
      rw [outcome_reindex, if_neg nofun, if_pos rfl]
      dsimp only
      rw [Workspace.rebuild_again unbuilt]
  have answered := asIt.answers (pure ⟨⟩ : Operation PUnit)
  rw [outcome_bind_of_error again, outcome_bind_of_ok built] at answered
  cases answered

theorem AsIt.spelled {session later : Session} (asIt : later.AsIt session)
    (spelled : session.workspace.Spelled) : later.workspace.Spelled :=
  fun file inside => spelled file (asIt.files ▸ inside)

/-- Asking for a fresh index leaves the session as it was, whether there is one or not. -/
theorem asIt_of_freshIndex {session : Session} (consistent : session.Consistent) :
    (outcome freshIndex session).2.AsIt session := by
  rcases built : outcome reindex session with ⟨failure | ⟨⟨⟩⟩, ready⟩
  · rw [freshIndex, outcome_bind_of_error built]
    exact asIt_of_unbuilt built
  · have readyConsistent : ready.Consistent := by
      have keeps := keeps_reindex session consistent
      rw [built] at keeps
      exact keeps
    have unchanged : (outcome index ready).2 = ready := by
      rw [outcome_index readyConsistent]
      split <;> rfl
    rw [freshIndex, outcome_bind_of_ok built, unchanged]
    exact asIt_of_reindexed consistent built

/-- A fresh index is current in the session that it was built in. -/
theorem freshIndex_ok {session ready : Session} {index : Index} (consistent : session.Consistent)
    (begun : outcome freshIndex session = (.ok index, ready)) :
    outcome reindex session = (.ok ⟨⟩, ready) ∧ ready.workspace.Current index := by
  obtain ⟨⟨⟩, between, built, gives⟩ := outcome_bind_ok begun
  have betweenConsistent : between.Consistent := by
    have keeps := keeps_reindex session consistent
    rw [built] at keeps
    exact keeps
  rw [outcome_index betweenConsistent] at gives
  split at gives
  · next isReady =>
    obtain ⟨known, current⟩ := betweenConsistent.current isReady
    rw [currentIndex_of_current current] at gives
    cases gives
    exact ⟨built, current⟩
  · cases gives

/-- Giving ids leaves a session as it was exactly where the symbols have them already. -/
theorem asIt_pinEach_iff {session ready : Session} {index : Index} (asIt : ready.AsIt session)
    (current : ready.workspace.Current index) (pins : List (Nat × Key)) :
    AsIt { ready with workspace := ready.workspace.pinEach pins } session ↔
      ∀ symbol ∈ session.workspace.symbols, symbol.withPins pins = symbol := by
  have symbols : ready.workspace.symbols = session.workspace.symbols := by
    rw [Workspace.symbols, Workspace.symbols, asIt.files]
  rw [← symbols]
  constructor
  · intro still symbol member
    obtain ⟨file, inside, has⟩ := List.mem_flatMap.mp member
    have files : ready.workspace.files.map (SourceFile.withPins pins) =
        ready.workspace.files.map id := by
      rw [List.map_id, ← (ready.workspace.pinEach_files pins).1, asIt.files]
      exact still.files
    have same : file.symbols.map (Symbol.withPins pins) = file.symbols.map id := by
      rw [List.map_id]
      exact congrArg SourceFile.symbols (List.map_eq_map_iff.mp files file inside)
    exact List.map_eq_map_iff.mp same symbol has
  · intro idle
    rw [Workspace.pinEach_eq_adjust, current.adjust_idle idle]
    exact asIt

/-- A document whose fields have their types can be converted. -/
theorem convert_typed {document : Document} (typed : document.Typed) (source : String)
    (index : Index) {ready : Session} (spelled : ready.workspace.Spelled) :
    ∃ symbols skipped pinned, outcome (convert document source index) ready =
        (.ok (symbols, skipped), pinned) ∧
      (∀ symbol ∈ symbols, symbol.Spelled) ∧ pinned.workspace.Spelled := by
  obtain ⟨taken, pinned, took, bareSpelled, names, pinnedSpelled⟩ :=
    typed.takeElements_spelled source index (List.Subset.refl _) ⟨[], document.externalRefs⟩
      (fun _ listed => (by cases listed)) typed.external ready spelled
  have relationTyped : ∀ record ∈ document.relationships, record.Typed := by
    intro record member
    exact typed.records record (List.mem_filter.mp member).1
  obtain ⟨symbols, skipped, attached, texts⟩ := attachAll_spelled names relationTyped bareSpelled 0
  refine ⟨symbols, skipped, pinned, ?_, texts, pinnedSpelled⟩
  rw [Session.convert, outcome_bind_of_ok took, outcome_ofExcept, attached]

/-- An import that fails leaves the session as it was exactly where it ends before anything is
loaded, and the library symbols that elements were bound to by then had their ids already. Where
the fields of the document have their types, nothing else is left of it but what a redefinition
without a segment or a search without bound leaves. -/
theorem importDocument_refused {session : Session} (reached : session.Reached)
    {document : Document} {source : String} {failure : Failure} {later : Session}
    (failed : outcome (importDocument document source) session = (.error failure, later)) :
    (later.AsIt session ↔ session.StopsEarly document source ∧
      ∀ symbol ∈ session.workspace.symbols,
        symbol.withPins (session.boundIds document source) = symbol) ∧
    (document.Typed → session.workspace.Spelled → ¬ later.AsIt session →
      failure = .noSegments ∨ failure = .unbounded) := by
  have consistent := reached.consistent
  by_cases valid : document.problems = []
  · rw [importDocument_eq_bindAll valid] at failed
    have fresh := asIt_of_freshIndex consistent
    rcases begun : outcome freshIndex session with ⟨unready | index, ready⟩ <;> rw [begun] at fresh
    · rw [outcome_bind_of_error begun] at failed
      cases failed
      refine ⟨iff_of_true fresh ⟨.inr ⟨_, _, outcome_bind_of_error begun⟩, ?_⟩,
        fun _ _ broken => absurd fresh broken⟩
      rw [boundIds, if_pos valid, begun]
      exact fun _ _ => rfl
    · obtain ⟨built, current⟩ := freshIndex_ok consistent begun
      have isBound : session.boundIds document source =
          document.bindings source index document.records := by
        rw [boundIds, if_pos valid, begun]
      have converting : outcome (freshIndex >>= convert document source) session =
          outcome (convert document source index) ready := outcome_bind_of_ok begun
      rw [outcome_bind_of_ok begun] at failed
      rcases bindAll_fails failed with stops | ⟨symbols, skipped, pinned, converted, unchecked⟩
      · have given := convert_session document source index ready
        rw [stops] at given
        rw [show later = _ from given, asIt_pinEach_iff fresh current, isBound]
        refine ⟨(and_iff_right (.inr ⟨_, _, converting.trans stops⟩)).symm,
          fun typed spelled _ => ?_⟩
        obtain ⟨_, _, _, converted, _⟩ := convert_typed typed source index (fresh.spelled spelled)
        cases stops.symm.trans converted
      · have broken : ¬ later.AsIt session := not_asIt_of_takeIn built unchecked
        have loads : ¬ session.StopsEarly document source := by
          rintro (invalid | ⟨other, stopped, stops⟩)
          · exact invalid valid
          · cases (converting.trans converted).symm.trans stops
        refine ⟨iff_of_false broken fun stops => loads stops.1, fun typed spelled _ => ?_⟩
        obtain ⟨_, _, _, same, texts, pinnedSpelled⟩ :=
          convert_typed typed source index (fresh.spelled spelled)
        cases converted.symm.trans same
        refine (takeIn_fails ?_ texts unchecked).symm
        rw [warned_workspace]
        exact pinnedSpelled
  · obtain ⟨other, refused⟩ := importDocument_invalid valid source session
    rw [refused] at failed
    cases failed
    refine ⟨iff_of_true (.refl session) ⟨.inl valid, ?_⟩, fun _ _ broken => absurd (.refl session) broken⟩
    rw [boundIds, if_neg valid]
    exact fun _ _ => rfl

def drafted : List (String × String × Bool) :=
  [("u.sysml", "package U { part def A; }", false)]

/-- The failure that an operation ends with, if any. -/
def failureOf {α : Type} (run : Operation α) (session : Session) : Option Failure :=
  match (outcome run session).1 with
  | .ok _ => none
  | .error failure => some failure

theorem outcome_of_failureOf {α : Type} {run : Operation α} {session : Session} {failure : Failure}
    (fails : failureOf run session = some failure) :
    ∃ later, outcome run session = (.error failure, later) := by
  unfold failureOf at fails
  rcases ran : outcome run session with ⟨other | value, later⟩ <;> rw [ran] at fails
  · cases fails
    exact ⟨later, rfl⟩
  · cases fails

/-- A session with a library whose package was given an id. -/
def labelled : Session :=
  after [.load "lib.sysml" "package Lib { part def T; }" true,
    .applyEntries [.map [(.text "id", .text "L"), (.text "qualifiedName", .text "Lib")]]]

/-- A document that brings this package along, and a usage that is named by a number. -/
def numberNamed : Document where
  records := [inlinedPackage, { id := .text "a", kind := "PartUsage", name := .int 5 }]

theorem labelled_boundIds : labelled.boundIds numberNamed "m.json" = [(0, .text "L")] := by
  have told : (labelled.boundIds numberNamed "m.json").map (fun pin => (pin.1, pin.2.text?)) =
      [(0, some "L")] := by
    decide +kernel
  obtain ⟨⟨serial, id⟩, single, same⟩ := List.map_eq_singleton_iff.mp told
  obtain ⟨rfl, isText⟩ := Prod.mk.inj same
  exact single.trans (congrArg (fun id => [(0, id)]) (Key.eq_text_of_text? isText))

/-- The package has the id that it is to be given. -/
theorem labelled_idle : ∀ symbol ∈ labelled.workspace.symbols,
    symbol.withPins [(0, .text "L")] = symbol := by
  intro symbol member
  have told : ∀ pair ∈ labelled.workspace.symbols.map
      (fun symbol => (symbol.serial, symbol.elementId.bind Key.text?)),
      pair.1 = 0 → pair.2 = some "L" := by
    decide +kernel
  have given := told _ (List.mem_map_of_mem member)
  unfold Symbol.withPins pinnedId
  rw [List.foldl_cons, List.foldl_nil]
  split
  · next isFirst =>
    obtain ⟨id, has, isText⟩ := Option.bind_eq_some_iff.mp (given isFirst)
    rw [← Key.eq_text_of_text? isText, ← has]
  · rfl

theorem importDocument_refused_numbered :
    labelled.Reached ∧ numberNamed.problems = [] ∧
      labelled.boundIds numberNamed "m.json" = [(0, .text "L")] ∧
      ∃ failure later, outcome (importDocument numberNamed "m.json") labelled =
        (.error failure, later) ∧ later.AsIt labelled := by
  have reached : labelled.Reached := reached_after _
  have fails : failureOf (importDocument numberNamed "m.json") labelled = some .wrongKind := by
    decide +kernel
  have stops : failureOf (freshIndex >>= convert numberNamed "m.json") labelled =
      some .wrongKind := by
    decide +kernel
  obtain ⟨later, failed⟩ := outcome_of_failureOf fails
  obtain ⟨stopped, early⟩ := outcome_of_failureOf stops
  refine ⟨reached, by decide +kernel, labelled_boundIds, _, later, failed, ?_⟩
  refine (importDocument_refused reached failed).1.mpr ⟨.inr ⟨_, stopped, early⟩, ?_⟩
  rw [labelled_boundIds]
  exact labelled_idle

/-- A document whose usage redefines without a target. -/
def targetless : Document where
  records :=
    [{ id := .text "p", kind := "Package", name := .text "P" },
      { id := .text "a", kind := "PartUsage", name := .text "a", owner := some (.text "p") },
      { id := .text "r", kind := "Redefinition", owner := some (.text "a"), source := some (.text "a") }]

/-- The import of a redefinition without a target fails when the workspace already holds the
document, and from then on the index cannot be built. -/
theorem importDocument_targetless_kept :
    failureOf (importDocument targetless "m.json") (ofTexts drafted) = some .noSegments ∧
      failureOf (do reindex; files) (ofTexts drafted) = none ∧
      failureOf (do reindex; files)
        (outcome (importDocument targetless "m.json") (ofTexts drafted)).2 = some .noSegments ∧
      ¬ (outcome (importDocument targetless "m.json") (ofTexts drafted)).2.AsIt (ofTexts drafted) := by
  have answered : failureOf (do reindex; files) (ofTexts drafted) = none := by decide +kernel
  have unanswered : failureOf (do reindex; files)
      (outcome (importDocument targetless "m.json") (ofTexts drafted)).2 = some .noSegments := by
    decide +kernel
  refine ⟨by decide +kernel, answered, unanswered, fun asIt => ?_⟩
  rw [failureOf, asIt.answers, ← failureOf, answered] at unanswered
  cases unanswered

end Session

end Sysml
