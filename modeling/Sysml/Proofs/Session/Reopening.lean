import Sysml.Document.Companion
import Sysml.Document.SourceText
import Sysml.Proofs.Document.Grounded
import Sysml.Proofs.Document.Restored
import Sysml.Proofs.Session.Silent

/-!
# Documents that are told and read again

The source text of a document and its companion data give a new session, in which the document
is built again.
-/

set_option autoImplicit false

namespace Sysml

open Scope

/-- Loads the source text of a document, applies its companion data and builds the index. -/
def Session.reopen (document : Document) (path : String) : Operation Unit := do
  let text ← document.sourceText
  let entries ← Document.companionEntries (document.companion path)
  let _ ← load path text false
  let _ ← applyEntries entries
  reindex

namespace Workspace

variable {w later : Workspace} {document : Document} {index : Index}

structure Restores (w : Workspace) (document : Document) : Prop where
  checked : w.Checked
  user : ∀ file ∈ w.files, file.isLibrary = false
  serials : (w.symbols.map (·.serial)).Nodup
  recalls : (Index.build w.symbols w.rootImports).Recalls document

/-- The index of a workspace that recalls a document is built if its references have answers. -/
theorem Recalls.restores (recalls : w.Recalls document) (built : w.rebuild = (.ok index, later)) :
    later.Restores document := by
  obtain ⟨checked, files⟩ := checked_rebuild built
  have symbols : later.symbols = w.symbols := by rw [Workspace.symbols, files]; rfl
  have roots : later.rootImports = w.rootImports := by rw [rootImports, files]; rfl
  refine ⟨checked, files ▸ recalls.user, symbols ▸ recalls.unindexed.serials, ?_⟩
  rw [symbols, roots]
  exact recalls.index

/-- The index is built where all references have answers. -/
theorem Recalls.rebuild_finishes (recalls : w.Recalls document) (told : document.Told)
    {inv : Memo → Prop} (first : inv []) (answers : ∀ symbol ∈ w.symbols,
      ∀ reference ∈ symbol.references, Finishes inv (Index.build w.symbols w.rootImports).Has
        (resolveReference (Index.build w.symbols w.rootImports) reference symbol)) :
    ∃ later, w.rebuild = (.ok (Index.build w.symbols w.rootImports), later) := by
  refine Workspace.rebuild_finishes (fun symbol known => ?_) (fun file inside i asked => ?_)
    (fun symbol known i asked => ?_) first answers
  · obtain ⟨record, member, isElement⟩ := recalls.known symbol known
    obtain ⟨id, _, isId⟩ := told.portable.typed.id_text (Document.elements_subset document member)
    refine ⟨?_, by rw [isElement.name]; rfl⟩
    have owner : symbol.owner.all Key.isProper = true := by
      rcases isElement.owner with ⟨_, unowned⟩ | ⟨above, _, isOwner⟩
      · rw [unowned]
        rfl
      · rw [isOwner]
        rfl
    rw [isIndexable, owner, isElement.qualifiedName, isElement.elementId,
      told.portable.typed.id_given (Document.elements_subset document member), isId]
    rfl
  · rw [recalls.roots file inside] at asked
    cases asked
  · obtain ⟨record, member, isElement⟩ := recalls.known symbol known
    obtain ⟨relation, target, relates, stands⟩ := told.import_relates member isElement asked
    obtain ⟨goal, _, _, resolved⟩ :=
      recalls.index.resolveImport relates.targetIn stands (some symbol.qualifiedName)
    exact ⟨Import.text_isProper stands.path, _, resolved⟩

/-- The index is built where nothing is redefined, or each redefinition ends. -/
theorem Recalls.rebuild_ends (recalls : w.Recalls document) (told : document.Told)
    (ending : document.RedefinitionsEnd) :
    ∃ later, w.rebuild = (.ok (Index.build w.symbols w.rootImports), later) := by
  rcases ending with plain | ⟨faithful, grounded⟩
  · have tame := recalls.index.tame told plain
    exact recalls.rebuild_finishes told (fun _ member => (by cases member))
      fun symbol known reference asked => resolveReference_ends tame known asked
  · exact recalls.rebuild_finishes told (Memo.upheld_nil _ _) fun symbol known reference asked =>
      refer_finishes recalls.index told faithful grounded known asked

namespace Restores

variable (restores : w.Restores document) (told : document.Told)

include restores told

/-- What was found for a reference means the same ever after. -/
theorem answered : ∀ symbol ∈ w.symbols,
    Answered (Index.build w.symbols w.rootImports) w.memo symbol := by
  intro symbol known
  obtain ⟨file, inside, has⟩ := List.mem_flatMap.mp known
  obtain ⟨record, member, isElement⟩ := restores.recalls.known symbol known
  have unbound : ∀ file ∈ w.files, ∀ symbol ∈ file.symbols, Unbound symbol := by
    intro file inside symbol has reference asked
    obtain ⟨record, member, isElement⟩ :=
      restores.recalls.known symbol (List.mem_flatMap_of_mem inside has)
    obtain ⟨entry, _, isRecalled⟩ := exists_related isElement.references asked
    rw [isRecalled.targetId]
    rfl
  have related := checkFiles_tells (Index.build_idsWithin _ _) (fun _ member => (by cases member))
    unbound restores.checked.check fun _ _ was => was
  obtain ⟨entry, _, _, _, isTold⟩ := exists_related_right related
    (List.mem_filter.mpr ⟨inside, by simp [restores.user file inside]⟩)
  obtain ⟨outer, inner, _, _, _, tells⟩ := isTold
  refine ⟨tells.references symbol has, tells.imports symbol has, fun i asked => ?_⟩
  obtain ⟨relation, target, relates, stands⟩ := told.import_relates member isElement asked
  obtain ⟨goal, _, _, resolved⟩ :=
    restores.recalls.resolveImport relates.targetIn stands (some symbol.qualifiedName)
  rw [naming, resolved]
  exact ⟨_, rfl⟩

/-- All that is remembered answers paths as it should. -/
theorem upheld : w.memo.Upheld (Index.build w.symbols w.rootImports)
    (document.Answers (Index.build w.symbols w.rootImports)) := by
  have upholds := restores.recalls.upholds told
  have keeps := checkFiles_related (Keeps.simulation (Memo.Upheld _ _))
    (fun reference symbol => referAt_upholds upholds restores.recalls.ids _ [] reference symbol)
    (duplicates [] w.symbols) w.files
  have stores := keeps.stores (Memo.upheld_nil _ _)
  have checked : outcome (checkFiles (Index.build w.symbols w.rootImports)
      (duplicates [] w.symbols) w.files) [] = (.ok w.findings, w.memo) := restores.checked.check
  rwa [checked] at stores

/-- Each reference means something where redefinitions can be told from what they redefine. -/
theorem meant (discerned : ∀ relation source target, document.Redefines relation source target →
      document.Discerned source target) :
    document.Meant (Index.build w.symbols w.rootImports) w.memo fun _ _ => True := by
  intro symbol known record member isElement reference asked relation target relates stands
  have means := restores.recalls.reference_means told restores.serials known isElement relates
    (discerned relation record target) stands
  have answers := (restores.answered told symbol known).references reference asked
  obtain ⟨has, isSome⟩ := means.answers (restores.upheld told) _ (congrArg Prod.fst answers)
  obtain ⟨goal, isGoal⟩ := Option.ne_none_iff_exists'.mp isSome
  exact ⟨goal, has goal isGoal, isGoal, trivial⟩

end Restores

end Workspace

namespace Session

variable {document : Document}

/-- The source text and the companion data of a document that is told by a text are taken in,
and then the index is built. -/
theorem outcome_reopen (told : document.Told) (path : String) :
    ∃ session : Session, session.Consistent ∧ session.workspace.Recalls document ∧
      session.phase = .loading ∧ session.isDirty = true ∧
      outcome (reopen document path) {} = outcome reindex session := by
  obtain ⟨text, entries, isText, companion, total, later, applied, recalls⟩ := told.reread path
  have tidy : later.Tidy := by
    have kept := (Workspace.applyEntries_steady
      (Workspace.tidy_empty.load path text false) entries).1
    rwa [applied] at kept
  set started : Session := ({ workspace := ({} : Workspace).load path text false } : Session).touched
  obtain ⟨faults, loaded⟩ : ∃ faults, outcome (load path text false) {} = (.ok faults, started) :=
    ⟨_, rfl⟩
  have ran : outcome (onWorkspace (·.applyEntries entries)) started =
      (.ok total, ({ workspace := later } : Session).touched) := by
    rw [outcome_onWorkspace, show started.workspace.applyEntries entries = _ from applied]
    rfl
  have pinned : outcome (applyEntries entries) started =
      (.ok total, ({ workspace := later } : Session).touched) := by
    unfold applyEntries
    rw [outcome_bind_of_ok ran]
    split <;> rfl
  refine ⟨({ workspace := later } : Session).touched, consistent_touched tidy, recalls, rfl, rfl, ?_⟩
  unfold reopen
  rw [outcome_bind_of_ok ((outcome_liftM _ _).trans (by rw [isText])),
    outcome_bind_of_ok ((outcome_liftM _ _).trans (by rw [companion])), outcome_bind_of_ok loaded,
    outcome_bind_of_ok pinned]

/-- What is reopened restores the document. -/
theorem reopen_restores (told : document.Told) {path : String} {session : Session}
    (ran : outcome (reopen document path) {} = (.ok ⟨⟩, session)) :
    session.Consistent ∧ session.isReady = true ∧ session.workspace.Restores document := by
  obtain ⟨before, consistent, recalls, phase, isDirty, same⟩ := outcome_reopen told path
  have kept := keeps_reindex before consistent
  have ran := same.symm.trans ran
  rw [ran] at kept
  rw [outcome_reindex, if_neg (by simp [phase]), if_pos isDirty] at ran
  split at ran
  · next built =>
    cases ran
    exact ⟨kept, rfl, recalls.restores built⟩
  · cases ran

/-- A document is reopened where nothing is redefined, or each redefinition ends. -/
theorem reopen_ends (told : document.Told) (path : String) (ending : document.RedefinitionsEnd) :
    ∃ session, outcome (reopen document path) {} = (.ok ⟨⟩, session) := by
  obtain ⟨before, consistent, recalls, phase, isDirty, same⟩ := outcome_reopen told path
  obtain ⟨later, built⟩ := recalls.rebuild_ends told ending
  rw [same, outcome_reindex, if_neg (by simp [phase]), if_pos isDirty, built]
  exact ⟨_, rfl⟩

/-- A document is built again where its workspace was restored. -/
theorem buildDocument_restored {session : Session} (consistent : session.Consistent)
    (ready : session.isReady = true) (restores : session.workspace.Restores document)
    (told : document.Told) {leads : Record → Symbol → Prop}
    (meant : document.Meant (Index.build session.workspace.symbols session.workspace.rootImports)
      session.workspace.memo leads)
    (named : ∀ target goal, goal.RecallsAll document target → leads target goal) (name : Value) :
    ∃ again later, outcome (buildDocument false name) session = (.ok again, later) ∧
      (∀ id, id ∈ again.ids ↔ id ∈ document.ids) ∧
      ∀ relation source target, document.Relates relation source target →
        ∃ kept ∈ again.records, kept.id = relation.id ∧ kept.kind = relation.kind ∧
          kept.source = relation.source ∧
          ∃ goal ∈ session.workspace.symbols, kept.target = some (Draft.idOf
            (Index.build session.workspace.symbols session.workspace.rootImports) goal) ∧
              leads target goal := by
  obtain ⟨index, current⟩ := consistent.current ready
  obtain rfl : index = Index.build session.workspace.symbols session.workspace.rootImports :=
    Option.some.inj (current.found.symm.trans restores.checked.found)
  have own : session.workspace.ownSymbols =
      (Index.build session.workspace.symbols session.workspace.rootImports).symbols := by
    rw [consistent.tidy.ownSymbols_eq]
    refine List.filter_eq_self.mpr fun symbol known => ?_
    obtain ⟨record, _, isElement⟩ := restores.recalls.known symbol known
    rw [isElement.library]
    rfl
  obtain ⟨draft, composed, ids, kept⟩ := @Index.Recalls.compose _ _ _ restores.recalls told _ meant
    named current.memo restores.serials (restores.answered told) false
  have ran := outcome_buildDocument consistent ready current false name
  rw [own, composed] at ran
  exact ⟨_, _, ran, ids, kept⟩

/-- The document of texts without diagnostics is built. Its source text and its companion data
can be taken into a new session, where nothing is redefined or each redefinition ends; and the
document that is built there has the same ids, where features that redefine others can be told
from these. -/
theorem buildDocument_reopened {changes : List Change} {session : Session} {index : Index}
    (reads : ∀ change ∈ changes, change.reads = true) (reached : after changes = session)
    (user : ∀ file ∈ session.workspace.files, file.isLibrary = false) (silent : session.Silent)
    (indexed : session.workspace.index = some index)
    (legible : ∀ symbol ∈ index.symbols, symbol.Legible) (names : index.NamesApart)
    (apart : MintsApart (mintKeys index session.workspace.memo)) (name newName : Value)
    (path : String) :
    ∃ document exported, outcome (buildDocument false name) session = (.ok document, exported) ∧
      (document.RedefinitionsEnd → ∃ reopened, outcome (reopen document path) {} = (.ok ⟨⟩, reopened)) ∧
      ∀ reopened, outcome (reopen document path) {} = (.ok ⟨⟩, reopened) →
        (∀ relation source target, document.Redefines relation source target →
          document.Discerned source target) →
        ∃ again later, outcome (buildDocument false newName) reopened = (.ok again, later) ∧
          ∀ id, id ∈ again.ids ↔ id ∈ document.ids := by
  obtain ⟨document, exported, built, _, told, _⟩ :=
    buildDocument_told reads reached user silent indexed legible names apart name
  refine ⟨document, exported, built, reopen_ends told path, fun reopened ran discerned => ?_⟩
  obtain ⟨consistent, ready, restores⟩ := reopen_restores told ran
  obtain ⟨again, later, ran, ids, _⟩ := buildDocument_restored consistent ready restores told
    (restores.meant told discerned) (fun _ _ _ => trivial) newName
  exact ⟨again, later, ran, ids⟩

def typedText : String :=
  "package P \x7b part def A; part a : A; \x7d"

/-- What is found in the session of the part with a type. -/
theorem typedText_found {session : Session}
    (reached : after [.load "m.sysml" typedText false, .reindex] = session) :
    session.Silent ∧ (∀ file ∈ session.workspace.files, file.isLibrary = false) ∧
      (∀ symbol ∈ (Index.build session.workspace.symbols session.workspace.rootImports).symbols,
        symbol.Identified) ∧
      MintsApart (mintKeys (Index.build session.workspace.symbols session.workspace.rootImports)
        session.workspace.memo) ∧
      ((outcome (buildDocument false (.text "model")) session).1.toOption.any fun document =>
        document.records.length == 4 && document.relationships.length == 1 &&
          (document.relationships.all fun relation => relation.kind == "FeatureTyping") &&
          (document.elements.all fun record => Notation.isPlainName record.ownName &&
            !record.shortName.text?.isSome) &&
          decide (document.elements.map Record.ownName).Nodup) = true := by
  -- one evaluation for all that is asked of the session
  have found : session.isReady = true ∧
      (session.workspace.files.all fun file => file.faults.isEmpty &&
        ((session.workspace.findings.lookup file.path).getD []).isEmpty) = true ∧
      (∀ file ∈ session.workspace.files, file.isLibrary = false) ∧
      (∀ symbol ∈ (Index.build session.workspace.symbols session.workspace.rootImports).symbols,
        symbol.Identified) ∧
      ((mintKeys (Index.build session.workspace.symbols session.workspace.rootImports)
        session.workspace.memo).map fun key => Document.mintId key.1 key.2).Nodup ∧
      ((outcome (buildDocument false (.text "model")) session).1.toOption.any fun document =>
        document.records.length == 4 && document.relationships.length == 1 &&
          (document.relationships.all fun relation => relation.kind == "FeatureTyping") &&
          (document.elements.all fun record => Notation.isPlainName record.ownName &&
            !record.shortName.text?.isSome) &&
          decide (document.elements.map Record.ownName).Nodup) = true := by
    subst reached
    decide +kernel
  obtain ⟨ready, nothing, user, identified, minted, checked⟩ := found
  subst reached
  exact ⟨after_silent ready nothing, user, identified, mintsApart_of_nodup minted, checked⟩

theorem buildDocument_reopened_typed :
    ∃ session index document exported reopened again later,
      after [.load "m.sysml" typedText false, .reindex] = session ∧ session.Silent ∧
      session.workspace.index = some index ∧ (∀ symbol ∈ index.symbols, symbol.Legible) ∧
      index.NamesApart ∧ MintsApart (mintKeys index session.workspace.memo) ∧
      outcome (buildDocument false (.text "model")) session = (.ok document, exported) ∧
      document.records.length = 4 ∧
      outcome (reopen document "m.sysml") {} = (.ok ⟨⟩, reopened) ∧
      outcome (buildDocument false (.text "model")) reopened = (.ok again, later) ∧
      ∀ id, id ∈ again.ids ↔ id ∈ document.ids := by
  have reads : ∀ change ∈ ([.load "m.sysml" typedText false, .reindex] : List Change),
      change.reads = true := by decide
  generalize reached : after [.load "m.sysml" typedText false, .reindex] = session
  obtain ⟨silent, user, identified, apart, checked⟩ := typedText_found reached
  have indexed := ((reached ▸ after_read reads).checked silent.ready).found
  have spoken := silent.spoken reads reached user indexed
  have legible : ∀ symbol ∈ (Index.build session.workspace.symbols
      session.workspace.rootImports).symbols, symbol.Legible :=
    fun symbol known => (identified symbol known).legible (spoken symbol known)
  have names := silent.names reads reached user indexed identified
  obtain ⟨document, exported, built, ends, same⟩ := buildDocument_reopened reads reached user silent
    indexed legible names apart (.text "model") (.text "model") "m.sysml"
  rw [built] at checked
  simp only [Except.toOption, Option.any_some, Bool.and_eq_true, List.all_eq_true, beq_iff_eq]
    at checked
  obtain ⟨⟨⟨⟨counted, -⟩, kinds⟩, -⟩, -⟩ := checked
  have plain : ∀ relation source target, ¬ document.Redefines relation source target := by
    intro relation source target redefines
    have isTyping := kinds relation (List.mem_filter.mp redefines.listed).1
    exact absurd (isTyping.symm.trans redefines.kind) (by decide)
  obtain ⟨reopened, ran⟩ := ends (.inl plain)
  obtain ⟨again, later, builtAgain, sameIds⟩ := same reopened ran
    fun relation source target redefines => absurd redefines (plain relation source target)
  exact ⟨session, _, document, exported, reopened, again, later, rfl, silent, indexed, legible, names,
    apart, built, counted, ran, builtAgain, sameIds⟩

/-- A session's document and the one that is built after it was reopened agree in some way. -/
def reopenedAs (session : Session) (file : String) (agree : Document → Document → Bool) : Bool :=
  match outcome (buildDocument false (.text "model")) session with
  | (.ok document, _) =>
      match outcome (reopen document file) {} with
      | (.ok _, reopened) =>
          match outcome (buildDocument false (.text "model")) reopened with
          | (.ok again, _) => agree document again
          | _ => false
      | _ => false
  | _ => false

theorem exists_reopened {session : Session} {file : String} {agree : Document → Document → Bool}
    (agreed : reopenedAs session file agree = true) :
    ∃ document exported reopened again later,
      outcome (buildDocument false (.text "model")) session = (.ok document, exported) ∧
      outcome (reopen document file) {} = (.ok ⟨⟩, reopened) ∧
      outcome (buildDocument false (.text "model")) reopened = (.ok again, later) ∧
      agree document again = true := by
  unfold reopenedAs at agreed
  split at agreed
  · next document exported built =>
    split at agreed
    · next reopened ran =>
      split at agreed
      · next again later builtAgain =>
        exact ⟨document, exported, reopened, again, later, built, ran, builtAgain, agreed⟩
      · cases agreed
    · cases agreed
  · cases agreed

def escapedText : String :=
  "package 'a\\'b';"

/-- An escaped name is not told as it was: the package gets another id. -/
theorem buildDocument_reopened_escaped :
    ∃ session document exported reopened again later,
      after [.load "m.sysml" escapedText false, .reindex] = session ∧ session.Silent ∧
      outcome (buildDocument false (.text "model")) session = (.ok document, exported) ∧
      outcome (reopen document "m.sysml") {} = (.ok ⟨⟩, reopened) ∧
      outcome (buildDocument false (.text "model")) reopened = (.ok again, later) ∧
      ¬ ∀ id, id ∈ again.ids ↔ id ∈ document.ids := by
  generalize reached : after [.load "m.sysml" escapedText false, .reindex] = session
  have found : session.isReady = true ∧
      (session.workspace.files.all fun file => file.faults.isEmpty &&
        ((session.workspace.findings.lookup file.path).getD []).isEmpty) = true ∧
      reopenedAs session "m.sysml" (fun document again =>
        document.ids.any fun id => !again.ids.contains id) = true := by
    subst reached
    decide +kernel
  obtain ⟨ready, nothing, lost⟩ := found
  have silent : session.Silent := by
    subst reached
    exact after_silent ready nothing
  obtain ⟨document, exported, reopened, again, later, built, ran, builtAgain, differs⟩ :=
    exists_reopened lost
  refine ⟨session, document, exported, reopened, again, later, rfl, silent, built, ran, builtAgain,
    ?_⟩
  intro same
  obtain ⟨id, isId, absent⟩ := List.any_eq_true.mp differs
  have held : again.ids.contains id = true :=
    List.contains_iff_exists_mem_beq.mpr ⟨id, (same id).mpr isId, BEq.rfl⟩
  rw [held] at absent
  cases absent

end Session

end Sysml
