import Sysml.Proofs.Scope.Redefining
import Sysml.Proofs.Session.Complete
import Sysml.Proofs.Workspace.Ending
import Sysml.Report

/-!
# What is wrong with a model is no failure

Whatever texts are loaded, building the index over them and analyzing them gives a result
(`analyzeTexts_answers`): what is wrong is found, not failed for. Only two things stop it:
redefinitions that nest without bound, and a redefinition whose target has no segment.
-/

set_option autoImplicit false

/-!
## Workspaces that go by texts

Where symbols, references and imports go by texts, the index is built, or building it fails for
what a redefinition says or for a search without bound (`Workspace.Spelled.rebuild_halts`).
-/

namespace Sysml

open Scope

/-- What a symbol is known by and what it refers to go by texts. -/
structure Symbol.Spelled (symbol : Symbol) : Prop where
  typed : symbol.Typed
  name : symbol.name.isProper = true
  elementId : (Key.given? symbol.elementId).all Key.isProper = true
  references : ∀ reference ∈ symbol.references, reference.Typed

structure SourceFile.Spelled (file : SourceFile) : Prop where
  symbols : ∀ symbol ∈ file.symbols, symbol.Spelled
  imports : ∀ i ∈ file.imports, i.Typed

theorem Symbol.Spelled.renumber {symbol : Symbol} (spelled : symbol.Spelled) (serial : Nat) :
    { symbol with serial }.Spelled :=
  ⟨⟨spelled.typed.qualifiedName, spelled.typed.owner, spelled.typed.imports⟩, spelled.name,
    spelled.elementId, spelled.references⟩

/-- A symbol may be given an id that is a text. -/
theorem Symbol.Spelled.pinned {symbol : Symbol} (spelled : symbol.Spelled) (id : String) :
    { symbol with elementId := some (.text id) }.Spelled := by
  refine ⟨⟨spelled.typed.qualifiedName, spelled.typed.owner, spelled.typed.imports⟩, spelled.name,
    ?_, spelled.references⟩
  cases given : Key.given? (some (Key.text id)) with
  | none => rfl
  | some key =>
    cases (Option.filter_eq_some_iff.mp given).1
    rfl

/-- A symbol that goes by texts can be indexed. -/
theorem Symbol.Spelled.indexable {symbol : Symbol} (spelled : symbol.Spelled) :
    Workspace.isIndexable symbol = true := by
  obtain ⟨name, isName⟩ := spelled.typed.qualifiedName
  have owner : symbol.owner.all Key.isProper = true := by
    cases owned : symbol.owner with
    | none => rfl
    | some owner =>
      obtain ⟨outer, rfl⟩ := spelled.typed.owner owner owned
      rfl
  rw [Workspace.isIndexable, isName, owner, spelled.elementId]
  rfl

theorem Import.Typed.checks (index : Index) {i : Import} (typed : i.Typed) {space : Option Key}
    (isName : Key.IsName space) : i.Checks index space := by
  obtain ⟨path, isPath⟩ := typed.path
  exact ⟨Import.text_isProper isPath, resolveImport_typed index typed isName⟩

namespace Workspace

def Spelled (w : Workspace) : Prop :=
  ∀ file ∈ w.files, file.Spelled

variable {w : Workspace} (spelled : w.Spelled)

include spelled

theorem Spelled.symbols {symbol : Symbol} (known : symbol ∈ w.symbols) : symbol.Spelled := by
  obtain ⟨file, inside, has⟩ := List.mem_flatMap.mp known
  exact (spelled file inside).symbols symbol has

theorem Spelled.index : (Index.build w.symbols w.rootImports).Spelled := by
  refine ⟨Index.build_typed ?_ ?_, ?_⟩
  · intro symbol known
    exact (spelled.symbols known).typed
  · intro entry listed i inEntry
    obtain ⟨file, inside, rfl⟩ := List.mem_map.mp listed
    exact (spelled file inside).imports i inEntry
  · intro symbol known
    exact (spelled.symbols known).references

/-- Where references have an answer or fail as is allowed, the index is built or fails so. -/
theorem Spelled.rebuild_halts {allowed : Failure → Prop}
    (answers : ∀ symbol ∈ w.symbols, ∀ reference ∈ symbol.references,
      Halts allowed (Memo.Within (Index.build w.symbols w.rootImports))
        (Index.build w.symbols w.rootImports).Has
        (resolveReference (Index.build w.symbols w.rootImports) reference symbol)) :
    (∃ later, w.rebuild = (.ok (Index.build w.symbols w.rootImports), later)) ∨
      ∃ failure later, w.rebuild = (.error failure, later) ∧ allowed failure := by
  have nothing : Memo.Within (Index.build w.symbols w.rootImports) [] :=
    fun _ member => (by cases member)
  refine Workspace.rebuild_halts ?_ ?_ ?_ nothing answers
  · intro symbol known
    exact ⟨(spelled.symbols known).indexable, (spelled.symbols known).name⟩
  · intro file inside i listed
    apply ((spelled file inside).imports i listed).checks
    rintro _ ⟨⟩
  · intro symbol known i listed
    apply ((spelled.symbols known).typed.imports i listed).checks
    exact spelled.index.typed.qualifiedName_isName known

/-- The index is built, or it takes a search without bound or a redefinition without a segment to
fail. -/
theorem Spelled.rebuild_allowed {allowed : Failure → Prop} (deep : allowed .unbounded)
    (blank : ∀ symbol ∈ w.symbols, ∀ reference ∈ symbol.references,
      IsBlank (Index.build w.symbols w.rootImports) symbol reference → allowed .noSegments)
    {failure : Failure} {later : Workspace} (failed : w.rebuild = (.error failure, later)) :
    allowed failure := by
  have answers (symbol : Symbol) (known : symbol ∈ w.symbols) (reference : Reference)
      (has : reference ∈ symbol.references) :=
    resolveReference_halts spelled.index deep blank known has
  rcases spelled.rebuild_halts answers with ⟨_, built⟩ | ⟨other, _, failedToo, isAllowed⟩
  · rw [built] at failed
    cases failed
  · rw [failedToo] at failed
    cases failed
    exact isAllowed

/-- Building the index fails for nothing else. -/
theorem Spelled.rebuild_fails {failure : Failure} {later : Workspace}
    (failed : w.rebuild = (.error failure, later)) :
    failure = .unbounded ∨ failure = .noSegments := by
  refine @rebuild_allowed w spelled (fun failure => failure = .unbounded ∨ failure = .noSegments)
    (.inl rfl) ?_ failure later failed
  intro symbol known reference has isBlank
  exact .inr rfl

omit spelled in
/-- The target of each redefinition of a member has a segment. -/
def RedefinesByName (w : Workspace) : Prop :=
  ∀ symbol ∈ w.symbols, symbol.owner.isSome = true → ∀ reference ∈ symbol.references,
    reference.kind = .redefinition → ∀ path ∈ reference.target.text?,
      QualifiedName.segments path ≠ []

/-- Where each redefinition of a member names something, only a search without bound fails. -/
theorem Spelled.rebuild_named (named : w.RedefinesByName) {failure : Failure} {later : Workspace}
    (failed : w.rebuild = (.error failure, later)) : failure = .unbounded := by
  refine @rebuild_allowed w spelled (· = .unbounded) rfl ?_ failure later failed
  intro symbol known reference has isBlank
  obtain ⟨path, isPath⟩ := (spelled.index.references symbol known reference has).target
  have isTarget : path ∈ reference.target.text? := by
    rw [isPath]
    rfl
  exact absurd (isBlank.segments path isPath)
    (named symbol known isBlank.owned reference has isBlank.kind path isTarget)

end Workspace

end Sysml

namespace Sysml

open Scope

theorem Import.Written.typed {i : Import} (written : i.Written) : i.Typed := by
  refine ⟨written.path, ?_⟩
  rw [written.targetId]
  rintro _ ⟨⟩

theorem Reference.Written.typed {reference : Reference} (written : reference.Written) :
    reference.Typed := by
  refine ⟨written.target, ?_, ?_⟩
  · rw [written.targetId]
    rintro _ ⟨⟩
  · rw [written.targetName]
    rintro _ ⟨⟩

theorem Symbol.Written.spelled {symbol : Symbol} {file : String} {isLibrary : Bool}
    (written : symbol.Written file isLibrary) : symbol.Spelled := by
  refine ⟨⟨written.qualifiedName, written.owner, ?_⟩, ?_, ?_, ?_⟩
  · intro i listed
    exact (written.imports i listed).typed
  · obtain ⟨name, isName⟩ := written.name
    rw [isName]
    rfl
  · rw [written.elementId]
    rfl
  · intro reference has
    exact (written.references reference has).typed

/-- What a text gives goes by texts. -/
theorem SourceFile.Parsed.spelled {file : SourceFile} (parsed : file.Parsed) : file.Spelled := by
  refine ⟨?_, ?_⟩
  · intro symbol has
    exact (parsed.written symbol has).spelled
  · intro i listed
    rw [parsed.imports] at listed
    exact (Notation.parse_imports_written _ _ _ i listed).typed

namespace Workspace

variable {w : Workspace}

def RedefinesNothing (w : Workspace) : Prop :=
  ∀ symbol ∈ w.symbols, symbol.owner.isSome = true → ∀ reference ∈ symbol.references,
    reference.kind ≠ .redefinition

section Parsed

variable (parsed : ∀ file ∈ w.files, file.Parsed)

include parsed

theorem spelled_of_parsed : w.Spelled :=
  fun file inside => (parsed file inside).spelled

/-- In texts a namespace around another has a shorter name, so scopes lead to the root. -/
theorem rooted_of_parsed : (Index.build w.symbols w.rootImports).Rooted := by
  refine Index.rooted_of_shorter ?_ ?_
  · intro symbol known
    exact ((spelled_of_parsed parsed).symbols known).typed.qualifiedName
  · intro symbol known name outer isName owned
    obtain ⟨file, inside, has⟩ := List.mem_flatMap.mp known
    obtain ⟨first, same⟩ := (parsed file inside).symbols
    rw [same] at has
    obtain ⟨old, isOld, serial, rfl⟩ := mem_numbered has
    obtain ⟨own, joined⟩ := Notation.parse_joined _ _ _ old isOld outer owned
    rw [Key.text_inj (isName.symm.trans joined), QualifiedName.join]
    simp only [String.length_append]
    have colons : "::".length = 2 := by decide
    omega

/-- Texts in which no member redefines anything have an index on which all references end. -/
theorem tame_of_parsed (plain : w.RedefinesNothing) :
    (Index.build w.symbols w.rootImports).Tame := by
  have spelled := spelled_of_parsed parsed
  have typed := spelled.index.typed
  refine ⟨typed.ids, ?_, ?_, ?_⟩
  · intro symbol known
    exact typed.qualifiedName_isName known
  · intro symbol known reference has
    have isReference := spelled.index.references symbol known reference has
    obtain ⟨bound, isBound⟩ := boundTarget_typed _ isReference
    refine ⟨bound, isBound, fun _ => ⟨isReference.target, ?_, ?_⟩⟩
    · intro redefines
      cases owned : symbol.owner with
      | none => rfl
      | some owner =>
        exact absurd redefines (plain symbol known (by rw [owned]; rfl) reference has)
    · exact (rooted_of_parsed parsed).outwardFuel_enough typed (typed.symbols symbol known).owner
  · intro _ _ isName _ listed
    exact resolveImport_typed _ (typed.importsOf listed) isName

/-- The index over texts in which no member redefines anything is built: other references do not
nest too deep. -/
theorem rebuild_plain (plain : w.RedefinesNothing) :
    ∃ later, w.rebuild = (.ok (Index.build w.symbols w.rootImports), later) := by
  have answers (symbol : Symbol) (known : symbol ∈ w.symbols) (reference : Reference)
      (has : reference ∈ symbol.references) :=
    resolveReference_ends (tame_of_parsed parsed plain) known has
  rcases (spelled_of_parsed parsed).rebuild_halts answers with built | ⟨_, _, _, never⟩
  · exact built
  · exact never.elim

end Parsed

end Workspace

namespace Session

section Ready

variable {session : Session} (consistent : session.Consistent) (ready : session.isReady = true)

include consistent ready

theorem outcome_collectFrom {files : List SourceFile} (known : files ⊆ session.workspace.files) :
    ∃ found, outcome (Report.collectFrom files) session = (.ok found, session) := by
  obtain ⟨index, current⟩ := consistent.current ready
  induction files with
  | nil => exact ⟨[], rfl⟩
  | cons file rest ih =>
    obtain ⟨inside, insideRest⟩ := List.cons_subset.mp known
    obtain ⟨others, collected⟩ := ih insideRest
    rw [Report.collectFrom]
    split
    · exact ⟨others, collected⟩
    · have checked := outcome_checkFile consistent ready current inside
      rw [outcome_bind_of_ok checked, outcome_bind_of_ok collected]
      exact ⟨_, rfl⟩

/-- A session is analyzed while it is ready. -/
theorem analyze_answers :
    ∃ analysis later, outcome Report.analyze session = (.ok analysis, later) := by
  obtain ⟨index, current⟩ := consistent.current ready
  obtain ⟨found, collected⟩ := outcome_collectFrom consistent ready (List.Subset.refl _)
  have gathers : outcome Report.collect session =
      (.ok (found.mergeSort Report.before), session) := by
    unfold Report.collect
    rw [outcome_bind_of_ok (outcome_files ready), outcome_bind_of_ok collected]
    rfl
  have gives : outcome (onWorkspace Workspace.currentIndex) session = (.ok index, session) := by
    rw [outcome_onWorkspace, currentIndex_of_current current]
  have counts : outcome summary session =
      (.ok (session.workspace.files.length, index.symbols.length), session) := by
    unfold summary
    rw [outcome_bind_of_ok (outcome_require ready _), outcome_bind_of_ok (outcome_get session),
      outcome_bind_of_ok gives]
    rfl
  have marks : outcome markDiagnosed session = (.ok ⟨⟩, { session with phase := .diagnosed }) := by
    unfold markDiagnosed
    rw [outcome_bind_of_ok (outcome_require ready _)]
    rfl
  unfold Report.analyze
  rw [outcome_bind_of_ok gathers, outcome_bind_of_ok counts, outcome_bind_of_ok marks]
  exact ⟨_, _, rfl⟩

end Ready

def loadTexts (texts : List (String × String × Bool)) : Operation Unit :=
  texts.forM fun (path, text, isLibrary) => do
    let _ ← load path text isLibrary

def analyzeTexts (texts : List (String × String × Bool)) : Operation Analysis := do
  loadTexts texts
  reindex
  Report.analyze

def ofTexts (texts : List (String × String × Bool)) : Session :=
  after (texts.map fun (path, text, isLibrary) => .load path text isLibrary)

theorem outcome_loadTexts (texts : List (String × String × Bool)) :
    outcome (loadTexts texts) {} = (.ok ⟨⟩, ofTexts texts) := by
  have from_ (session : Session) : outcome (loadTexts texts) session =
      (.ok ⟨⟩, (texts.map fun (path, text, isLibrary) =>
        Change.load path text isLibrary).foldl change session) := by
    induction texts generalizing session with
    | nil => rfl
    | cons first rest ih =>
      obtain ⟨path, text, isLibrary⟩ := first
      have loads : outcome (do let _ ← load path text isLibrary) session =
          (.ok ⟨⟩, session.change (.load path text isLibrary)) := rfl
      exact (outcome_bind_of_ok loads).trans (ih _)
  exact from_ {}

theorem ofTexts_stale (texts : List (String × String × Bool)) :
    (ofTexts texts).phase = .empty ∨ (ofTexts texts).isDirty = true := by
  have from_ (session : Session) (stale : session.phase = .empty ∨ session.isDirty = true) :
      ((texts.map fun (path, text, isLibrary) =>
        Change.load path text isLibrary).foldl change session).phase = .empty ∨
      ((texts.map fun (path, text, isLibrary) =>
        Change.load path text isLibrary).foldl change session).isDirty = true := by
    induction texts generalizing session with
    | nil => exact stale
    | cons first rest ih => exact ih _ (.inr rfl)
  exact from_ {} (.inl rfl)

/-- Building a stale index is building it from the files. -/
theorem reindex_stale {session : Session}
    (stale : session.phase = .empty ∨ session.isDirty = true) :
    (∀ index later, session.workspace.rebuild = (.ok index, later) →
      ∃ next, outcome reindex session = (.ok ⟨⟩, next) ∧ next.isReady = true) ∧
    ∀ failure later, session.workspace.rebuild = (.error failure, later) →
      (outcome reindex session).1 = .error failure := by
  rw [outcome_reindex]
  constructor
  · intro index later built
    rw [built]
    split
    · exact ⟨_, rfl, rfl⟩
    · next isOpen =>
      rw [stale.resolve_left isOpen]
      exact ⟨_, rfl, rfl⟩
  · intro failure later failed
    rw [failed]
    split
    · rfl
    · next isOpen =>
      rw [stale.resolve_left isOpen]
      rfl

section Texts

variable {texts : List (String × String × Bool)}

theorem ofTexts_parsed : ∀ file ∈ (ofTexts texts).workspace.files, file.Parsed := by
  have read : (ofTexts texts).Read := by
    apply after_read
    intro change listed
    obtain ⟨_, _, rfl⟩ := List.mem_map.mp listed
    rfl
  exact read.parsed

/-- Texts are analyzed if the index over them can be built, and else fail as building it does. -/
theorem outcome_analyzeTexts :
    (∀ index later, (ofTexts texts).workspace.rebuild = (.ok index, later) →
      ∃ analysis final, outcome (analyzeTexts texts) {} = (.ok analysis, final)) ∧
    ∀ failure later, (ofTexts texts).workspace.rebuild = (.error failure, later) →
      (outcome (analyzeTexts texts) {}).1 = .error failure := by
  have indexes : outcome (analyzeTexts texts) {} =
      outcome (do reindex; Report.analyze) (ofTexts texts) :=
    outcome_bind_of_ok (outcome_loadTexts texts)
  have consistent : (ofTexts texts).Consistent := after_consistent _
  obtain ⟨answers, fails⟩ := reindex_stale (ofTexts_stale texts)
  rw [indexes]
  constructor
  · intro index later built
    obtain ⟨session, ran, ready⟩ := answers index later built
    have reindexed := keeps_reindex _ consistent
    rw [ran] at reindexed
    rw [outcome_bind_of_ok ran]
    exact analyze_answers reindexed ready
  · intro failure later failed
    have isFailure := fails failure later failed
    rcases ran : outcome reindex (ofTexts texts) with ⟨other | _, next⟩ <;> rw [ran] at isFailure
    · rw [outcome_bind_of_error ran, Except.error.inj isFailure]
    · cases isFailure

/-- Texts are loaded, indexed and analyzed, unless redefinitions nest without bound; each
redefinition of a member has to name something. -/
theorem analyzeTexts_answers (named : (ofTexts texts).workspace.RedefinesByName)
    (bounded : (outcome (analyzeTexts texts) {}).1 ≠ .error .unbounded) :
    ∃ analysis later, outcome (analyzeTexts texts) {} = (.ok analysis, later) := by
  obtain ⟨answers, fails⟩ := @outcome_analyzeTexts texts
  rcases built : (ofTexts texts).workspace.rebuild with ⟨failure | index, later⟩
  · have isDeep := (Workspace.spelled_of_parsed ofTexts_parsed).rebuild_named named built
    subst isDeep
    exact absurd (fails _ later built) bounded
  · exact answers index later built

end Texts

/-- A usage that redefines one which its owner inherits, and a definition of something that is
not there. -/
def redefined : List (String × String × Bool) :=
  [("m.sysml", "part def A { part x; } part def B :> A { part y :>> x; } part def C :> Z;", false)]

theorem analyzeTexts_answers_redefined :
    (ofTexts redefined).workspace.RedefinesByName ∧
      (outcome (analyzeTexts redefined) {}).1 ≠ .error .unbounded ∧
      ∃ analysis later, outcome (analyzeTexts redefined) {} = (.ok analysis, later) := by
  have named : (ofTexts redefined).workspace.RedefinesByName := by
    unfold Workspace.RedefinesByName
    decide +kernel
  have bounded : (outcome (analyzeTexts redefined) {}).1 ≠ .error .unbounded := by
    have answered : (outcome (analyzeTexts redefined) {}).1.toOption.isSome = true := by
      decide +kernel
    intro failed
    rw [failed] at answered
    cases answered
  exact ⟨named, bounded, analyzeTexts_answers named bounded⟩

/-- A usage that redefines what a name made of nothing but a separator names. -/
def redefinedColons : List (String × String × Bool) :=
  [("m.sysml", "part def A \x7b part x :>> '::'; \x7d", false)]

/-- A redefinition without a segment is no finding: the index is not built. -/
theorem redefinedColons_unanswered :
    (outcome (analyzeTexts redefinedColons) {}).1 = .error .noSegments ∧
      ¬ ∃ analysis later, outcome (analyzeTexts redefinedColons) {} = (.ok analysis, later) := by
  have failed : (outcome (analyzeTexts redefinedColons) {}).1 = .error .noSegments := by
    have isFailure : (match (outcome (analyzeTexts redefinedColons) {}).1 with
        | .ok _ => false
        | .error failure => decide (failure = .noSegments)) = true := by
      decide +kernel
    split at isFailure
    · cases isFailure
    · next failure same => rw [same, of_decide_eq_true isFailure]
  refine ⟨failed, ?_⟩
  rintro ⟨analysis, later, answered⟩
  rw [answered] at failed
  cases failed

end Session

end Sysml
