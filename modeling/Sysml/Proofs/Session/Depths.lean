import Sysml.Proofs.Document.TakingIn
import Sysml.Proofs.Scope.Descent
import Sysml.Proofs.Session.Reachable

/-!
# Namespaces of a session

In texts a member's name says what it is inside of. Documents give owners and names apart from
each other, and may contradict themselves. Where the elements of all documents that are taken in
lie deeper than their owners, so do all symbols of a session, whatever texts they stand among:
scopes lead to the root, no symbol is below itself, and searches outward and downward come to an
end (`namespaces_end`). A document whose element owns itself makes a symbol that is its own member
(`self_owned_member`).
-/

set_option autoImplicit false

namespace Sysml

open Scope

def Document.Deeper (depth : Key.Code → Nat) (document : Document) : Prop :=
  ∀ record ∈ document.records, record.isRelationship = false →
    ∀ owner, document.ownerOf? record = some owner → ∀ name outer,
      document.qualifiedNameOf record = .ok name → document.qualifiedNameOf owner = .ok outer →
        depth outer.code < depth name.code

/-- A change that loads a text, takes in a document whose elements lie deeper than their owners, or
builds the index. -/
def Change.Deeper (depth : Key.Code → Nat) : Change → Prop
  | .load _ _ _ | .reindex => True
  | .importDocument document _ => document.Deeper depth
  | .loadModel _ _ | .applyEntries _ => False

variable {depth : Key.Code → Nat}

theorem Symbol.Deeper.congr {one other : Symbol} (deeper : one.Deeper depth)
    (owner : other.owner = one.owner) (name : other.qualifiedName = one.qualifiedName) :
    other.Deeper depth := by
  intro space owned
  rw [name]
  exact deeper space (owner ▸ owned)

/-- A symbol that a text declares lies deeper than its owner. -/
theorem Notation.parse_deeper (deepens : Deepens depth) (file text : String) (isLibrary : Bool) :
    ∀ symbol ∈ (parse file text isLibrary).symbols, symbol.Deeper depth := by
  intro symbol member owner owned
  obtain ⟨outer, rfl⟩ := (parse_written file text isLibrary symbol member).owner owner owned
  obtain ⟨name, joined⟩ := parse_joined file text isLibrary symbol member outer owned
  rw [joined]
  exact deepens outer name

namespace Workspace

variable {w : Workspace}

/-- All symbols that a workspace holds lie deeper than their owners. -/
structure Deeper (depth : Key.Code → Nat) (w : Workspace) : Prop where
  symbols : ∀ symbol ∈ w.symbols, symbol.Deeper depth
  index : ∀ index, w.index = some index → index.Deeper depth

theorem Deeper.put (deeper : w.Deeper depth) {file : SourceFile}
    (new : ∀ symbol ∈ file.symbols, symbol.Deeper depth) : (w.put file).Deeper depth := by
  constructor
  · intro symbol member
    rw [put_symbols] at member
    rcases List.mem_append.mp member with old | fresh
    · exact deeper.symbols symbol ((List.filter_sublist.flatMap _).subset old)
    · obtain ⟨before, given, _, rfl⟩ := mem_numbered fresh
      exact (new before given).congr rfl rfl
  · intro index found
    obtain ⟨old, held, rfl⟩ := Option.map_eq_some_iff.mp found
    exact deeper.index old held

theorem Deeper.load (deeper : w.Deeper depth) (deepens : Deepens depth) (path text : String)
    (isLibrary : Bool) : (w.load path text isLibrary).Deeper depth :=
  deeper.put (Notation.parse_deeper deepens path text isLibrary)

theorem Deeper.build (deeper : w.Deeper depth) :
    (Index.build w.symbols w.rootImports).Deeper depth :=
  deeper.symbols

theorem Deeper.rebuild (deeper : w.Deeper depth) : w.rebuild.2.Deeper depth := by
  have reindexed (findings : List (String × List Diagnostic)) (memo : Memo) :
      Workspace.Deeper depth { w.reindexed with findings, memo } := by
    refine ⟨deeper.symbols, fun index found => ?_⟩
    cases found
    exact deeper.build
  rw [rebuild_eq]
  split
  · exact deeper
  · split
    · exact reindexed _ _
    · split <;> exact reindexed _ _

/-- Giving an id moves nothing. -/
theorem Deeper.pin (deeper : w.Deeper depth) (serial : Nat) (id : Key) :
    (w.pin serial id).Deeper depth := by
  have pinned (symbols : List Symbol) (all : ∀ symbol ∈ symbols, symbol.Deeper depth) :
      ∀ symbol ∈ symbols.map (fun symbol =>
        if symbol.serial = serial then { symbol with elementId := some id } else symbol),
        symbol.Deeper depth := by
    intro symbol member
    obtain ⟨old, held, rfl⟩ := List.mem_map.mp member
    split
    · exact (all old held).congr rfl rfl
    · exact all old held
  constructor
  · intro symbol member
    rw [Workspace.pin, adjust_symbols] at member
    exact pinned w.symbols deeper.symbols symbol member
  · intro index found
    obtain ⟨old, held, rfl⟩ := Option.map_eq_some_iff.mp found
    exact pinned old.symbols (deeper.index old held)

end Workspace

namespace Document

variable {document : Document}

/-- The symbol of an element lies deeper than its owner. -/
theorem Deeper.symbolOf (deeper : document.Deeper depth) {source : String} {record : Record}
    (member : record ∈ document.records) (isElement : record.isRelationship = false) {name : Key}
    (isName : document.qualifiedNameOf record = .ok name) {symbol : Symbol}
    (made : document.symbolOf source name record = .ok symbol) : symbol.Deeper depth := by
  obtain ⟨owner?, owners, made⟩ := result_bind_ok made
  obtain ⟨direction, _, made⟩ := result_bind_ok made
  cases made
  rintro outer rfl
  cases owned : (Key.given? record.owner).bind document.last? with
  | none =>
    rw [owned] at owners
    cases owners
  | some owner =>
    rw [owned] at owners
    obtain ⟨named, isOuter, same⟩ := result_map_ok owners
    cases same
    exact deeper record member isElement owner owned name outer isName isOuter

/-- Relationships move no symbol. -/
theorem attach?_deeper {names : List (Key × Key)} {record : Record} {change : Symbol → Symbol}
    (adds : attach? names record = .ok (some change)) {symbol : Symbol}
    (deeper : symbol.Deeper depth) : (change symbol).Deeper depth := by
  unfold attach? at adds
  split at adds
  · obtain ⟨visibility, _, adds⟩ := result_bind_ok adds
    cases adds
    exact deeper.congr rfl rfl
  · obtain ⟨kind, _, rfl⟩ := Option.map_eq_some_iff.mp (Except.ok.inj adds)
    exact deeper.congr rfl rfl

theorem attachAll_deeper {names : List (Key × Key)} {records : List Record}
    {symbols attached : List Symbol} {skipped count : Nat}
    (deeper : ∀ symbol ∈ symbols, symbol.Deeper depth)
    (adds : attachAll names symbols skipped records = .ok (attached, count)) :
    ∀ symbol ∈ attached, symbol.Deeper depth := by
  induction records generalizing symbols skipped with
  | nil =>
    cases adds
    exact deeper
  | cons record rest ih =>
    rw [attachAll] at adds
    split at adds
    · obtain ⟨change?, isChange, adds⟩ := result_bind_ok adds
      cases change? with
      | none => exact ih deeper adds
      | some change =>
        refine ih (fun symbol member => ?_) adds
        rcases mem_changeLast member with old | ⟨old, held, rfl⟩
        · exact deeper symbol old
        · exact attach?_deeper isChange (deeper old held)
    · exact ih deeper adds

end Document

namespace Session

/-- An operation that leaves all symbols deeper than their owners, and whose answers have a
property. -/
abbrev Deepening {α : Type} (depth : Key.Code → Nat) (post : α → Prop) (run : Operation α) : Prop :=
  Ensures (fun session : Session => session.workspace.Deeper depth) post run

theorem onWorkspace_deepening {α : Type} {run : Workspace → Except Failure α × Workspace}
    (keeps : ∀ w : Workspace, w.Deeper depth → (run w).2.Deeper depth) :
    Deepening depth (fun _ => True) (onWorkspace run) := by
  refine ⟨fun _ _ => trivial, fun {session} deeper => ?_⟩
  rw [outcome_onWorkspace]
  exact keeps session.workspace deeper

theorem reindex_deepening : Deepening depth (fun _ => True) reindex := by
  have rebuilds := onWorkspace_deepening fun w (deeper : w.Deeper depth) => deeper.rebuild
  unfold reindex
  refine Ensures.reads.bind fun session _ => ?_
  split
  · exact rebuilds.bind fun _ _ => .changes fun _ deeper => deeper
  · refine Ensures.reads.bind fun session _ => ?_
    split
    · exact rebuilds.bind fun _ _ => .changes fun _ deeper => deeper
    · exact .pure trivial

theorem require_deepening (operation : String) :
    Deepening depth (fun _ => True) (require operation) := by
  unfold require
  refine Ensures.reads.bind fun session _ => ?_
  split
  · exact .throw _
  · exact .pure trivial

theorem index_deepening : Deepening depth (fun _ => True) index := by
  refine (require_deepening _).bind fun _ _ => onWorkspace_deepening fun w deeper => ?_
  unfold Workspace.currentIndex
  split
  · exact deeper
  · exact deeper.rebuild

theorem takeElements_deepening {document : Document} (nested : document.Deeper depth)
    (source : String) (index : Index) {records : List Record} (part : records ⊆ document.records)
    {taken : Document.Elements} (before : ∀ symbol ∈ taken.symbols, symbol.Deeper depth) :
    Deepening depth (fun taken => ∀ symbol ∈ taken.symbols, symbol.Deeper depth)
      (document.takeElements source index taken records) := by
  induction records generalizing taken with
  | nil => exact .pure before
  | cons record rest ih =>
    obtain ⟨member, partRest⟩ := List.cons_subset.mp part
    rw [Document.takeElements]
    split
    · exact ih partRest before
    · next isElement =>
      refine (Ensures.ofExcept _).bind fun name isName => ?_
      refine (Ensures.lift _).bind fun twin? _ => ?_
      cases twin? with
      | some twin =>
        refine (Ensures.changes fun session deeper => ?_).bind fun _ _ => ih partRest before
        exact Workspace.Deeper.pin deeper _ _
      | none =>
        refine (Ensures.ofExcept _).bind fun symbol made => ih partRest fun other held => ?_
        rcases List.mem_append.mp held with old | new
        · exact before other old
        · cases List.mem_singleton.mp new
          exact nested.symbolOf member (Bool.eq_false_iff.mpr isElement) isName made

theorem note_deepening (level : NoteLevel) (text : String) :
    Deepening depth (fun _ => True) (note level text) :=
  .changes fun _ deeper => deeper

theorem takeIn_deepening {symbols : List Symbol}
    (deeper : ∀ symbol ∈ symbols, symbol.Deeper depth) (source : String) (result : ImportResult) :
    Deepening depth (fun _ => True) (takeIn symbols source result) := by
  have loads : Deepening depth (fun _ => True) (loadModel symbols source) :=
    .changes fun _ before => Workspace.Deeper.put before deeper
  unfold takeIn
  refine loads.bind fun _ _ => reindex_deepening.bind fun _ _ => ?_
  exact (note_deepening _ _).bind fun _ _ => .pure trivial

theorem importDocument_deepening {document : Document} (nested : document.Deeper depth)
    (source : String) : Deepening depth (fun _ => True) (importDocument document source) := by
  by_cases valid : document.problems = []
  · rw [importDocument_eq valid]
    refine reindex_deepening.bind fun _ _ => index_deepening.bind fun index _ => ?_
    have takes : Deepening depth (fun taken => ∀ symbol ∈ taken.symbols, symbol.Deeper depth)
        (document.takeElements source index ⟨[], document.externalRefs⟩ document.records) :=
      takeElements_deepening nested source index (List.Subset.refl _) fun _ member =>
        (by cases member)
    refine takes.bind fun taken deeper => (Ensures.ofExcept _).bind fun attached adds => ?_
    have takesIn (told : ImportResult) :=
      takeIn_deepening (Document.attachAll_deeper deeper adds) source told
    dsimp only
    split
    · exact (note_deepening _ _).bind fun _ _ => takesIn _
    · exact takesIn _
  · refine ⟨fun _ _ => trivial, fun {session} deeper => ?_⟩
    obtain ⟨failure, failed⟩ := importDocument_invalid valid source session
    rw [failed]
    exact deeper

theorem change_deeper (deepens : Deepens depth) {session : Session}
    (deeper : session.workspace.Deeper depth) {change : Change} (nested : change.Deeper depth) :
    (session.change change).workspace.Deeper depth := by
  cases change with
  | load path text isLibrary => exact deeper.load deepens path text isLibrary
  | importDocument document source => exact (importDocument_deepening nested source).keeps deeper
  | reindex => exact reindex_deepening.keeps deeper
  | loadModel symbols source => exact nested.elim
  | applyEntries entries => exact nested.elim

theorem after_deeper (deepens : Deepens depth) {changes : List Change}
    (nested : ∀ change ∈ changes, change.Deeper depth) :
    (after changes).workspace.Deeper depth := by
  have from_ (session : Session) (deeper : session.workspace.Deeper depth) :
      (changes.foldl Session.change session).workspace.Deeper depth := by
    induction changes generalizing session with
    | nil => exact deeper
    | cons first rest ih =>
      obtain ⟨nestedFirst, nestedRest⟩ := List.forall_mem_cons.mp nested
      exact ih nestedRest _ (change_deeper deepens deeper nestedFirst)
  exact from_ {} ⟨fun _ member => (by cases member), fun _ found => (by cases found)⟩

/-- After any texts and documents were taken in, where the elements of the documents lie deeper
than their owners: in the index of the session, and in one over what is loaded, the owners from a
symbol's name lead to the root, no symbol is below itself, the walk outward is over before it
reaches its bound, and a walk through all that a namespace holds ends with what is found in it. -/
theorem namespaces_end (deepens : Deepens depth) (changes : List Change)
    (nested : ∀ change ∈ changes, change.Deeper depth) (index : Index)
    (held : (after changes).workspace.index = some index ∨
      index = Index.build (after changes).workspace.symbols (after changes).workspace.rootImports) :
    (∀ symbol ∈ index.symbols, ∃ last, Relation.ReflTransGen
          (fun inner outer => outerScope index inner = .ok (some outer)) symbol.qualifiedName last ∧
        (outerScope index last = .ok none ∨
          ∃ other ∈ index.symbols, other.owner = some last ∧ index.lookup last = none ∧
            last.text? = none)) ∧
      (∀ symbol, ¬ Below index symbol.qualifiedName symbol) ∧
      (∀ refer name file scope more,
        outward index refer name file (index.outwardFuel scope + more) scope =
          outward index refer name file (index.outwardFuel scope) scope) ∧
      ∀ space name, ∃ steps, sweep index name steps (index.members (some space)) =
        some (descendant index space name) := by
  have deeper : index.Deeper depth := by
    have all := after_deeper deepens nested
    rcases held with found | rfl
    · exact all.index index found
    · exact all.build
  refine ⟨fun symbol known => symbol_path deeper deepens known, not_below_self deeper, ?_, ?_⟩
  · intro refer name file scope more
    exact outward_unbounded deeper deepens refer name file scope more
  · intro space name
    exact sweep_descendant deeper space name

def nameLength : Key.Code → Nat
  | .text name => name.length
  | _ => 0

theorem nameLength_deepens : Deepens nameLength := by
  intro owner name
  have colons : "::".length = 2 := by decide
  simp only [nameLength, QualifiedName.join, String.length_append]
  omega

def nestedPackage : Record :=
  { id := .text "p", kind := "Package", name := .text "P" }

/-- A part in the package whose name does not say so. -/
def nestedPart : Record :=
  { id := .text "a", kind := "PartUsage", name := .text "a", qualifiedName := .text "Q::a"
    owner := some (.text "p") }

def nestedDocument : Document where
  records := [nestedPackage, nestedPart]

theorem nestedDocument_deeper : nestedDocument.Deeper nameLength := by
  intro record member isElement owner owned name outer isName isOuter
  have listed : record = nestedPackage ∨ record = nestedPart := by
    simpa [nestedDocument] using member
  rcases listed with rfl | rfl
  · cases owned
  · have isPackage : nestedDocument.ownerOf? nestedPart = some nestedPackage := rfl
    have partName : nestedDocument.qualifiedNameOf nestedPart = .ok (.text "Q::a") := rfl
    have packageName : nestedDocument.qualifiedNameOf nestedPackage = .ok (.text "P") := rfl
    cases isPackage.symm.trans owned
    cases partName.symm.trans isName
    cases packageName.symm.trans isOuter
    decide

theorem namespaces_end_nested :
    Deepens nameLength ∧ nestedDocument.Deeper nameLength ∧
      let changes : List Change :=
        [.load "m.sysml" "package P { part def A { part x; } }" false,
          .importDocument nestedDocument "n.json"]
      let index := Index.build (after changes).workspace.symbols (after changes).workspace.rootImports
      (∀ symbol ∈ index.symbols, ∃ last, Relation.ReflTransGen
            (fun inner outer => outerScope index inner = .ok (some outer)) symbol.qualifiedName
            last ∧
          (outerScope index last = .ok none ∨
            ∃ other ∈ index.symbols, other.owner = some last ∧ index.lookup last = none ∧
              last.text? = none)) ∧
        (∀ symbol, ¬ Below index symbol.qualifiedName symbol) ∧
        (∀ refer name file scope more,
          outward index refer name file (index.outwardFuel scope + more) scope =
            outward index refer name file (index.outwardFuel scope) scope) ∧
        ∀ space name, ∃ steps, sweep index name steps (index.members (some space)) =
          some (descendant index space name) := by
  refine ⟨nameLength_deepens, nestedDocument_deeper, ?_⟩
  refine namespaces_end nameLength_deepens _ ?_ _ (.inr rfl)
  exact List.forall_mem_cons.mpr ⟨trivial, List.forall_mem_singleton.mpr nestedDocument_deeper⟩

def selfOwned : Document where
  records := [{ id := .text "a", kind := "Package", name := .text "A", owner := some (.text "a") }]

/-- The package that owns itself is accepted, and stands below itself and around itself. -/
theorem self_owned_member :
    ∃ index, (after [.importDocument selfOwned "m.json"]).workspace.index = some index ∧
      ∃ symbol ∈ index.symbols, Below index symbol.qualifiedName symbol ∧
        ∃ outer, outerScope index symbol.qualifiedName = .ok (some outer) ∧
          (outer == symbol.qualifiedName) = true := by
  have computed : ((after [.importDocument selfOwned "m.json"]).workspace.index.map fun index =>
      index.symbols.any fun symbol =>
        symbol.owner == some symbol.qualifiedName &&
          (index.lookup symbol.qualifiedName).any fun first =>
            first.owner == some symbol.qualifiedName) = some true := by decide +kernel
  obtain ⟨index, found, computed⟩ := Option.map_eq_some_iff.mp computed
  obtain ⟨symbol, known, computed⟩ := List.any_eq_true.mp computed
  obtain ⟨owned, computed⟩ := Bool.and_eq_true_iff.mp computed
  refine ⟨index, found, symbol, known, .member (List.mem_filter.mpr ⟨known, owned⟩), ?_⟩
  cases looked : index.lookup symbol.qualifiedName with
  | none => rw [looked] at computed; simp at computed
  | some first =>
    rw [looked, Option.any_some] at computed
    cases owner : first.owner with
    | none => rw [owner] at computed; simp at computed
    | some outer =>
      refine ⟨outer, ?_, ?_⟩
      · rw [outerScope, looked]
        simp only [owner]
      · rw [owner] at computed
        simpa using computed

end Session

end Sysml
