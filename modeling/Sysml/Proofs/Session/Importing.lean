import Sysml.Proofs.Document.Mirrored
import Sysml.Proofs.Session.Export

/-!
# Taking a document into a new session

A document whose fields are what they should be, and whose relationships have supported
kinds and come from elements, is taken into a new session as one file. Its elements are
the symbols of that file, in order.
-/

set_option autoImplicit false

namespace Sysml

open Scope

/-- A document without problems, whose relationships are of supported kinds and come from
elements. -/
structure Document.Importable (document : Document) : Prop where
  typed : document.Typed
  problems : document.problems = []
  supported : ∀ record ∈ document.relationships, Record.isRelationshipKind record.kind = true
  sources : ∀ record ∈ document.relationships, ∃ source ∈ document.elements,
    record.source = some source.id

theorem Document.Portable.importable {document : Document} {selfContained : Bool}
    (portable : document.Portable selfContained) : document.Importable where
  typed := portable.typed
  problems := portable.problems
  supported := by
    intro record member
    obtain ⟨source, _, target, _, joins⟩ := portable.relationships record member
    rcases joins.2 with ⟨kind, same⟩ | ⟨isNamespace, isRecursive, _, same⟩
    · rw [same, Record.isRelationshipKind, (RefKind.ofMetaclass?_metaclass kind).2]
      rfl
    · rw [same, Record.isRelationshipKind, importKind_isImport, Bool.or_true]
  sources := by
    intro record member
    obtain ⟨source, sourceIn, _, _, joins⟩ := portable.relationships record member
    exact ⟨source, sourceIn, joins.ends.2.1⟩

namespace Document

def allNames (document : Document) : List (Key × Key) :=
  document.knownNames document.records document.externalRefs

def symbols (document : Document) (source : String) : List Symbol :=
  document.elements.map (document.symbolFor source document.allNames)

/-- The workspace of a new session with a document as its only file. -/
def workspace (document : Document) (source : String) : Workspace :=
  ({} : Workspace).reindexed.loadModel (document.symbols source) source

/-- The index over a document as the only file of a workspace. -/
def index (document : Document) (source : String) : Index :=
  Index.build (document.workspace source).symbols (document.workspace source).rootImports

def taken (document : Document) : ImportResult :=
  { document.validate with messages := [], symbolCount := document.elements.length }

variable {document : Document}

theorem workspace_files (source : String) : (document.workspace source).files =
    [⟨source, "", false, Workspace.numbered 0 (document.symbols source), [], []⟩] := rfl

theorem workspace_symbols (source : String) :
    (document.workspace source).symbols = Workspace.numbered 0 (document.symbols source) := by
  rw [Workspace.symbols, workspace_files]
  exact List.flatMap_singleton ..

theorem workspace_tidy (source : String) : (document.workspace source).Tidy :=
  (Workspace.tidy_empty.of_files rfl rfl : ({} : Workspace).reindexed.Tidy).loadModel _ _

/-- The symbols of the workspace are those of the document's elements. -/
theorem index_mirrors (source : String) :
    (document.index source).Mirrors document source document.allNames where
  symbols := by
    change List.Forall₂ _ (document.workspace source).symbols document.elements
    rw [workspace_symbols, List.forall₂_iff_get]
    refine ⟨by simp [Workspace.numbered, symbols], fun i first second => ⟨0 + i, ?_⟩⟩
    simp [Workspace.numbered, symbols]
  ids := rfl

namespace Importable

variable (importable : document.Importable)

include importable

/-- Where nothing is loaded the elements of a document become its symbols. -/
theorem attachAll (source : String) :
    Document.attachAll document.allNames (document.elements.map (document.bare source)) 0
      document.relationships = .ok (document.symbols source, 0) := by
  have carried (record : Record) : (document.bare source record).elementId = some record.id := rfl
  have apart : (document.elements.map (document.bare source)).Pairwise fun one other =>
      (one.elementId == other.elementId) = false := by
    refine List.pairwise_map.mpr (List.Pairwise.imp_of_mem ?_ (elements_nodup importable.typed))
    intro one other oneIn otherIn isApart
    exact Bool.eq_false_iff.mpr fun same => isApart (importable.typed.eq_of_id_beq
      (List.mem_filter.mp oneIn).1 (List.mem_filter.mp otherIn).1 same)
  refine (attachAll_ok document.allNames 0 apart fun record member => ?_).trans ?_
  · refine ⟨attach?_supported (importable.supported record member)
      (importable.typed.records record (List.mem_filter.mp member).1).visibility _, ?_⟩
    obtain ⟨owner, ownerIn, isOwner⟩ := importable.sources record member
    refine ⟨_, List.mem_map_of_mem ownerIn, ?_⟩
    rw [carried, Record.origin, isOwner,
      importable.typed.id_given (List.mem_filter.mp ownerIn).1]
    exact BEq.rfl
  · rw [symbols, List.map_map]
    congr 2
    refine List.map_congr_left fun record _ => ?_
    rw [Function.comp_apply, foldl_attach]
    rfl

/-- Taking a document into a new session builds the index over its symbols. -/
theorem outcome_importDocument (source : String) :
    outcome (Session.importDocument document source) {} =
      match (document.workspace source).rebuild with
      | (.ok _, later) =>
          (.ok document.taken,
            { workspace := later, phase := .indexed
              notes := [⟨.info, "Loaded symbols into workspace with preserved element IDs"⟩] })
      | (.error failure, later) =>
          (.error failure, { workspace := later, phase := .loading, isDirty := true }) := by
  have started : outcome Session.reindex {} =
      (.ok ⟨⟩, { workspace := ({} : Workspace).reindexed, phase := .indexed }) := rfl
  have indexed : outcome Session.index
      { workspace := ({} : Workspace).reindexed, phase := .indexed } =
      (.ok (Index.build [] []), { workspace := ({} : Workspace).reindexed, phase := .indexed }) :=
    rfl
  have taken := @takeElements_ok document importable.typed source (Index.build [] []) rfl
    { workspace := ({} : Workspace).reindexed, phase := .indexed }
    document.records (List.Subset.refl _) ⟨[], document.externalRefs⟩
  have attached : outcome (MonadExcept.ofExcept (Document.attachAll document.allNames
      (document.elements.map (document.bare source)) 0 document.relationships) :
        Operation (List Symbol × Nat))
      { workspace := ({} : Workspace).reindexed, phase := .indexed } =
      (.ok (document.symbols source, 0),
        { workspace := ({} : Workspace).reindexed, phase := .indexed }) := by
    rw [outcome_ofExcept, importable.attachAll source]
  have noMessages : document.validate.messages = [] := importable.problems
  unfold Session.importDocument
  dsimp only
  rw [noMessages]
  simp only [List.isEmpty_nil, Bool.not_true, Bool.false_eq_true, ↓reduceIte]
  refine (outcome_bind_of_ok started).trans ((outcome_bind_of_ok indexed).trans ?_)
  refine (outcome_bind_of_ok taken).trans ((outcome_bind_of_ok attached).trans ?_)
  have loaded : outcome (Session.loadModel (document.symbols source) source)
      { workspace := ({} : Workspace).reindexed, phase := .indexed } =
      (.ok ⟨⟩, { workspace := document.workspace source, phase := .loading, isDirty := true }) :=
    rfl
  dsimp only
  rw [if_neg (by simp)]
  refine (outcome_bind_of_ok loaded).trans ?_
  rw [outcome_bind, Session.outcome_reindex]
  simp only [reduceCtorEq, ↓reduceIte]
  rcases (document.workspace source).rebuild with ⟨failure | index, later⟩
  · rfl
  · have counted : (document.symbols source).length = document.elements.length := by
      simp [symbols]
    dsimp only
    rw [counted]
    rfl

/-- All symbols of a document can be found by their names and ids. -/
theorem indexable (source : String) {symbol : Symbol}
    (member : symbol ∈ (document.workspace source).symbols) :
    Workspace.isIndexable symbol = true ∧ symbol.name.isProper = true := by
  have properName {record : Record} (has : record ∈ document.records) :
      (document.fullName record).isProper = true := by
    obtain ⟨_, name, _, isText⟩ := importable.typed.fullName_text has
    rw [isText]
    rfl
  obtain ⟨record, recordIn, mirrored⟩ := record_of (index_mirrors source) member
  have known := (List.mem_filter.mp recordIn).1
  obtain ⟨id, _, isId⟩ := importable.typed.id_text known
  refine ⟨?_, ?_⟩
  · have owner : symbol.owner.all Key.isProper = true := by
      rw [mirrored.owner, Option.all_eq_true]
      intro name owned
      obtain ⟨owner, isOwner, rfl⟩ := Option.map_eq_some_iff.mp owned
      exact properName (Typed.mem_of_ownerOf? isOwner)
    rw [Workspace.isIndexable, mirrored.qualifiedName, properName known, owner, mirrored.elementId,
      importable.typed.id_given known, isId]
    rfl
  · rw [mirrored.name, nameOrEmpty]
    split
    · rfl
    · rcases (importable.typed.records record known).name with missing | ⟨name, isText⟩
      · rw [missing]
        rfl
      · rw [isText]
        rfl

theorem allNames_text : TextNames document.allNames :=
  importable.typed.knownNames_text (List.Subset.refl _) importable.typed.external

/-- Where all that the symbols refer to has an answer, the index is built. -/
theorem rebuild_ok {source : String}
    (checks : ∀ symbol ∈ (document.index source).symbols, symbol.Checks (document.index source)) :
    ∃ later, (document.workspace source).rebuild = (.ok (document.index source), later) := by
  refine Workspace.rebuild_ends (fun symbol member => importable.indexable source member) ?_ checks
  intro file member i has
  rw [workspace_files] at member
  rw [List.mem_singleton.mp member] at has
  cases has

/-- Where all relationships lead to elements, all that the symbols refer to is bound. -/
theorem bound (targets : ∀ relation ∈ document.relationships, ∃ target ∈ document.elements,
    relation.target = some target.id) {source : String} {symbol : Symbol}
    (inside : symbol ∈ (document.index source).symbols) :
    symbol.Bound (document.index source) := by
  obtain ⟨record, _, mirrored⟩ := record_of (index_mirrors source) inside
  exact bound_mirrored importable.typed (index_mirrors source) mirrored importable.allNames_text
    fun relation has => targets relation (List.mem_filter.mp has).1

/-- Where the index is built, the new session is ready and holds the document's symbols. -/
theorem importDocument_ok {source : String} {index : Index} {later : Workspace}
    (rebuilt : (document.workspace source).rebuild = (.ok index, later)) :
    ∃ imported, outcome (Session.importDocument document source) {} =
        (.ok document.taken, imported) ∧
      imported.workspace = later ∧ imported.phase = .indexed ∧ imported.isDirty = false ∧
      imported.Consistent ∧ later.Current (document.index source) ∧
      later.ownSymbols =
        (document.index source).symbols.filter fun symbol => !symbol.isLibrary := by
  have ran := importable.outcome_importDocument source
  rw [rebuilt] at ran
  have consistent := Session.keeps_importDocument document source {} Session.consistent_new
  rw [ran] at consistent
  obtain ⟨rfl, _⟩ := Workspace.rebuild_ok rebuilt
  obtain ⟨tidy, current⟩ := @Workspace.Tidy.rebuild (document.workspace source) (workspace_tidy source)
  rw [rebuilt] at tidy current
  have isCurrent : later.Current (document.index source) := current _ rfl
  refine ⟨_, ran, rfl, rfl, rfl, consistent, isCurrent, ?_⟩
  rw [tidy.ownSymbols_eq, ← isCurrent.symbols]

end Importable

end Document

end Sysml
