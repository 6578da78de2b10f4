import Sysml.Proofs.Document.Foreign
import Sysml.Proofs.Session.Importing
import Sysml.Session.Loading

/-!
# The ids of a document that is taken in and written again

A document of one model, whose relationships join its elements, is always taken into a
new session and written again. It keeps all ids but those of packages that reopen an
earlier one (`roundTrip_ids`): these become pieces of the earlier package, and their ids are
lost (`roundTrip_ids_reopened`).
-/

set_option autoImplicit false

namespace Sysml

open Scope

/-- A document without libraries, whose relationships join elements. -/
structure Document.Joined (document : Document) : Prop where
  importable : document.Importable
  targets : ∀ relation ∈ document.relationships, ∃ target ∈ document.elements,
    relation.target = some target.id
  own : ∀ record ∈ document.elements, record.provenance = .text Record.modelProvenance

/-- An element is a package, and the first element of its qualified name is another package. -/
def Document.Reopens (document : Document) (record : Record) : Prop :=
  record.isRelationship = false ∧ (SymbolKind.ofMetaclass record.kind).isPackage = true ∧
    ∃ first, document.elements.find?
        (fun other => document.fullName other == document.fullName record) = some first ∧
      (SymbolKind.ofMetaclass first.kind).isPackage = true ∧ first.id ≠ record.id

/-- What reopens nothing stands in for itself. -/
theorem standIn_of_not_reopens {document : Document} {record : Record}
    (member : record ∈ document.elements) (opens : ¬ document.Reopens record) :
    (document.standIn record).id = record.id := by
  have isElement : record.isRelationship = false := by
    simpa using (List.mem_filter.mp member).2
  unfold Document.standIn
  split
  · next isPackage =>
    cases found : (document.elements.find? fun other =>
        document.fullName other == document.fullName record).filter
          fun first => (SymbolKind.ofMetaclass first.kind).isPackage with
    | none => rfl
    | some first =>
      obtain ⟨looked, firstPackage⟩ := Option.filter_eq_some_iff.mp found
      by_contra other
      exact opens ⟨isElement, isPackage, first, looked, firstPackage, other⟩
  · rfl

/-- What stands in for itself reopens nothing. -/
theorem not_reopens_of_standIn {document : Document} {record : Record}
    (same : (document.standIn record).id = record.id) : ¬ document.Reopens record := by
  rintro ⟨_, isPackage, first, looked, firstPackage, other⟩
  rw [Document.standIn, if_pos isPackage, looked, Option.filter_some, if_pos firstPackage] at same
  exact other same

namespace Session

variable {document : Document}

/-- A document without libraries is exported from the session that it was taken into, where
all that its symbols refer to has an answer. -/
theorem buildDocument_carried (importable : document.Importable)
    (own : ∀ record ∈ document.elements, record.provenance = .text Record.modelProvenance)
    {source : String} {imported : Session} (consistent : imported.Consistent)
    (isIndexed : imported.phase = .indexed)
    (current : imported.workspace.Current (document.index source))
    (ownSymbols : imported.workspace.ownSymbols =
      (document.index source).symbols.filter fun symbol => !symbol.isLibrary)
    (checks : ∀ symbol ∈ (document.index source).symbols, symbol.Checks (document.index source))
    (given : ∀ relation ∈ document.relationships, ∃ id, Key.given? relation.target = some id)
    (selfContained : Bool) (name : Value) :
    ∃ draft later,
      outcome (buildDocument selfContained name) imported =
        (.ok (documentOf draft selfContained name), later) ∧ later.phase = .indexed ∧
      later.workspace.memo = draft.memo ∧
      Draft.Carried (document.index source) (document.index source).symbols draft := by
  have mirrors := @Document.index_mirrors document source
  have user : ∀ symbol ∈ (document.index source).symbols, symbol.isLibrary = false := by
    intro symbol inside
    obtain ⟨record, member, mirrored⟩ := record_of mirrors inside
    rw [mirrored.isLibrary, own record member]
    decide
  have all : (document.index source).symbols.filter (fun symbol => !symbol.isLibrary) =
      (document.index source).symbols :=
    List.filter_eq_self.mpr fun symbol inside => by simp [user symbol inside]
  have serials : ((document.index source).symbols.map (·.serial)).Nodup :=
    (Document.workspace_tidy source).serials
  have carries (memo : Memo) : Carries (document.index source) memo :=
    carries_mirrored importable.typed mirrors fun symbol inside record member mirrored =>
      links_stem _ importable.allNames_text mirrored importable.supported given
  have linked : ∀ symbol ∈ (document.index source).symbols, ∀ i ∈ symbol.imports, ∃ link?,
      i.link? symbol (naming (document.index source) (some symbol.qualifiedName) i) =
        .ok link? := by
    intro symbol inside
    obtain ⟨record, member, mirrored⟩ := record_of mirrors inside
    exact imports_linked importable.allNames_text mirrored given
  obtain ⟨draft, composed, _, carried⟩ := Draft.compose_carried current.ids user checks linked
    (fun memo _ => carries memo) current.memo serials
  have ready : imported.isReady = true := by rw [isReady, isIndexed]
  have built := outcome_buildDocument consistent ready current selfContained name
  rw [ownSymbols, all, composed] at built
  exact ⟨draft, _, built, isIndexed, rfl, carried⟩

/-- What is written of a document that was taken in, where it can be taken in and exported. -/
theorem outcome_roundTrip {source : String} {selfContained : Bool} {result : ImportResult}
    {imported later : Session} {again : Document}
    (taken : outcome (importDocument document source) {} = (.ok result, imported))
    (isIndexed : imported.phase = .indexed) (clean : imported.isDirty = false)
    (built : outcome (buildDocument selfContained ((document.metadata? "name").getD (.text "model")))
      imported = (.ok again, later)) (laterIndexed : later.phase = .indexed) (format : String) :
    (outcome (roundTrip document format source selfContained) {}).1 =
      Format.ofName format >>= fun format => format.write again := by
  have current : outcome reindex imported = (.ok ⟨⟩, imported) := by
    rw [outcome_reindex, isIndexed, clean]
    rfl
  have ready : later.isReady = true := by rw [isReady, laterIndexed]
  unfold roundTrip exportAs
  rw [outcome_bind_of_ok taken, outcome_bind_of_ok current]
  cases named : Format.ofName format with
  | error failure =>
    rw [outcome_bind_of_error (outcome_ofExcept _ _)]
    rfl
  | ok format =>
    rw [outcome_bind_of_ok (outcome_ofExcept _ _), outcome_bind_of_ok built]
    cases written : format.write again with
    | error failure =>
      rw [outcome_bind_of_error (outcome_ofExcept _ _), ok_bind, written]
    | ok octets =>
      rw [outcome_bind_of_ok (outcome_ofExcept _ _), ok_bind, written]
      have marked : outcome markExported later = (.ok ⟨⟩, { later with phase := .exported }) := by
        unfold markExported
        rw [outcome_bind_of_ok (outcome_require ready _)]
        rfl
      rw [outcome_bind_of_ok marked]
      rfl

/-- A document of one model whose relationships join its elements is taken in and written
again with all its ids, but for those of packages that reopen an earlier one. -/
theorem roundTrip_ids (joined : document.Joined) (source : String) (selfContained : Bool) :
    ∃ again : Document,
      (∀ format, (outcome (roundTrip document format source selfContained) {}).1 =
        Format.ofName format >>= fun format => format.write again) ∧
      ∀ id, id ∈ again.ids ↔
        ∃ record ∈ document.records, record.id = id ∧ ¬ document.Reopens record := by
  have importable := joined.importable
  have mirrors := @Document.index_mirrors document source
  have given : ∀ relation ∈ document.relationships, ∃ id,
      Key.given? relation.target = some id := by
    intro relation listed
    obtain ⟨target, targetIn, isTarget⟩ := joined.targets relation listed
    rw [isTarget]
    exact ⟨_, importable.typed.id_given (List.mem_filter.mp targetIn).1⟩
  have checks : ∀ symbol ∈ (document.index source).symbols,
      symbol.Checks (document.index source) :=
    fun symbol inside => (importable.bound joined.targets inside).checks
  obtain ⟨_, rebuilt⟩ := importable.rebuild_ok checks
  obtain ⟨imported, taken, same, isIndexed, clean, consistent, current, ownSymbols⟩ :=
    importable.importDocument_ok rebuilt
  rw [← same] at current ownSymbols
  obtain ⟨draft, later, built, laterIndexed, _, carried⟩ :=
    buildDocument_carried importable joined.own consistent isIndexed current ownSymbols checks
      given selfContained ((document.metadata? "name").getD (.text "model"))
  refine ⟨_, outcome_roundTrip taken isIndexed clean built laterIndexed, fun id => ?_⟩
  refine (mem_ids_carrying importable.typed mirrors
    (fun symbol _ record _ mirrored =>
      links_stem _ importable.allNames_text mirrored importable.supported given)
    carried.now importable.sources id).trans ?_
  constructor
  · rintro (⟨record, member, rfl⟩ | ⟨relation, listed, rfl⟩)
    · refine ⟨_, (List.mem_filter.mp (standIn_mem member)).1, rfl, not_reopens_of_standIn ?_⟩
      rw [standIn_standIn]
    · obtain ⟨known, isRelationship⟩ := List.mem_filter.mp listed
      exact ⟨relation, known, rfl, fun opens => by rw [opens.1] at isRelationship; cases isRelationship⟩
  · rintro ⟨record, known, rfl, opens⟩
    cases isRelationship : record.isRelationship with
    | true => exact .inr ⟨record, List.mem_filter.mpr ⟨known, isRelationship⟩, rfl⟩
    | false =>
      have member : record ∈ document.elements :=
        List.mem_filter.mpr ⟨known, by simp [isRelationship]⟩
      exact .inl ⟨record, member, standIn_of_not_reopens member opens⟩

def twoPieces : Document :=
  Document.make
    [{ id := .text "a", kind := "Package", name := .text "P" },
      { id := .text "b", kind := "Package", name := .text "P" }] [] []

theorem twoPieces_joined : twoPieces.Joined := by
  have piece (id : String) (someId : id ≠ "") :
      ({ id := .text id, kind := "Package", name := .text "P" } : Record).Typed :=
    ⟨⟨id, someId, rfl⟩, .inr ⟨"P", rfl⟩, .inl rfl, fun _ same => (by cases same),
      fun _ same => (by cases same), fun _ same => (by cases same), rfl, rfl⟩
  have pieces : ∀ record ∈ twoPieces.records, record.Typed ∧
      record.provenance = .text Record.modelProvenance := by
    intro record member
    rcases List.mem_cons.mp member with rfl | last
    · exact ⟨piece "a" (by decide), rfl⟩
    · rw [List.mem_singleton.mp last]
      exact ⟨piece "b" (by decide), rfl⟩
  have ids : twoPieces.ids.Nodup := by
    refine List.nodup_cons.mpr ⟨fun same => ?_, List.nodup_singleton _⟩
    exact absurd (Key.text_inj (List.mem_singleton.mp same)) (by decide)
  have typed : twoPieces.Typed :=
    ⟨ids, fun record member => (pieces record member).1, fun _ member => (by cases member)⟩
  exact ⟨⟨typed, by decide +kernel, fun _ member => (by cases member),
    fun _ member => (by cases member)⟩, fun _ member => (by cases member),
    fun record member => (pieces record (List.mem_filter.mp member).1).2⟩

/-- The id of the second of two packages that share a name is lost. -/
theorem twoPieces_loses :
    twoPieces.problems = [] ∧ twoPieces.relationships = [] ∧
      (∀ record ∈ twoPieces.records, record.id.isAbsent = false ∧ record.owner = none ∧
        record.provenance = .text Record.modelProvenance) ∧
      ∃ again : Document,
        (∀ format, (outcome (roundTrip twoPieces format "m.json" false) {}).1 =
          Format.ofName format >>= fun format => format.write again) ∧
        .text "b" ∈ twoPieces.ids ∧ .text "b" ∉ again.ids := by
  refine ⟨by decide +kernel, rfl, fun record member => ?_, ?_⟩
  · rcases List.mem_cons.mp member with rfl | last
    · exact ⟨rfl, rfl, rfl⟩
    · rw [List.mem_singleton.mp last]
      exact ⟨rfl, rfl, rfl⟩
  · generalize unnamed : (twoPieces.metadata? "name").getD (.text "model") = name
    have phases : (outcome (importDocument twoPieces "m.json") {}).2.phase = .indexed ∧
        (outcome (importDocument twoPieces "m.json") {}).2.isDirty = false ∧
        (outcome (buildDocument false name)
          (outcome (importDocument twoPieces "m.json") {}).2).2.phase = .indexed := by
      subst unnamed
      decide +kernel
    have taking : (outcome (importDocument twoPieces "m.json") {}).1.toOption.isSome = true := by
      decide +kernel
    have ids : (outcome (buildDocument false name)
        (outcome (importDocument twoPieces "m.json") {}).2).1.toOption.map
          (fun again => again.ids.map Key.display) = some ["a"] := by
      subst unnamed
      decide +kernel
    rcases taken : outcome (importDocument twoPieces "m.json") {} with ⟨failure | result, imported⟩ <;>
      rw [taken] at phases ids taking
    · cases taking
    · rcases built : outcome (buildDocument false name) imported with ⟨failure | again, later⟩ <;>
        rw [built] at phases ids
      · cases ids
      · subst unnamed
        refine ⟨again, outcome_roundTrip taken phases.1 phases.2.1 built phases.2.2,
          List.mem_cons_of_mem _ List.mem_cons_self, fun member => ?_⟩
        have kept : again.ids.map Key.display = ["a"] := Option.some.inj ids
        have listed : "b" ∈ again.ids.map Key.display := List.mem_map.mpr ⟨_, member, rfl⟩
        rw [kept] at listed
        exact absurd listed (by decide)

/-- Of two packages that share a name the first keeps its id. -/
theorem roundTrip_ids_reopened :
    twoPieces.Joined ∧ ∃ again : Document,
      (∀ format, (outcome (roundTrip twoPieces format "m.json" false) {}).1 =
        Format.ofName format >>= fun format => format.write again) ∧
      ∀ id, id ∈ again.ids ↔
        ∃ record ∈ twoPieces.records, record.id = id ∧ ¬ twoPieces.Reopens record :=
  ⟨twoPieces_joined, roundTrip_ids twoPieces_joined "m.json" false⟩

end Session

end Sysml
