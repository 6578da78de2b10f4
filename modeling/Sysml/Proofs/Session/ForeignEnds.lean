import Mathlib.Logic.Relation
import Sysml.Proofs.Session.ForeignIds

/-!
# The ends of relationships that are taken in

A document of one model whose elements have names of their own is always taken into a new
session and exported again, and each relationship keeps its id and source
(`importDocument_ends`). It keeps its target if that is an element. An id of an element
that is not loaded is kept only while its name means nothing in the scope of the source:
else the relationship leads to what the name means there (`strayName_retargets`).
-/

set_option autoImplicit false

namespace Sysml

open Scope

def Document.Owns (document : Document) (owner record : Record) : Prop :=
  document.ownerOf? record = some owner

/-- A document of one model, whose elements have names of their own and own each other without
cycles, and whose relationships lead to elements or, but for redefinitions, outside. -/
structure Document.Settled (document : Document) : Prop where
  importable : document.Importable
  own : ∀ record ∈ document.elements, record.provenance = .text Record.modelProvenance
  names : (document.elements.map document.fullName).Nodup
  owners : ∀ record ∈ document.elements, ∀ owner, document.Owns owner record →
    owner.isRelationship = false
  acyclic : ∀ record ∈ document.elements, ¬ Relation.TransGen document.Owns record record
  targets : ∀ relation ∈ document.relationships,
    (∃ target ∈ document.elements, relation.target = some target.id) ∨
      relation.kind ≠ RefKind.redefinition.metaclass ∧
        ∃ id, Key.given? relation.target = some id ∧ id ∈ document.externalRefs.map (·.1)

theorem boundTo_text (index : Index) {id? : Option Key} {id : String}
    (given : Key.given? id? = some (.text id)) :
    boundTo index id? = .ok (index.lookupId (.text id)) := by
  rw [boundTo, given]
  rfl

namespace Document.Settled

variable {document : Document} {source : String} {record : Record} {symbol : Symbol}
  (settled : document.Settled)

include settled

theorem given {relation : Record} (listed : relation ∈ document.relationships) :
    ∃ id, Key.given? relation.target = some id := by
  rcases settled.targets relation listed with ⟨target, targetIn, isTarget⟩ | ⟨_, id, isGiven, _⟩
  · rw [isTarget]
    exact ⟨_, settled.importable.typed.id_given (List.mem_filter.mp targetIn).1⟩
  · exact ⟨id, isGiven⟩

/-- The owner of an element is an element. -/
theorem owner_mem (member : record ∈ document.elements) {owner : Record}
    (owns : document.Owns owner record) : owner ∈ document.elements :=
  List.mem_filter.mpr
    ⟨Typed.mem_of_ownerOf? owns, by rw [settled.owners record member owner owns]; rfl⟩

/-- The walk outward from an element comes to the root: it passes no element twice. -/
theorem climbs {steps : Nat} {below : List Record} (nodup : below.Nodup)
    (part : below ⊆ document.elements)
    (owned : ∀ other ∈ below, Relation.TransGen document.Owns record other)
    (member : record ∈ document.elements)
    (enough : document.elements.length < steps + below.length) :
    Climbs (document.index source) steps (some (document.fullName record)) := by
  induction steps generalizing below record with
  | zero =>
    have few := (nodup.subperm part).length_le
    omega
  | succ steps ih =>
    have mirrors := @index_mirrors document source
    have fresh : record ∉ below := fun has => settled.acyclic record member (owned record has)
    have nodupToo : (record :: below).Nodup := List.nodup_cons.mpr ⟨fresh, nodup⟩
    have partToo : record :: below ⊆ document.elements := List.cons_subset.mpr ⟨member, part⟩
    have few := (nodupToo.subperm partToo).length_le
    rw [List.length_cons] at few
    obtain ⟨symbol, inside, mirrored⟩ := symbol_of mirrors member
    obtain ⟨_, name, _, isName⟩ :=
      settled.importable.typed.fullName_text (List.mem_filter.mp member).1
    refine ⟨⟨name, isName⟩, symbol.owner, ?_, ?_⟩
    · rw [outerScope, lookup_mirrored settled.importable.typed mirrors member inside mirrored
        settled.names]
    · rw [mirrored.owner]
      cases owns : document.ownerOf? record with
      | none =>
        obtain ⟨more, rfl⟩ : ∃ more, steps = more + 1 := ⟨steps - 1, by omega⟩
        exact trivial
      | some owner =>
        refine ih nodupToo partToo (fun other has => ?_) (settled.owner_mem member owns)
          (by rw [List.length_cons]; omega)
        rcases List.mem_cons.mp has with rfl | before
        · exact .single owns
        · exact .head owns (owned other before)

theorem scope_climbs (member : record ∈ document.elements)
    (mirrored : symbol.Mirrors document source document.allNames record) :
    Climbs (document.index source) ((document.index source).outwardFuel symbol.owner)
      symbol.owner := by
  have sizes : (document.index source).symbols.length = document.elements.length :=
    (index_mirrors source).symbols.length_eq
  have enough : document.elements.length + 2 ≤
      (document.index source).outwardFuel symbol.owner := by
    rw [← sizes]
    exact Nat.le_mul_of_pos_right _ (Nat.succ_pos _)
  generalize (document.index source).outwardFuel symbol.owner = fuel at enough ⊢
  rw [mirrored.owner]
  cases owns : document.ownerOf? record with
  | none =>
    obtain ⟨more, rfl⟩ : ∃ more, fuel = more + 1 := ⟨fuel - 1, by omega⟩
    exact trivial
  | some owner =>
    refine settled.climbs List.nodup_nil (List.nil_subset _) (fun _ has => (by cases has))
      (settled.owner_mem member owns) ?_
    rw [List.length_nil]
    omega

/-- The id that a relationship leads to is a text. -/
theorem target_text {relation : Record} (listed : relation ∈ document.relationships) :
    ∃ id, Key.given? relation.target = some (.text id) := by
  obtain ⟨id, isGiven⟩ := settled.given listed
  obtain ⟨name, rfl⟩ := (settled.importable.typed.records relation
    (List.mem_filter.mp listed).1).target id (Option.filter_eq_some_iff.mp isGiven).1
  exact ⟨name, isGiven⟩

/-- References to elements are bound, and the others can be looked up. -/
theorem reference_tame (member : record ∈ document.elements)
    (mirrored : symbol.Mirrors document source document.allNames record) {reference : Reference}
    (has : reference ∈ symbol.references) : ∃ bound,
    boundTarget (document.index source) reference = .ok bound ∧
      (bound = none → Free (document.index source) symbol reference) := by
  rw [mirrored.references] at has
  obtain ⟨relation, from_, made⟩ := List.mem_filterMap.mp has
  have listed := (List.mem_filter.mp from_).1
  obtain ⟨id, isGiven⟩ := settled.target_text listed
  obtain ⟨name, isName⟩ := targetName_text settled.importable.allNames_text relation
  unfold Record.asReference? at made
  split at made
  · cases made
  obtain ⟨kind, isKind, rfl⟩ := Option.map_eq_some_iff.mp made
  have metaclass : kind.metaclass = relation.kind := by simpa using List.find?_some isKind
  have bound := boundTo_text (document.index source) isGiven
  unfold boundTarget
  dsimp only
  rw [bound, ok_bind, isName]
  cases found : (document.index source).lookupId (.text id) with
  | some target => exact ⟨some target, rfl, fun none_ => (by cases none_)⟩
  | none =>
    have free : Free (document.index source) symbol
        ⟨kind, .text name, {}, relation.target, some (.text name), some relation.id⟩ := by
      refine ⟨⟨name, rfl⟩, fun redefines => ?_, settled.scope_climbs member mirrored⟩
      rcases settled.targets relation listed with ⟨target, targetIn, isTarget⟩ | ⟨other, _⟩
      · obtain ⟨goal, goalIn, isGoal⟩ := symbol_of (index_mirrors source) targetIn
        rw [isTarget, boundTo_mirrored settled.importable.typed (index_mirrors source) targetIn
          goalIn isGoal, found] at bound
        cases bound
      · exact absurd (metaclass.symm.trans (congrArg RefKind.metaclass redefines)) other
    dsimp only
    cases given : Key.given? (some (.text name)) with
    | none => exact ⟨none, rfl, fun _ => free⟩
    | some key =>
      obtain rfl := Option.some.inj (Option.filter_eq_some_iff.mp given).1
      exact ⟨_, rfl, fun _ => free⟩

theorem import_resolved
    (mirrored : symbol.Mirrors document source document.allNames record) {i : Import}
    (has : i ∈ symbol.imports) (scope : String) :
    ∃ found, resolveImport (document.index source) i (some (.text scope)) = .ok found := by
  rw [mirrored.imports] at has
  obtain ⟨relation, from_, made⟩ := List.mem_filterMap.mp has
  obtain ⟨id, isGiven⟩ := settled.target_text (List.mem_filter.mp from_).1
  obtain ⟨path, isPath⟩ := targetName_text settled.importable.allNames_text relation
  unfold Record.asImport? at made
  split at made
  · cases made
    have bound := boundTo_text (document.index source) isGiven
    unfold resolveImport
    dsimp only
    rw [bound, ok_bind, isPath]
    cases (document.index source).lookupId (.text id) with
    | some target => exact ⟨some target, rfl⟩
    | none =>
      have proper : (Key.text path).proper = .ok (.text path) := rfl
      dsimp only
      rw [proper, ok_bind]
      cases (document.index source).lookup (.text path) with
      | some target => exact ⟨some target, rfl⟩
      | none => exact ⟨_, rfl⟩
  · cases made

theorem tame : (document.index source).Tame where
  ids := Index.build_idsWithin _ _
  references := by
    intro symbol inside reference has
    obtain ⟨record, member, mirrored⟩ := record_of (index_mirrors source) inside
    exact settled.reference_tame member mirrored has
  names := by
    intro symbol inside key same
    obtain ⟨record, member, mirrored⟩ := record_of (index_mirrors source) inside
    obtain ⟨_, name, _, isName⟩ :=
      settled.importable.typed.fullName_text (List.mem_filter.mp member).1
    exact ⟨name, (Option.some.inj same).symm.trans (mirrored.qualifiedName.trans isName)⟩
  imports := by
    intro space file isName i has
    cases space with
    | none =>
      have noRoots : (document.index source).importsOf none file = [] := by
        change (([(source, [])] : List (String × List Import)).lookup file).getD [] = []
        rw [List.lookup_cons]
        split <;> rfl
      rw [noRoots] at has
      cases has
    | some space =>
      obtain ⟨symbol, named, owned⟩ := List.mem_flatMap.mp has
      obtain ⟨record, _, mirrored⟩ :=
        record_of (index_mirrors source) (List.mem_filter.mp named).1
      obtain ⟨scope, rfl⟩ := isName space rfl
      exact settled.import_resolved mirrored owned scope

/-- All that the symbols of the document refer to has an answer. -/
theorem checks (inside : symbol ∈ (document.index source).symbols) :
    symbol.Checks (document.index source) := by
  obtain ⟨record, _, mirrored⟩ := record_of (index_mirrors source) inside
  obtain ⟨name, isName⟩ := settled.tame.names symbol inside _ rfl
  refine ⟨fun reference has => resolveReference_ends settled.tame inside has, fun i has => ?_⟩
  rw [isName]
  exact ⟨importText_mirrored mirrored settled.importable.allNames_text i has,
    settled.import_resolved mirrored has name⟩

/-- A relationship that leads to an element means the symbol of that element. -/
theorem meant_element (memo : Memo) {relation target : Record}
    (listed : relation ∈ document.relationships) (targetIn : target ∈ document.elements)
    (isTarget : relation.target = some target.id) (symbol : Symbol) :
    ∃ goal ∈ (document.index source).symbols,
      goal.Mirrors document source document.allNames target ∧
        relation.meant (document.index source) memo document.allNames symbol = some goal := by
  obtain ⟨goal, goalIn, mirrored⟩ := symbol_of (index_mirrors source) targetIn
  have bound := boundTo_mirrored settled.importable.typed (index_mirrors source) targetIn goalIn
    mirrored
  rw [← isTarget] at bound
  refine ⟨goal, goalIn, mirrored, ?_⟩
  have supported := settled.importable.supported relation listed
  unfold Record.meant Record.asReference? Record.asImport?
  cases isImport : Record.isImportKind relation.kind with
  | true =>
    simp only [↓reduceIte, Option.bind_none, Option.none_or, Option.bind_some]
    rw [naming, resolveImport_bound bound]
    rfl
  | false =>
    obtain ⟨kind, isKind⟩ : ∃ kind, RefKind.ofMetaclass? relation.kind = some kind := by
      refine Option.isSome_iff_exists.mp ?_
      rwa [Record.isRelationshipKind, isImport, Bool.or_false] at supported
    simp only [isKind, Bool.false_eq_true, ↓reduceIte, Option.map_some, Option.bind_some,
      Option.bind_none, Option.or_none]
    rw [meaning, resolveReference_bound bound]
    rfl

end Document.Settled

namespace Session

variable {document : Document}

/-- A settled document is taken into a new session and exported again. Each relationship keeps
its id and its source, and its kind, but that all imports of what is below an element become
imports of namespaces. It leads to what its target means in the session, if that is anything,
and else where it led before; to an element it always leads again. -/
theorem importDocument_ends (settled : document.Settled) (source : String)
    (selfContained : Bool) (name : Value) :
    ∃ result imported again later,
      outcome (importDocument document source) {} = (.ok result, imported) ∧
      outcome (buildDocument selfContained name) imported = (.ok again, later) ∧
      ∀ relation ∈ document.relationships, ∃ record ∈ again.records,
        record.id = relation.id ∧ record.kind = relation.kindAgain ∧
        record.source = relation.source ∧
        (∀ target ∈ document.elements, relation.target = some target.id →
          record.target = relation.target) ∧
        ∃ symbol ∈ (document.index source).symbols, symbol.elementId = relation.source ∧
          Answered (document.index source) later.workspace.memo symbol ∧
          record.target = ((relation.meant (document.index source) later.workspace.memo
            document.allNames symbol).bind (·.elementId)).or relation.target := by
  have importable := settled.importable
  have typed := importable.typed
  have mirrors := @Document.index_mirrors document source
  obtain ⟨_, rebuilt⟩ := @Document.Importable.rebuild_ok document importable source fun symbol =>
    settled.checks
  obtain ⟨imported, taken, same, isIndexed, clean, consistent, current, ownSymbols⟩ :=
    importable.importDocument_ok rebuilt
  rw [← same] at current ownSymbols
  obtain ⟨draft, later, built, _, remembered, carried⟩ :=
    buildDocument_carried importable settled.own consistent isIndexed current ownSymbols
      (fun symbol => settled.checks) (fun relation => settled.given) selfContained name
  refine ⟨_, imported, _, later, taken, built, fun relation listed => ?_⟩
  rw [remembered]
  obtain ⟨element, isElement, isSource⟩ := importable.sources relation listed
  obtain ⟨symbol, inside, mirrored⟩ := symbol_of mirrors isElement
  have has : relation ∈ document.linkRecords element := by
    refine Document.Typed.mem_linkRecords.mpr (List.mem_filter.mpr ⟨listed, ?_⟩)
    rw [Record.origin, isSource, typed.id_given (List.mem_filter.mp isElement).1]
    exact BEq.rfl
  have related : List.Forall₂
      (Link.Stems (document.index source) draft.memo document.allNames symbol)
      (links (document.index source) draft.memo symbol) (document.linkRecords element) :=
    links_stem draft.memo importable.allNames_text mirrored importable.supported
      fun relation => settled.given
  obtain ⟨link, linked, stems⟩ := exists_related related has
  have answered := carried.now.answered symbol inside
  have ends : (link.kept (document.index source) symbol).target =
      ((relation.meant (document.index source) draft.memo document.allNames symbol).bind
        (·.elementId)).or relation.target := by
    cases meant : relation.meant (document.index source) draft.memo document.allNames symbol with
    | some goal =>
      have isGoal := stems.loaded goal meant
      have goalIn := answered.goal_within current.ids carried.remembers linked isGoal
      obtain ⟨target, targetIn, alike⟩ := record_of mirrors goalIn
      rw [Link.kept, Link.record, isGoal, Option.bind_some, alike.elementId, Option.some_or]
      exact congrArg some (idOf_mirrored typed mirrors targetIn goalIn alike settled.names)
    | none =>
      obtain ⟨id, _, isTarget, outside⟩ := stems.outside meant
      rw [Link.kept, Link.record, outside, Option.bind_none, Option.none_or, isTarget]
      rfl
  refine ⟨link.kept (document.index source) symbol, ?_, ?_, stems.kind, ?_, ?_, symbol, inside,
    mirrored.elementId.trans isSource.symm, answered, ends⟩
  · exact carried.now.relationships symbol inside link linked
  · simp [Link.kept, Link.record, stems.carried]
  · rw [isSource]
    exact congrArg some (idOf_mirrored typed mirrors isElement inside mirrored settled.names)
  · intro target targetIn isTarget
    obtain ⟨goal, _, alike, meant⟩ :=
      @Document.Settled.meant_element document source settled draft.memo relation target listed
        targetIn isTarget symbol
    rw [ends, meant, Option.bind_some, alike.elementId, isTarget]
    rfl

/-- A feature that is typed by an element that is not loaded, and another element that has the
name of that one. -/
def strayName : Document :=
  Document.make
    [{ id := .text "p", kind := "Package", name := .text "P" },
      { id := .text "r", kind := "AttributeDefinition", name := .text "Real"
        owner := some (.text "p") },
      { id := .text "a", kind := "PartUsage", name := .text "a", owner := some (.text "p") },
      { id := .text "t", kind := "FeatureTyping", owner := some (.text "a")
        source := some (.text "a"), target := some (.text "ext") }]
    [(.text "ext", .text "Real")] []

theorem strayName_typed : strayName.Typed := by
  have isName (name? : Option String) : Key.IsName (name?.map Key.text) := by
    intro key same
    obtain ⟨name, _, rfl⟩ := Option.map_eq_some_iff.mp same
    exact ⟨name, rfl⟩
  have typed (id kind : String) (name : Value) (isText : name.IsName)
      (owner source target : Option String) (someId : id ≠ "") :
      ({ id := .text id, kind, name, owner := owner.map .text, source := source.map .text
         target := target.map .text } : Record).Typed :=
    ⟨⟨id, someId, rfl⟩, isText, .inl rfl, isName owner, isName source, isName target, rfl, rfl⟩
  refine ⟨.of_map Key.display (by decide +kernel), fun record member => ?_, fun entry member => ?_⟩
  · simp only [strayName, Document.make, List.mem_cons, List.not_mem_nil, or_false] at member
    rcases member with rfl | rfl | rfl | rfl
    · exact typed "p" _ _ (.inr ⟨"P", rfl⟩) none none none (by decide)
    · exact typed "r" _ _ (.inr ⟨"Real", rfl⟩) (some "p") none none (by decide)
    · exact typed "a" _ _ (.inr ⟨"a", rfl⟩) (some "p") none none (by decide)
    · exact typed "t" _ _ (.inl rfl) (some "a") (some "a") (some "ext") (by decide)
  · cases List.mem_singleton.mp member
    exact ⟨"Real", rfl⟩

theorem strayName_settled : strayName.Settled := by
  have isTyping {relation : Record} (listed : relation ∈ strayName.relationships) :
      relation = { id := .text "t", kind := "FeatureTyping", owner := some (.text "a")
                   source := some (.text "a"), target := some (.text "ext") } := by
    have all : strayName.relationships =
        [{ id := .text "t", kind := "FeatureTyping", owner := some (.text "a")
           source := some (.text "a"), target := some (.text "ext") }] := rfl
    rw [all] at listed
    exact List.mem_singleton.mp listed
  have owners : ∀ record ∈ strayName.elements, ∀ owner, strayName.Owns owner record →
      owner.isRelationship = false ∧ owner.owner = none := by
    have all : (strayName.elements.all fun record => (strayName.ownerOf? record).all fun owner =>
        !owner.isRelationship && owner.owner.isNone) = true := by decide +kernel
    intro record member owner owns
    have one := List.all_eq_true.mp all record member
    rw [show strayName.ownerOf? record = some owner from owns] at one
    simpa using one
  have noOwner {record owner : Record} (top : record.owner = none) :
      ¬ strayName.Owns owner record := by
    intro owns
    rw [Document.Owns, Document.ownerOf?, top] at owns
    cases owns
  refine ⟨⟨strayName_typed, by decide +kernel, fun relation listed => ?_, fun relation listed => ?_⟩,
    fun record member => ?_, .of_map Key.display (by decide +kernel),
    fun record member owner owns => (owners record member owner owns).1, fun record member cycle => ?_,
    fun relation listed => ?_⟩
  · rw [isTyping listed]
    decide
  · rw [isTyping listed]
    refine ⟨{ id := .text "a", kind := "PartUsage", name := .text "a", owner := some (.text "p") },
      List.mem_filter.mpr ⟨?_, rfl⟩, rfl⟩
    exact List.mem_cons_of_mem _ (List.mem_cons_of_mem _ List.mem_cons_self)
  · have known := (List.mem_filter.mp member).1
    simp only [strayName, Document.make, List.mem_cons, List.not_mem_nil, or_false] at known
    rcases known with rfl | rfl | rfl | rfl <;> rfl
  -- the owner of an element is owned by nothing
  · cases cycle with
    | single owns => exact noOwner (owners record member record owns).2 owns
    | tail before owns =>
      have top := (owners record member _ owns).2
      cases before with
      | single ownsToo => exact noOwner top ownsToo
      | tail _ ownsToo => exact noOwner top ownsToo
  · rw [isTyping listed]
    exact .inr ⟨by decide, .text "ext", rfl, List.mem_cons_self⟩

/-- The relationship to an element that is not loaded comes to lead to another element, which
has the name of that one in the scope of the feature. -/
theorem strayName_retargets :
    strayName.problems = [] ∧ (strayName.elements.map strayName.fullName).Nodup ∧
      (∀ record ∈ strayName.records, record.id.isAbsent = false ∧
        record.provenance = .text Record.modelProvenance) ∧
      ∃ relation ∈ strayName.relationships, relation.kind = RefKind.typing.metaclass ∧
        (∃ element ∈ strayName.elements, relation.source = some element.id) ∧
        (∃ id ∈ strayName.externalRefs.map (·.1), relation.target = some id) ∧
        ∃ result imported again later,
          outcome (importDocument strayName "m.json") {} = (.ok result, imported) ∧
          outcome (buildDocument false (.text "model")) imported = (.ok again, later) ∧
          ∀ record ∈ again.records, record.id = relation.id → record.target ≠ relation.target := by
  have isTyping : strayName.relationships =
      [{ id := .text "t", kind := "FeatureTyping", owner := some (.text "a")
         source := some (.text "a"), target := some (.text "ext") }] := rfl
  refine ⟨by decide +kernel, .of_map Key.display (by decide +kernel), fun record member => ?_, _,
    isTyping ▸ List.mem_singleton.mpr rfl, rfl, ?_, ⟨.text "ext", List.mem_cons_self, rfl⟩, ?_⟩
  · simp only [strayName, Document.make, List.mem_cons, List.not_mem_nil, or_false] at member
    rcases member with rfl | rfl | rfl | rfl <;> exact ⟨rfl, rfl⟩
  · refine ⟨{ id := .text "a", kind := "PartUsage", name := .text "a", owner := some (.text "p") },
      List.mem_filter.mpr ⟨?_, rfl⟩, rfl⟩
    exact List.mem_cons_of_mem _ (List.mem_cons_of_mem _ List.mem_cons_self)
  · have targets : (outcome (buildDocument false (.text "model"))
        (outcome (importDocument strayName "m.json") {}).2).1.toOption.map
          (fun again => again.records.map fun record =>
            (record.id.display, record.target.map Key.display)) =
        some [("p", none), ("r", none), ("a", none), ("t", some "r")] := by decide +kernel
    have taking : (outcome (importDocument strayName "m.json") {}).1.toOption.isSome = true := by
      decide +kernel
    rcases taken : outcome (importDocument strayName "m.json") {} with ⟨failure | result, imported⟩ <;>
      rw [taken] at targets taking
    · cases taking
    · rcases built : outcome (buildDocument false (.text "model")) imported with
        ⟨failure | again, later⟩ <;> rw [built] at targets
      · cases targets
      · have kept : again.records.map (fun record =>
            (record.id.display, record.target.map Key.display)) =
          [("p", none), ("r", none), ("a", none), ("t", some "r")] := Option.some.inj targets
        refine ⟨result, imported, again, later, rfl, built, fun record member isIt leads => ?_⟩
        have listed := List.mem_map_of_mem (f := fun record : Record =>
          (record.id.display, record.target.map Key.display)) member
        rw [kept, isIt, leads] at listed
        exact absurd listed (by decide)

/-- The relationship to an element that is not loaded keeps its id and its source. -/
theorem importDocument_ends_stray :
    strayName.Settled ∧ ∃ result imported again later,
      outcome (importDocument strayName "m.json") {} = (.ok result, imported) ∧
      outcome (buildDocument false (.text "model")) imported = (.ok again, later) ∧
      ∀ relation ∈ strayName.relationships, ∃ record ∈ again.records,
        record.id = relation.id ∧ record.kind = relation.kindAgain ∧
          record.source = relation.source := by
  obtain ⟨result, imported, again, later, taken, built, ends⟩ :=
    importDocument_ends strayName_settled "m.json" false (.text "model")
  refine ⟨strayName_settled, result, imported, again, later, taken, built, fun relation listed => ?_⟩
  obtain ⟨record, member, id, kind, isSource, _⟩ := ends relation listed
  exact ⟨record, member, id, kind, isSource⟩

end Session

end Sysml
