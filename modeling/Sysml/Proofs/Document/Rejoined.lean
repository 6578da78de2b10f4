import Sysml.Proofs.Document.Distinct
import Sysml.Proofs.Scope.Completeness
import Sysml.Proofs.Workspace.Ending

/-!
# Relationships that are found again

In an index that recalls a document each relationship of the document is a reference or an import
of one symbol, and each of these is such a relationship. Where no feature is redefined
all of them end (`tame`).
-/

set_option autoImplicit false

namespace Sysml

open Scope

structure Document.Relates (document : Document) (relation source target : Record) : Prop where
  listed : relation ∈ document.relationshipsOf source.id
  sourceIn : source ∈ document.elements
  targetIn : target ∈ document.elements
  joins : relation.Joins source target

structure Document.Redefines (document : Document) (relation source target : Record) : Prop
    extends document.Relates relation source target where
  kind : relation.kind = RefKind.redefinition.metaclass
  owned : source.owner ≠ none

/-- A reference that was written for a relationship and has its id. -/
structure Reference.StandsFor (relation target : Record) (reference : Reference) : Prop where
  kind : relation.kind = reference.kind.metaclass
  path : reference.target = .text target.path
  targetId : reference.targetId = none
  targetName : reference.targetName = none
  elementId : reference.elementId = some relation.id

/-- An import that was written for a relationship and has its id. -/
structure Import.StandsFor (relation target : Record) (i : Import) : Prop where
  kind : Record.isImportKind relation.kind = true
  stars : (i.isNamespace || i.isRecursive) = (relation.kind == Record.namespaceImport)
  path : i.path = .text target.path
  targetId : i.targetId = none
  elementId : i.elementId = some relation.id

namespace Document

variable {document : Document} {record relation target : Record} {symbol : Symbol}

section Relating

variable (told : document.Told)

include told

theorem Told.relates_of (member : record ∈ document.elements)
    (listed : relation ∈ document.relationshipsOf record.id) :
    ∃ target, document.Relates relation record target := by
  obtain ⟨source, sourceIn, target, targetIn, joins⟩ :=
    told.portable.relationships relation (mem_relationshipsOf listed).1
  have same : source = record := told.portable.typed.eq_of_id (elements_subset document sourceIn)
    (elements_subset document member)
    ((told.portable.origin_eq sourceIn joins).symm.trans (told.origin_eq member listed))
  subst same
  exact ⟨target, listed, sourceIn, targetIn, joins⟩

theorem Told.relates (listed : relation ∈ document.relationships) :
    ∃ source target, document.Relates relation source target := by
  obtain ⟨source, sourceIn, target, targetIn, joins⟩ := told.portable.relationships relation listed
  refine ⟨source, target, List.mem_filter.mpr ⟨listed, ?_⟩, sourceIn, targetIn, joins⟩
  rw [told.portable.origin_eq sourceIn joins]
  exact BEq.rfl

theorem Told.reference_stands (relates : document.Relates relation record target) {kind : RefKind}
    (isKind : RefKind.ofMetaclass? relation.kind = some kind) {reference : Reference}
    (recalls : reference.Recalls document (document.relationshipsOf record.id) (kind, relation)) :
    reference.StandsFor relation target := by
  have same : kind.metaclass = relation.kind := by simpa using List.find?_some isKind
  refine ⟨?_, ?_, recalls.targetId, recalls.targetName, recalls.found relates.listed⟩
  · rw [recalls.kind, same]
  · rw [recalls.target, told.portable.targetPath_eq relates.targetIn relates.joins.ends.2.2]

theorem Told.import_stands (relates : document.Relates relation record target)
    (isImport : Record.isImportKind relation.kind = true) {i : Import}
    (recalls : i.Recalls document (document.relationshipsOf record.id) relation) :
    i.StandsFor relation target := by
  refine ⟨isImport, recalls.stars, ?_, recalls.targetId, recalls.found relates.listed⟩
  rw [recalls.path, told.portable.targetPath_eq relates.targetIn relates.joins.ends.2.2]

/-- A reference of a symbol stands for a relationship of its element. -/
theorem Told.reference_relates (member : record ∈ document.elements)
    (recalls : symbol.RecallsAll document record) {reference : Reference}
    (asked : reference ∈ symbol.references) :
    ∃ relation target, document.Relates relation record target ∧
      reference.StandsFor relation target := by
  obtain ⟨⟨kind, relation⟩, listed, isRecalled⟩ := exists_related recalls.references asked
  obtain ⟨related, isKind⟩ := mem_clausesOf.mp listed
  obtain ⟨target, relates⟩ := told.relates_of member related
  exact ⟨relation, target, relates, told.reference_stands relates isKind isRecalled⟩

/-- An import of a symbol stands for a relationship of its element. -/
theorem Told.import_relates (member : record ∈ document.elements)
    (recalls : symbol.RecallsAll document record) {i : Import} (asked : i ∈ symbol.imports) :
    ∃ relation target, document.Relates relation record target ∧ i.StandsFor relation target := by
  obtain ⟨relation, listed, isRecalled⟩ := exists_related recalls.imports asked
  obtain ⟨related, isImport⟩ := List.mem_filter.mp listed
  obtain ⟨target, relates⟩ := told.relates_of member related
  exact ⟨relation, target, relates, told.import_stands relates isImport isRecalled⟩

/-- A relationship of an element has a reference or an import of its symbol. -/
theorem Told.relates_stands (relates : document.Relates relation record target)
    (recalls : symbol.RecallsAll document record) :
    (∃ reference ∈ symbol.references, reference.StandsFor relation target) ∨
      ∃ i ∈ symbol.imports, i.StandsFor relation target := by
  rcases told.relation_kind relates.listed with ⟨kind, isKind⟩ | ⟨isImport, _⟩
  · have isClause : RefKind.ofMetaclass? relation.kind = some kind := by
      rw [isKind, (RefKind.ofMetaclass?_metaclass kind).2]
    have listed : (kind, relation) ∈ document.clausesOf record :=
      mem_clausesOf.mpr ⟨relates.listed, isClause⟩
    obtain ⟨reference, asked, isRecalled⟩ := exists_related_right recalls.references listed
    exact .inl ⟨reference, asked, told.reference_stands relates isClause isRecalled⟩
  · obtain ⟨i, asked, isRecalled⟩ := exists_related_right recalls.imports
      (List.mem_filter.mpr ⟨relates.listed, isImport⟩)
    exact .inr ⟨i, asked, told.import_stands relates isImport isRecalled⟩

end Relating

end Document

/-- Nothing binds a reference that was written. -/
theorem Reference.StandsFor.unbound {relation target : Record} {reference : Reference}
    (stands : reference.StandsFor relation target) (index : Index) :
    boundTarget index reference = .ok none := by
  rw [boundTarget, stands.targetId, stands.targetName]
  rfl

theorem Reference.StandsFor.pathOf {relation target : Record} {reference : Reference}
    (stands : reference.StandsFor relation target) : Scope.pathOf reference = .ok target.path := by
  rw [Scope.pathOf, stands.path]
  rfl

/-- A redefinition of a feature that is owned stands for a relationship that redefines. -/
theorem Reference.StandsFor.redefines {document : Document} {relation record target owner : Record}
    {reference : Reference} (stands : reference.StandsFor relation target)
    (relates : document.Relates relation record target) (redefines : reference.kind = .redefinition)
    (ownedBy : document.OwnedBy record owner) : document.Redefines relation record target :=
  ⟨relates, by rw [stands.kind, redefines], by rw [ownedBy.2]; exact Option.some_ne_none _⟩

namespace Scope.Index.Recalls

variable {index : Index} {document : Document} {record target relation : Record} {symbol : Symbol}
  (recalls : index.Recalls document)

include recalls

/-- An import of an element is looked up as its symbol, as seen from anywhere. -/
theorem resolveImport (member : target ∈ document.elements) {i : Import}
    (stands : i.StandsFor relation target) (scope : Option Key) :
    ∃ goal ∈ index.symbols, goal.RecallsAll document target ∧
      Scope.resolveImport index i scope = .ok (some goal) := by
  obtain ⟨goal, known, isGoal, looked⟩ := recalls.lookup member
  have proper : i.path.proper = .ok (.text target.path) := by
    rw [stands.path]
    rfl
  refine ⟨goal, known, isGoal, ?_⟩
  have noBinding : boundTo index i.targetId = .ok none := by
    rw [stands.targetId]
    rfl
  unfold Scope.resolveImport
  rw [noBinding, ok_bind]
  dsimp only
  rw [proper, ok_bind, looked]
  rfl

variable (told : document.Told)

include told

/-- All that the symbols go by are texts. -/
theorem typed : index.Typed where
  ids := recalls.ids
  symbols := by
    intro symbol known
    obtain ⟨record, member, isElement⟩ := recalls.known symbol known
    refine ⟨⟨_, isElement.qualifiedName⟩, ?_, fun i asked => ?_⟩
    · rcases isElement.owner with ⟨_, unowned⟩ | ⟨above, _, isOwner⟩
      · rw [unowned]
        exact fun _ same => (by cases same)
      · rw [isOwner]
        exact fun _ same => ⟨_, (Option.some.inj same).symm⟩
    · obtain ⟨_, target, _, stands⟩ := told.import_relates member isElement asked
      exact ⟨⟨_, stands.path⟩, stands.targetId ▸ fun _ same => (by cases same)⟩
  rootImports := by
    intro entry listed i asked
    rw [recalls.roots entry listed] at asked
    cases asked

/-- What stands around a namespace has a shorter name. -/
theorem rooted : index.Rooted := by
  refine Subrelation.wf (r := InvImage (· < ·) String.length) ?_ (InvImage.wf _ Nat.lt_wfRel.wf)
  intro outer inner around
  change outer.length < inner.length
  rw [outerScope] at around
  cases looked : index.lookup (.text inner) with
  | none =>
    rw [looked] at around
    obtain ⟨other, isParent, same⟩ := Option.map_eq_some_iff.mp (Except.ok.inj around)
    rw [← Key.text_inj same]
    exact parent?_length isParent
  | some symbol =>
    rw [looked] at around
    have isOwner : symbol.owner = some (.text outer) := Except.ok.inj around
    obtain ⟨record, member, isElement⟩ := recalls.known symbol (List.mem_of_find?_eq_some looked)
    have isName : (symbol.qualifiedName == Key.text inner) = true := by
      simpa using List.find?_some looked
    rw [isElement.qualifiedName, Key.text_beq, beq_iff_eq] at isName
    rcases isElement.owner with ⟨_, unowned⟩ | ⟨above, ownedBy, isAbove⟩
    · rw [unowned] at isOwner
      cases isOwner
    · have same := Key.text_inj (Option.some.inj (isAbove.symm.trans isOwner))
      rcases told.nested record member with ⟨unowned, _⟩ | ⟨other, isOther, isPath⟩
      · rw [Document.OwnedBy, unowned] at ownedBy
        cases ownedBy.2
      · rw [← same, ← isName, told.legible.owner_unique ownedBy isOther, isPath]
        exact QualifiedName.length_lt_join _ _

omit told in
theorem isName (known : symbol ∈ index.symbols) : Key.IsName (some symbol.qualifiedName) := by
  obtain ⟨record, _, isElement⟩ := recalls.known symbol known
  rw [isElement.qualifiedName]
  exact fun _ same => ⟨_, (Option.some.inj same).symm⟩

/-- The walk outward from any scope comes to the root. -/
theorem climbs {scope : Option Key} (isName : Key.IsName scope) :
    Climbs index (index.outwardFuel scope) scope :=
  (recalls.rooted told).outwardFuel_enough (recalls.typed told) isName

/-- All imports can be looked up. -/
theorem imports_end {space : Option Key} {file : String} {i : Import}
    (asked : i ∈ index.importsOf space file) (scope : Option Key) :
    ∃ found, Scope.resolveImport index i scope = .ok found := by
  cases space with
  | none =>
    cases listed : index.rootImports.lookup file with
    | none =>
      rw [Index.importsOf, listed] at asked
      cases asked
    | some imports =>
      obtain ⟨held, _, member⟩ := Entries.exists_mem_of_lookup listed
      have none_ : imports = [] := recalls.roots _ member
      rw [Index.importsOf, listed, Option.getD_some, none_] at asked
      cases asked
  | some name =>
    obtain ⟨symbol, named, has⟩ := List.mem_flatMap.mp asked
    obtain ⟨record, member, isElement⟩ := recalls.known symbol (index.named_subset name named)
    obtain ⟨_, target, relates, stands⟩ := told.import_relates member isElement has
    obtain ⟨goal, _, _, resolved⟩ := recalls.resolveImport relates.targetIn stands scope
    exact ⟨_, resolved⟩

/-- All references and imports of the index end, where no feature is redefined. -/
theorem tame (plain : ∀ relation source target, ¬ document.Redefines relation source target) :
    index.Tame where
  ids := recalls.ids
  names _ known := recalls.isName known
  references := by
    intro symbol known reference asked
    obtain ⟨record, member, isElement⟩ := recalls.known symbol known
    obtain ⟨relation, target, relates, stands⟩ := told.reference_relates member isElement asked
    refine ⟨none, stands.unbound index, fun _ => ⟨⟨_, stands.path⟩, ?_, ?_⟩⟩
    · intro redefines
      rcases isElement.owner with ⟨_, unowned⟩ | ⟨above, ownedBy, _⟩
      · exact unowned
      · exact absurd (stands.redefines relates redefines ownedBy) (plain relation record target)
    · exact recalls.climbs told ((recalls.typed told).symbols symbol known).owner
  imports _ _ _ _ asked := recalls.imports_end told asked _

end Scope.Index.Recalls

end Sysml

/-!
## References that mean something

In an index that recalls a document each reference means something, where a redefinition does
not name its target in a way that may mean the redefining feature itself (`means`).
-/

namespace Sysml

open Scope

/-- The qualified name of the target cannot mean the source: it leads to the target and to no
other element, or the source does not answer to the last name of it. -/
def Document.Discerned (document : Document) (source target : Record) : Prop :=
  target ≠ source ∧ (document.Distinct target ∨
    ∀ last ∈ (QualifiedName.segments target.path).getLast?, ¬ source.AnswersTo last)

namespace Scope.Index.Recalls

variable {index : Index} {document : Document} {record target relation : Record}
  {symbol : Symbol} {reference : Reference} {memo : Memo} (recalls : index.Recalls document)

include recalls

/-- What the qualified name of an element means is the element, or answers to the last name. -/
theorem means_last {query : Query} {found : Symbol} (member : target ∈ document.elements)
    (isPath : query.path = target.path) (means : Means index query found) :
    found.RecallsAll document target ∨
      ∀ last ∈ (QualifiedName.segments target.path).getLast?, answersTo last found = true := by
  cases means with
  | walk segments _ _ offers descends =>
    rw [← isPath, segments]
    exact .inr (descends.answersTo (offers.known recalls.ids).2)
  | whole _ looked =>
    obtain ⟨symbol, _, isTarget, isSymbol⟩ := recalls.lookup member
    rw [isPath, isSymbol] at looked
    cases looked
    exact .inl isTarget

variable (told : document.Told) (serials : (index.symbols.map (·.serial)).Nodup)

include told serials

/-- A redefinition of an owned feature means something where the target can be told from the
feature itself. -/
theorem redefinition_means (known : symbol ∈ index.symbols) (member : record ∈ document.elements)
    (isElement : symbol.RecallsAll document record) (targetIn : target ∈ document.elements)
    (discerned : document.Discerned record target) (depth : Nat) (owner : Key) :
    Keeps (Memo.Upheld index (document.Answers index)) (fun found => index.Has found ∧ found ≠ none)
      (resolveRedefinition index (referAt index depth) [] target.path symbol owner) := by
  have upholds := recalls.upholds told
  unfold resolveRedefinition
  split
  · exact .throw _
  · next last isLast =>
    refine (findInherited_upholds upholds recalls.ids depth [] owner last).bind
      fun inherited has => ?_
    cases inherited with
    | some inherited => exact .pure ⟨has, Option.some_ne_none _⟩
    | none =>
      refine (Keeps.lift (parentScope owner)).bind fun scope _ => ?_
      have resolves (query : Query) : Derives index (Meets (Means index query))
          (resolveWith index (referAt index depth) [] query) :=
        resolveWith_derives (answer_derives (referAt_derives depth [query]) query)
      refine ((resolveWith_good upholds recalls.ids depth _).derived (resolves _)).bind
        fun found holds => .pure ?_
      obtain ⟨⟨hasFound, good⟩, means⟩ := holds
      obtain ⟨answer, rfl⟩ := Option.ne_none_iff_exists'.mp (good.some_ target targetIn rfl)
      have answerIn := hasFound answer rfl
      have apart : answer.serial ≠ symbol.serial := by
        intro same
        obtain rfl : answer = symbol := List.inj_on_of_nodup_map serials answerIn known same
        have notTarget : ¬ answer.RecallsAll document target := fun isTarget =>
          discerned.1 (told.record_unique targetIn member isTarget isElement)
        rcases discerned.2 with distinct | strange
        · exact notTarget (good.distinct target targetIn rfl distinct answer rfl)
        · rcases recalls.means_last targetIn rfl (means answer rfl) with isTarget | answers
          · exact notTarget isTarget
          · exact strange last isLast (isElement.answersTo (answers last isLast))
      rw [Option.filter_some, if_pos (by simpa using apart)]
      exact ⟨hasFound, Option.some_ne_none _⟩

/-- Each reference that stands for a relationship means something, where redefinitions of owned
features can be told from these. -/
theorem reference_means (known : symbol ∈ index.symbols)
    (isElement : symbol.RecallsAll document record) (relates : document.Relates relation record target)
    (discerned : document.Redefines relation record target → document.Discerned record target)
    (stands : reference.StandsFor relation target) :
    Keeps (Memo.Upheld index (document.Answers index)) (fun found => index.Has found ∧ found ≠ none)
      (resolveReference index reference symbol) := by
  refine (Keeps.lift (boundTarget index reference)).bind fun found isBound => ?_
  obtain rfl : found = none := Except.ok.inj (isBound.symm.trans (stands.unbound index))
  refine (Keeps.lift (pathOf reference)).bind fun path isPath => ?_
  obtain rfl : path = target.path := Except.ok.inj (isPath.symm.trans stands.pathOf)
  split
  · next owner redefines owned =>
    obtain ⟨_, _, above, ownedBy, _, _⟩ := recalls.ownerSymbol isElement owned
    exact recalls.redefinition_means told serials known relates.sourceIn isElement
      relates.targetIn (discerned (stands.redefines relates redefines ownedBy)) _ owner
  · refine (resolveWith_good (recalls.upholds told) recalls.ids _ _).mono fun found holds => ?_
    exact ⟨holds.1, holds.2.some_ target relates.targetIn rfl⟩

end Scope.Index.Recalls

end Sysml
