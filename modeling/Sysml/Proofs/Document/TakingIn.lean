import Sysml.Document.Import
import Sysml.Proofs.Document.Closed
import Sysml.Proofs.Document.Portable
import Sysml.Proofs.Document.Typed

/-!
# Taking in a portable document

Each element of a portable document becomes a symbol, and each relationship a reference
or an import of the symbol that it comes from, in the order of the records.
-/

set_option autoImplicit false

namespace Sysml

open Scope

/-- Ids that are apart are not repeated. -/
theorem Document.repeatedIds_eq_nil {seen ids : List Key}
    (fresh : ∀ id ∈ ids, ∀ one ∈ seen, (id == one) = false)
    (apart : ids.Pairwise fun one other => (one == other) = false) :
    Document.repeatedIds seen ids = [] := by
  induction ids generalizing seen with
  | nil => rfl
  | cons id rest ih =>
    obtain ⟨first, others⟩ := List.pairwise_cons.mp apart
    have isFresh : seen.contains id = false := by
      rw [List.contains_eq_any_beq, List.any_eq_false]
      exact fun one member => by simp [fresh id List.mem_cons_self one member]
    rw [Document.repeatedIds, isFresh]
    refine ih (fun other member one held => ?_) others
    rcases List.mem_cons.mp held with rfl | before
    · rw [BEq.comm]
      exact first other member
    · exact fresh other (List.mem_cons_of_mem _ member) one before

theorem Record.Joins.ends {record source target : Record} (joins : record.Joins source target) :
    record.owner = some source.id ∧ record.source = some source.id ∧
      record.target = some target.id := by
  rcases joins.2 with ⟨kind, same⟩ | ⟨_, _, _, same⟩
  · exact ⟨by rw [same], by rw [same], by rw [same]⟩
  · exact ⟨by rw [same], by rw [same], by rw [same]⟩

theorem Record.IsElement.typed {record : Record} (element : record.IsElement)
    (owner : Key.IsName record.owner) : record.Typed := by
  obtain ⟨id, name, qualifiedName, shortName, direction, kind, isLibrary, someId, _, _, same⟩ :=
    element
  have written : record.properties =
      if direction.isEmpty then [] else [(.text "direction", .text direction)] := by rw [same]
  have directionWritten :
      ((record.property? "direction").getD (.text "")).isWritable = true := by
    rw [Record.property?, written]
    split
    · rfl
    · rw [List.lookup_cons, Value.text_beq]
      rfl
  have visibilityWritten :
      ((record.property? "visibility").getD (.text "private")).isWritable = true := by
    rw [Record.property?, written]
    split
    · rfl
    · rw [List.lookup_cons, Value.text_beq]
      rfl
  rw [same]
  rw [same] at owner directionWritten visibilityWritten
  exact ⟨⟨id, someId, rfl⟩, .inr ⟨name, rfl⟩, .inr ⟨qualifiedName, rfl⟩, owner,
    fun _ same => (by cases same), fun _ same => (by cases same), directionWritten,
    visibilityWritten⟩

theorem Record.Joins.typed {record source target : Record} (joins : record.Joins source target)
    (sourceTyped : source.Typed) (targetTyped : target.Typed) : record.Typed := by
  obtain ⟨owner, origin, goal⟩ := joins.ends
  obtain ⟨sourceId, _, isSource⟩ := sourceTyped.id
  obtain ⟨targetId, _, isTarget⟩ := targetTyped.id
  rw [isSource] at owner origin
  rw [isTarget] at goal
  have isName {key? : Option Key} {name : String} (same : key? = some (.text name)) :
      Key.IsName key? := fun key isKey => ⟨name, Option.some.inj (isKey.symm.trans same)⟩
  refine ⟨joins.1, ?_, ?_, isName owner, isName origin, isName goal, ?_, ?_⟩
  · rcases joins.2 with ⟨_, same⟩ | ⟨_, _, _, same⟩
    · rw [same]
      exact .inl rfl
    · rw [same]
      exact targetTyped.name
  · rcases joins.2 with ⟨_, same⟩ | ⟨_, _, _, same⟩ <;> rw [same] <;> exact .inl rfl
  all_goals
    rcases joins.2 with ⟨_, same⟩ | ⟨_, _, _, same⟩
    · rw [same]
      rfl
    · rw [same]
      unfold Record.property?
      dsimp only
      rw [List.lookup_cons, Value.text_beq, List.lookup_cons, Value.text_beq]
      rfl

namespace Document.Portable

variable {document : Document} {selfContained : Bool} {record other : Record}
  (portable : document.Portable selfContained)

include portable

theorem element_typed (member : record ∈ document.elements) : record.Typed := by
  refine (portable.elements record member).typed fun id owned => ?_
  obtain ⟨owner, ownerIn, rfl⟩ := portable.owners record member id owned
  obtain ⟨id, _, _, _, _, _, _, _, _, _, same⟩ := portable.elements owner ownerIn
  exact ⟨id, by rw [same]⟩

theorem typed : document.Typed where
  ids := portable.ids
  records := by
    intro record member
    cases isRelationship : record.isRelationship with
    | true =>
      obtain ⟨source, sourceIn, target, targetIn, joins⟩ :=
        portable.relationships record (List.mem_filter.mpr ⟨member, isRelationship⟩)
      exact joins.typed (portable.element_typed sourceIn) (portable.element_typed targetIn)
    | false =>
      exact portable.element_typed (List.mem_filter.mpr ⟨member, by simp [isRelationship]⟩)
  external := by
    intro entry member
    rw [portable.external] at member
    cases member

/-- What a record refers to is an element. -/
theorem ends (member : record ∈ document.records) {id : Key}
    (isEnd : record.owner = some id ∨ record.source = some id ∨ record.target = some id) :
    ∃ owner ∈ document.elements, owner.id = id := by
  cases isRelationship : record.isRelationship with
  | true =>
    obtain ⟨source, sourceIn, target, targetIn, joins⟩ :=
      portable.relationships record (List.mem_filter.mpr ⟨member, isRelationship⟩)
    obtain ⟨owner, origin, goal⟩ := joins.ends
    rw [owner, origin, goal] at isEnd
    rcases isEnd with same | same | same
    · exact ⟨source, sourceIn, Option.some.inj same⟩
    · exact ⟨source, sourceIn, Option.some.inj same⟩
    · exact ⟨target, targetIn, Option.some.inj same⟩
  | false =>
    have element : record ∈ document.elements :=
      List.mem_filter.mpr ⟨member, by simp [isRelationship]⟩
    obtain ⟨_, _, _, _, _, _, _, _, _, _, same⟩ := portable.elements record element
    have source : record.source = none := by rw [same]
    have target : record.target = none := by rw [same]
    rw [source, target] at isEnd
    rcases isEnd with owner | none_ | none_
    · exact portable.owners record element id owner
    · cases none_
    · cases none_

/-- A portable document has no problems. -/
theorem problems : document.problems = [] := by
  have dangling : document.danglingReferences = [] := by
    refine Document.danglingReferences_eq_nil fun record member id isEnd => ?_
    obtain ⟨owner, ownerIn, rfl⟩ := portable.ends member (Draft.mem_references isEnd)
    have listed : owner.id ∈ document.ids := List.mem_map_of_mem (List.mem_filter.mp ownerIn).1
    exact Bool.or_eq_true_iff.mpr
      (.inl (List.contains_iff_exists_mem_beq.mpr ⟨_, listed, BEq.rfl⟩))
  have repeated : repeatedIds [] document.ids = [] := by
    refine repeatedIds_eq_nil (fun _ _ _ member => (by cases member)) ?_
    refine List.pairwise_map.mpr ((List.pairwise_map.mp portable.ids).imp_of_mem ?_)
    intro one other oneIn otherIn isApart
    exact Bool.eq_false_iff.mpr fun same =>
      isApart (congrArg Record.id (portable.typed.eq_of_id_beq oneIn otherIn same))
  rw [Document.problems, dangling, repeated]
  rfl

/-- An element has the qualified name that it gives. -/
theorem fullName_eq (member : record ∈ document.elements) :
    document.fullName record = ⟨record.qualifiedName⟩ := by
  obtain ⟨_, _, qualifiedName, _, _, _, _, _, _, someQualified, same⟩ :=
    portable.elements record member
  have isText : record.qualifiedName = .text qualifiedName := by rw [same]
  rw [Document.fullName, Document.qualifiedNameOf, isText]
  simp [Value.isAbsent, someQualified, Except.toOption]

/-- No two elements share a qualified name. -/
theorem fullNames : (document.elements.map document.fullName).Nodup := by
  have same : document.elements.map document.fullName =
      (document.elements.map (·.qualifiedName)).map Key.mk := by
    rw [List.map_map]
    exact List.map_congr_left fun record member => portable.fullName_eq member
  rw [same]
  exact portable.names.map fun _ _ same => congrArg Key.value same

/-- A relationship belongs to the element that it comes from. -/
theorem origin_eq {source target : Record} (sourceIn : source ∈ document.elements)
    (joins : record.Joins source target) : record.origin = source.id := by
  rw [Record.origin, joins.ends.2.1, portable.typed.id_given (List.mem_filter.mp sourceIn).1]
  rfl

end Document.Portable

theorem Document.nameOrEmpty_text {name : String} (someName : name ≠ "") :
    Document.nameOrEmpty (.text name) = .text name := by
  simp [nameOrEmpty, Value.isAbsent, someName]
  rfl

/-- The symbol of an element, without its references and imports. -/
def Document.bare (document : Document) (source : String) (record : Record) : Symbol :=
  { name := nameOrEmpty record.name, qualifiedName := document.fullName record
    kind := SymbolKind.ofMetaclass record.kind, file := source
    owner := (document.ownerOf? record).map document.fullName
    shortName := nameOrEmpty record.shortName
    doc := record.doc
    isAbstract := record.isAbstract
    direction := ((record.property? "direction").getD (.text "")).display
    isLibrary := record.provenance.isText Record.inlinedProvenance
    elementId := some record.id }

/-- What the ids of elements stand for, after what ids outside of the document stand for. -/
def Document.knownNames (document : Document) (records : List Record)
    (names : List (Key × Key)) : List (Key × Key) :=
  (records.filter fun record => !record.isRelationship).foldl
    (fun names record => Entries.put record.id (document.fullName record) names) names

def TextNames (names : List (Key × Key)) : Prop :=
  ∀ entry ∈ names, ∃ name, entry.2 = .text name

theorem TextNames.put {names : List (Key × Key)} (texts : TextNames names) (id : Key)
    (name : String) : TextNames (Entries.put id (.text name) names) := by
  induction names with
  | nil =>
    intro entry member
    cases List.mem_singleton.mp member
    exact ⟨name, rfl⟩
  | cons first rest ih =>
    obtain ⟨held, old⟩ := first
    intro entry member
    unfold Entries.put at member
    split at member
    · rcases List.mem_cons.mp member with rfl | later
      · exact ⟨name, rfl⟩
      · exact texts entry (List.mem_cons_of_mem _ later)
    · rcases List.mem_cons.mp member with rfl | later
      · exact texts _ List.mem_cons_self
      · exact ih (fun other inside => texts other (List.mem_cons_of_mem _ inside)) entry later

section Elements

variable {document : Document} {record : Record} (typed : document.Typed)

include typed

theorem Document.Typed.knownNames_text {records : List Record} (part : records ⊆ document.records)
    {names : List (Key × Key)} (texts : TextNames names) :
    TextNames (document.knownNames records names) := by
  unfold Document.knownNames
  induction records generalizing names with
  | nil => exact texts
  | cons record rest ih =>
    obtain ⟨member, partRest⟩ := List.cons_subset.mp part
    obtain ⟨_, name, _, isText⟩ := typed.fullName_text member
    rw [List.filter_cons]
    split
    · rw [List.foldl_cons, isText]
      exact ih partRest (texts.put record.id name)
    · exact ih partRest texts

/-- Each element becomes the symbol that it stands for. -/
theorem symbolOf_bare (source : String) (member : record ∈ document.records) :
    document.symbolOf source (document.fullName record) record =
      .ok (document.bare source record) := by
  have owner : ((Key.given? record.owner).bind document.last?).mapM document.qualifiedNameOf =
      .ok ((document.ownerOf? record).map document.fullName) := by
    unfold Document.ownerOf?
    cases owned : (Key.given? record.owner).bind document.last? with
    | none => rfl
    | some owner =>
      change (some <$> document.qualifiedNameOf owner : Except Failure (Option Key)) = _
      rw [(typed.fullName_text (Document.Typed.mem_of_ownerOf? owned)).1]
      rfl
  have written : ((record.property? "direction").getD (.text "")).toText =
      .ok ((record.property? "direction").getD (.text "")).display :=
    if_pos (typed.records record member).direction
  unfold Document.symbolOf
  rw [owner, ok_bind, written]
  rfl

/-- Where nothing is loaded each element becomes a symbol of its own. -/
theorem takeElements_ok (source : String) {index : Index} (nothing : index.symbols = [])
    (session : Session) {records : List Record} (part : records ⊆ document.records)
    (taken : Document.Elements) :
    outcome (document.takeElements source index taken records) session =
      (.ok ⟨taken.symbols ++ (records.filter fun record => !record.isRelationship).map
          (document.bare source), document.knownNames records taken.names⟩, session) := by
  induction records generalizing taken with
  | nil => simp [Document.takeElements, Document.knownNames]
  | cons record rest ih =>
    obtain ⟨member, partRest⟩ := List.cons_subset.mp part
    rw [Document.takeElements, Document.knownNames, List.filter_cons]
    cases record.isRelationship with
    | true => exact ih partRest taken
    | false =>
      obtain ⟨qualified, name, _, isText⟩ := typed.fullName_text member
      have named : outcome (MonadExcept.ofExcept (document.qualifiedNameOf record) : Operation Key)
          session = (.ok (document.fullName record), session) := by
        rw [outcome_ofExcept, qualified]
      have noTwin : Document.loadedTwin? index record (document.fullName record) = .ok none := by
        have missing : index.lookup (document.fullName record) = none := by
          rw [Index.lookup, nothing]
          rfl
        have proper : (document.fullName record).proper = .ok (document.fullName record) := by
          rw [isText]
          rfl
        unfold Document.loadedTwin?
        split
        · rw [proper, ok_bind, missing]
          rfl
        · rfl
      have sought : outcome (liftM (Document.loadedTwin? index record (document.fullName record)) :
          Operation (Option Symbol)) session = (.ok none, session) := by
        rw [outcome_liftM, noTwin]
      have made : outcome (MonadExcept.ofExcept
          (document.symbolOf source (document.fullName record) record) : Operation Symbol) session =
            (.ok (document.bare source record), session) := by
        rw [outcome_ofExcept, symbolOf_bare typed source member]
      simp only [Bool.false_eq_true, ↓reduceIte, Bool.not_false]
      refine (outcome_bind_of_ok named).trans ?_
      refine (outcome_bind_of_ok sought).trans ?_
      refine (outcome_bind_of_ok made).trans ?_
      refine (ih partRest _).trans ?_
      simp [Document.knownNames]

end Elements

/-- The name of what a relationship leads to, if its id stands for one. -/
def Record.targetName (names : List (Key × Key)) (record : Record) : Key :=
  (names.lookup ((Key.given? record.target).getD (.text ""))).getD (.text "")

/-- The reference that a record stands for, if it is no import's. -/
def Record.asReference? (names : List (Key × Key)) (record : Record) : Option Reference :=
  if Record.isImportKind record.kind then none
  else
    (RefKind.ofMetaclass? record.kind).map fun kind =>
      { kind, target := record.targetName names, targetId := record.target
        targetName := some (record.targetName names), elementId := some record.id }

def Record.asImport? (names : List (Key × Key)) (record : Record) : Option Import :=
  if Record.isImportKind record.kind then
    some
      { path := record.targetName names
        isNamespace := record.kind == Record.namespaceImport
        isRecursive := !((record.property? "isRecursive").getD (.bool false)).isAbsent
        visibility := ((record.property? "visibility").getD (.text "private")).display
        elementId := some record.id, targetId := record.target }
  else none

def Symbol.attach (names : List (Key × Key)) (symbol : Symbol) (record : Record) : Symbol :=
  { symbol with
    references := symbol.references ++ (record.asReference? names).toList
    imports := symbol.imports ++ (record.asImport? names).toList }

section Attaching

variable {record : Record}

theorem RefKind.ofMetaclass?_metaclass (kind : RefKind) :
    Record.isImportKind kind.metaclass = false ∧
      RefKind.ofMetaclass? kind.metaclass = some kind := by
  cases kind <;> decide

theorem importKind_isImport (isNamespace isRecursive : Bool) :
    Record.isImportKind (if isNamespace || isRecursive then Record.namespaceImport
      else Record.membershipImport) = true := by
  cases isNamespace <;> cases isRecursive <;> decide

/-- A relationship of a supported kind becomes a reference or an import. -/
theorem attach?_supported (supported : Record.isRelationshipKind record.kind = true)
    (visible : ((record.property? "visibility").getD (.text "private")).isWritable = true)
    (names : List (Key × Key)) :
    Document.attach? names record = .ok (some fun symbol => symbol.attach names record) := by
  unfold Document.attach? Symbol.attach Record.asReference? Record.asImport?
  cases isImport : Record.isImportKind record.kind with
  | true =>
    have written : ((record.property? "visibility").getD (.text "private")).toText =
        .ok ((record.property? "visibility").getD (.text "private")).display := if_pos visible
    simp only [↓reduceIte]
    rw [written]
    simp [Record.targetName]
  | false =>
    have isReference : (RefKind.ofMetaclass? record.kind).isSome = true := by
      rwa [Record.isRelationshipKind, isImport, Bool.or_false] at supported
    obtain ⟨kind, isKind⟩ := Option.isSome_iff_exists.mp isReference
    rw [isKind]
    simp [Record.targetName]
    rfl

theorem mem_changeLast {id : Key} {change : Symbol → Symbol} {symbols : List Symbol}
    {symbol : Symbol} (listed : symbol ∈ Document.changeLast id change symbols) :
    symbol ∈ symbols ∨ ∃ old ∈ symbols, symbol = change old := by
  have go (symbols : List Symbol) (listed : symbol ∈ Document.changeLast.go id change symbols) :
      symbol ∈ symbols ∨ ∃ old ∈ symbols, symbol = change old := by
    induction symbols with
    | nil => cases listed
    | cons first rest ih =>
      rw [Document.changeLast.go] at listed
      split at listed
      · rcases List.mem_cons.mp listed with same | later
        · exact .inr ⟨first, List.mem_cons_self, same⟩
        · exact .inl (List.mem_cons_of_mem _ later)
      · rcases List.mem_cons.mp listed with rfl | later
        · exact .inl List.mem_cons_self
        · rcases ih later with held | ⟨old, held, same⟩
          · exact .inl (List.mem_cons_of_mem _ held)
          · exact .inr ⟨old, List.mem_cons_of_mem _ held, same⟩
  rcases go symbols.reverse (List.mem_reverse.mp listed) with held | ⟨old, held, same⟩
  · exact .inl (List.mem_reverse.mp held)
  · exact .inr ⟨old, List.mem_reverse.mp held, same⟩

/-- Changing the last symbol of an id changes the one symbol that has it. -/
theorem changeLast_eq_map {id : Key} {change : Symbol → Symbol} {symbols : List Symbol}
    (apart : symbols.Pairwise fun one other =>
      (one.elementId == some id) = true → (other.elementId == some id) = false) :
    Document.changeLast id change symbols =
      symbols.map fun symbol => if symbol.elementId == some id then change symbol else symbol := by
  have go (symbols : List Symbol)
      (apart : symbols.Pairwise fun one other =>
        (one.elementId == some id) = true → (other.elementId == some id) = false) :
      Document.changeLast.go id change symbols =
        symbols.map fun symbol =>
          if symbol.elementId == some id then change symbol else symbol := by
    induction symbols with
    | nil => rfl
    | cons symbol rest ih =>
      obtain ⟨first, others⟩ := List.pairwise_cons.mp apart
      rw [Document.changeLast.go, List.map_cons]
      split
      · next isIt =>
        have unchanged : (rest.map fun symbol =>
            if symbol.elementId == some id then change symbol else symbol) = rest := by
          refine (List.map_congr_left fun other member => ?_).trans (List.map_id rest)
          rw [first other member isIt]
          rfl
        rw [unchanged]
      · rw [ih others]
  have reversed : symbols.reverse.Pairwise fun one other =>
      (one.elementId == some id) = true → (other.elementId == some id) = false := by
    refine List.pairwise_reverse.mpr (apart.imp fun first isIt => Bool.eq_false_iff.mpr ?_)
    intro itself
    rw [first itself] at isIt
    cases isIt
  rw [Document.changeLast, go _ reversed, List.map_reverse, List.reverse_reverse]

/-- All relationships are added to the symbols they come from, in order. -/
theorem attachAll_ok (names : List (Key × Key)) (skipped : Nat) {records : List Record}
    {symbols : List Symbol}
    (apart : symbols.Pairwise fun one other => (one.elementId == other.elementId) = false)
    (joined : ∀ record ∈ records,
      Document.attach? names record = .ok (some fun symbol => symbol.attach names record) ∧
        ∃ symbol ∈ symbols, (symbol.elementId == some record.origin) = true) :
    Document.attachAll names symbols skipped records =
      .ok (symbols.map fun symbol =>
        (records.filter fun record => symbol.elementId == some record.origin).foldl
          (Symbol.attach names) symbol, skipped) := by
  induction records generalizing symbols with
  | nil => simp [Document.attachAll]
  | cons record rest ih =>
    obtain ⟨attaches, holder, holderIn, isHolder⟩ := joined record List.mem_cons_self
    have held : (symbols.any fun symbol => symbol.elementId == some record.origin) = true :=
      List.any_eq_true.mpr ⟨holder, holderIn, isHolder⟩
    have single : symbols.Pairwise fun one other =>
        (one.elementId == some record.origin) = true →
          (other.elementId == some record.origin) = false := by
      refine apart.imp fun isApart isIt => Bool.eq_false_iff.mpr fun isToo => ?_
      rw [BEq.trans isIt (BEq.symm isToo)] at isApart
      cases isApart
    have kept (symbol : Symbol) : (if symbol.elementId == some record.origin then
        symbol.attach names record else symbol).elementId = symbol.elementId := by
      split <;> rfl
    have apartAfter : (symbols.map fun symbol => if symbol.elementId == some record.origin then
        symbol.attach names record else symbol).Pairwise fun one other =>
          (one.elementId == other.elementId) = false := by
      refine List.pairwise_map.mpr (apart.imp fun isApart => ?_)
      rwa [kept, kept]
    have joinedAfter : ∀ other ∈ rest,
        Document.attach? names other = .ok (some fun symbol => symbol.attach names other) ∧
          ∃ symbol ∈ symbols.map fun symbol => if symbol.elementId == some record.origin then
            symbol.attach names record else symbol,
              (symbol.elementId == some other.origin) = true := by
      intro other member
      obtain ⟨isAttached, symbol, inside, isIt⟩ := joined other (List.mem_cons_of_mem _ member)
      exact ⟨isAttached, _, List.mem_map_of_mem inside, by rwa [kept]⟩
    rw [Document.attachAll, held, attaches]
    change Document.attachAll names (Document.changeLast record.origin _ symbols) skipped rest = _
    rw [changeLast_eq_map single, ih apartAfter joinedAfter, List.map_map]
    congr 2
    refine List.map_congr_left fun symbol _ => ?_
    rw [Function.comp_apply, kept, List.filter_cons]
    split <;> rfl

end Attaching

end Sysml
