import Sysml.Proofs.Document.Forest
import Sysml.Proofs.Document.Typed
import Sysml.Proofs.Notation.Layout

/-!
# Documents as outlines

What the source text of a document says: its elements in the order of a walk that goes from
owners to what they own, each with its relationships as references, grouped by their kinds,
and as imports.
-/

set_option autoImplicit false

namespace Sysml

namespace Entries

variable {κ ν : Type} [BEq κ]

/-- Pairs by their keys: the keys in the order in which they first occur, each with its values
in order. -/
def grouped (pairs : List (κ × ν)) : List (κ × List ν) :=
  (pairs.map (·.1)).eraseDups.map fun key => (key, (pairs.filter (·.1 == key)).map (·.2))

/-- Pairs of the first entry's key go there, and the others behind it. -/
theorem foldl_addTo_cons [LawfulBEq κ] (key : κ) (values : List ν) (entries : List (κ × List ν))
    (pairs : List (κ × ν)) :
    pairs.foldl (fun entries pair => addTo pair.1 pair.2 entries) ((key, values) :: entries) =
      (key, values ++ (pairs.filter (·.1 == key)).map (·.2)) ::
        (pairs.filter fun pair => !(pair.1 == key)).foldl
          (fun entries pair => addTo pair.1 pair.2 entries) entries := by
  induction pairs generalizing values entries with
  | nil => simp
  | cons pair rest ih =>
    obtain ⟨held, value⟩ := pair
    by_cases same : held = key
    · subst same
      simp [addTo, ih]
    · have apart : (key == held) = false := by simpa using Ne.symm same
      simp [addTo, ih, same, apart]

theorem grouped_cons [LawfulBEq κ] (key : κ) (value : ν) (pairs : List (κ × ν)) :
    grouped ((key, value) :: pairs) =
      (key, value :: (pairs.filter (·.1 == key)).map (·.2)) ::
        grouped (pairs.filter fun pair => !(pair.1 == key)) := by
  rw [grouped, List.map_cons, List.eraseDups_cons, List.map_cons, grouped]
  congr 1
  · simp
  · have keys : (pairs.map (·.1)).filter (fun held => !held == key) =
        (pairs.filter fun pair => !(pair.1 == key)).map (·.1) := by
      rw [List.filter_map]
      rfl
    rw [keys]
    refine List.map_congr_left fun held member => ?_
    obtain ⟨pair, inside, rfl⟩ := List.mem_map.mp (List.mem_eraseDups.mp member)
    have apart : pair.1 ≠ key := by simpa using (List.mem_filter.mp inside).2
    have unequal : (key == pair.1) = false := by simpa using Ne.symm apart
    rw [List.filter_cons_of_neg (by simp [unequal]), List.filter_filter]
    congr 2
    refine List.filter_congr fun other _ => ?_
    by_cases same : other.1 = pair.1
    · simp [same, apart]
    · simp [same]

/-- Each key has some value, and each value stands with its key. -/
theorem mem_grouped [LawfulBEq κ] {pairs : List (κ × ν)} {entry : κ × List ν}
    (listed : entry ∈ grouped pairs) :
    entry.2 ≠ [] ∧ ∀ value ∈ entry.2, (entry.1, value) ∈ pairs := by
  obtain ⟨key, isKey, rfl⟩ := List.mem_map.mp listed
  constructor
  · obtain ⟨pair, member, rfl⟩ := List.mem_map.mp (List.mem_eraseDups.mp isKey)
    have inside : pair.2 ∈ (pairs.filter (·.1 == pair.1)).map (·.2) :=
      List.mem_map_of_mem (List.mem_filter.mpr ⟨member, by simp⟩)
    exact List.ne_nil_of_mem inside
  · intro value isValue
    obtain ⟨pair, member, rfl⟩ := List.mem_map.mp isValue
    obtain ⟨inside, same⟩ := List.mem_filter.mp member
    rwa [← eq_of_beq same]

/-- Adding pairs one after the other groups them. -/
theorem foldl_addTo [LawfulBEq κ] (pairs : List (κ × ν)) :
    pairs.foldl (fun entries pair => addTo pair.1 pair.2 entries) [] = grouped pairs := by
  induction isSize : pairs.length using Nat.strongRecOn generalizing pairs with
  | ind size ih =>
    cases pairs with
    | nil => rfl
    | cons pair rest =>
      obtain ⟨key, value⟩ := pair
      have fewer : (rest.filter fun pair => !(pair.1 == key)).length < size := by
        rw [← isSize, List.length_cons]
        exact Nat.lt_succ_of_le (List.length_filter_le ..)
      have first : addTo key value [] = [(key, [value])] := rfl
      rw [List.foldl_cons, first, foldl_addTo_cons, ih _ fewer _ rfl, grouped_cons]
      rfl

/-- Renaming keys apart does not change what is added where. -/
theorem addTo_rename {ι μ : Type} [BEq ι] [LawfulBEq κ] [LawfulBEq ι] {name : κ → ι}
    (apart : Function.Injective name) (change : ν → μ) (key : κ) (value : ν)
    (entries : List (κ × List ν)) :
    addTo (name key) (change value) (entries.map fun entry => (name entry.1, entry.2.map change)) =
      (addTo key value entries).map fun entry => (name entry.1, entry.2.map change) := by
  induction entries with
  | nil => rfl
  | cons entry rest ih =>
    obtain ⟨held, values⟩ := entry
    by_cases same : held = key
    · simp [addTo, same]
    · have apart : name held ≠ name key := fun equal => same (apart equal)
      simp [addTo, same, apart, ih]

end Entries

namespace Document

variable (document : Document) (record : Record)

/-! ## What an element says -/

/-- The path that the source text gives for the target of a relationship. -/
def targetPath : String :=
  ((document.targetName record.target).text?).getD ""

/-- The relationships of an element that become references, each with its kind and path. -/
def referencePairs : List (RefKind × String) :=
  (document.relationshipsOf record.id).filterMap fun relation =>
    (RefKind.ofMetaclass? relation.kind).map fun kind => (kind, document.targetPath relation)

def importLineOf (relation : Record) : Notation.ImportLine where
  isPublic := ((relation.property? "visibility").getD .null).isText "public"
  path := document.targetPath relation
  reach :=
    if relation.kind = Record.namespaceImport then
      if ((relation.property? "isRecursive").getD .null).isAbsent then .members else .below
    else .one

def importLines : List Notation.ImportLine :=
  ((document.relationshipsOf record.id).filter fun relation =>
    Record.isImportKind relation.kind).map document.importLineOf

def titleOf : Notation.Title where
  kind := SymbolKind.ofMetaclass record.kind
  isAbstract := record.isAbstract
  direction := ((record.property? "direction").bind Value.text?).getD ""
  shortName := record.shortName.text?.getD ""
  name := record.name.text?.getD ""
  clauses := Entries.grouped (document.referencePairs record)

def entryOf : Notation.Entry where
  title := document.titleOf record
  doc :=
    if record.doc.isAbsent then none
    else some (String.ofList (guardComment (record.doc.text?.getD "").toList))
  imports := document.importLines record

end Document

/-- The fields of a record have the types that they should have. -/
structure Record.Textual (record : Record) : Prop where
  target : Key.IsName record.target
  name : record.name.IsName
  qualifiedName : record.qualifiedName.IsName
  shortName : record.shortName.IsName
  doc : record.doc.IsName

/-- A document whose records have fields of the types that they should have. -/
structure Document.Textual (document : Document) : Prop where
  records : ∀ record ∈ document.records, record.Textual
  external : ∀ entry ∈ document.externalRefs, ∃ name, entry.2 = .text name

/-- The direction of an element is one of the notation's, or there is none. -/
def Record.IsDirected (record : Record) : Prop :=
  ((record.property? "direction").getD .null).isAbsent = true ∨
    ∃ word ∈ Notation.directionKeywords, record.property? "direction" = some (.text word)

/-- An element that a source text can say: it is of a known kind and has a name, and names and
targets need no escape. A plain usage is told by its direction or by its references. -/
structure Document.Sayable (document : Document) (record : Record) : Prop where
  known : SymbolKind.ofMetaclass record.kind ≠ .element
  named : record.name.isAbsent = false
  name : ∀ name, record.name = .text name → Notation.IsPlain name
  shortName : ∀ name, record.shortName = .text name → Notation.IsPlain name
  direction : ((record.property? "direction").getD .null).isAbsent = true ∨
    ∃ word ∈ Notation.directionKeywords, record.property? "direction" = some (.text word)
  targets : ∀ relation ∈ document.relationshipsOf record.id,
    Record.isRelationshipKind relation.kind = true → Notation.IsPlain (document.targetPath relation)
  plain : SymbolKind.ofMetaclass record.kind = .plainUsage → record.shortName.isAbsent = true ∧
    (((record.property? "direction").getD .null).isAbsent = false ∨
      document.referencePairs record ≠ [])

structure Document.Legible (document : Document) : Prop extends document.Forest where
  textual : ∀ record ∈ document.records, record.Textual
  external : ∀ entry ∈ document.externalRefs, ∃ name, entry.2 = .text name
  sayable : ∀ record ∈ document.elements, document.Sayable record

theorem Document.Legible.texts {document : Document} (legible : document.Legible) :
    document.Textual :=
  ⟨legible.textual, legible.external⟩

/-! ## What is written of an element -/

theorem intercalate_nest (separator : String) {words : List String} (some_ : words ≠ [])
    (before after : List String) :
    separator.intercalate (before ++ separator.intercalate words :: after) =
      separator.intercalate (before ++ words ++ after) := by
  have ahead : separator.intercalate (separator.intercalate words :: after) =
      separator.intercalate (words ++ after) := by
    cases after with
    | nil => rw [String.intercalate_singleton, List.append_nil]
    | cons first rest =>
      rw [String.intercalate_cons_of_ne_nil (List.cons_ne_nil first rest),
        String.intercalate_append_of_ne_nil some_ (List.cons_ne_nil first rest)]
  cases before with
  | nil => exact ahead
  | cons first rest =>
    have joined : words ++ after ≠ [] := by simp [some_]
    rw [List.append_assoc, String.intercalate_append_of_ne_nil (List.cons_ne_nil _ _) joined,
      String.intercalate_append_of_ne_nil (List.cons_ne_nil _ _) (List.cons_ne_nil _ _), ahead]

namespace Document

/-- The words of a known kind, as they are written. -/
theorem keyword?_known {kind : SymbolKind} (known : kind ≠ .element) :
    keyword? kind =
      some (" ".intercalate (Notation.leadingWords kind ++ Notation.kindWords kind)) := by
  cases kind with
  | definition family => cases family <;> rfl
  | usage family => cases family <;> rfl
  | kernel kind => cases kind <;> rfl
  | element => exact absurd rfl known
  | _ => rfl

theorem keyword_isEmpty (kind : SymbolKind) :
    (" ".intercalate (Notation.leadingWords kind ++ Notation.kindWords kind)).isEmpty =
      (Notation.leadingWords kind ++ Notation.kindWords kind).isEmpty := by
  cases kind with
  | definition family => cases family <;> rfl
  | usage family => cases family <;> rfl
  | kernel kind => cases kind <;> rfl
  | _ => rfl

theorem operator_eq (kind : RefKind) (isDefinition : Bool) :
    operator kind isDefinition = (Notation.operatorToken kind isDefinition).text := by
  cases kind <;> cases isDefinition <;> rfl

theorem operator_injective (isDefinition : Bool) :
    Function.Injective fun kind => operator kind isDefinition := by
  intro kind other same
  revert same
  cases kind <;> cases other <;> cases isDefinition <;> decide

end Document

theorem Value.IsName.text?_getD {value : Value} (isName : value.IsName)
    (some_ : value.isAbsent = false) : value = .text (value.text?.getD "") := by
  rcases isName with rfl | ⟨name, rfl⟩
  · cases some_
  · rfl

theorem Value.IsName.absent_iff {value : Value} (isName : value.IsName) :
    value.isAbsent = true ↔ value.text?.getD "" = "" := by
  rcases isName with rfl | ⟨name, rfl⟩
  · exact ⟨fun _ => rfl, fun _ => rfl⟩
  · simp [Value.isAbsent, Value.text?]

namespace Document.Textual

variable {document : Document} (textual : document.Textual)

include textual

/-- What a relationship leads to is written as a text. -/
theorem targetName_text {relation : Record} (listed : relation ∈ document.records) :
    document.targetName relation.target = .text (document.targetPath relation) := by
  suffices isText : ∃ path, document.targetName relation.target = .text path by
    obtain ⟨path, isPath⟩ := isText
    rw [targetPath, isPath]
    rfl
  obtain ⟨id, isId⟩ : ∃ id, (Key.given? relation.target).getD (.text "") = .text id := by
    cases isGiven : Key.given? relation.target with
    | none => exact ⟨"", rfl⟩
    | some key =>
      exact (textual.records relation listed).target key (Option.filter_eq_some_iff.mp isGiven).1
  have outside : ∃ name, ((document.externalRefs.lookup (.text id)).getD (.text id)).value =
      .text name := by
    cases looked : document.externalRefs.lookup (.text id) with
    | none => exact ⟨id, rfl⟩
    | some key =>
      obtain ⟨held, _, member⟩ := Entries.exists_mem_of_lookup looked
      obtain ⟨name, rfl⟩ := textual.external _ member
      exact ⟨name, rfl⟩
  simp only [targetName, isId]
  cases found : document.last? (.text id) with
  | none => exact outside
  | some target =>
    have ofTarget := textual.records target
      (List.mem_reverse.mp (List.mem_of_find?_eq_some found))
    dsimp only
    cases unnamed : target.qualifiedName.isAbsent with
    | false => exact ⟨_, ofTarget.qualifiedName.text?_getD unnamed⟩
    | true =>
      cases nameless : target.name.isAbsent with
      | false => exact ⟨_, ofTarget.name.text?_getD nameless⟩
      | true => exact outside

theorem pathText_target {relation : Record} (listed : relation ∈ document.records) :
    (document.targetName relation.target).pathText = .ok (document.targetPath relation) := by
  rw [textual.targetName_text listed]
  rfl

/-- An import is written as its statement. -/
theorem importLine_eq {relation : Record} (listed : relation ∈ document.records) :
    document.importLine relation = .ok (document.importLineOf relation).text := by
  rw [importLine, textual.pathText_target listed, ok_bind, importLineOf, Notation.ImportLine.text]
  refine congrArg Except.ok ?_
  by_cases isNamespace : relation.kind = Record.namespaceImport
  · cases ((relation.property? "isRecursive").getD .null).isAbsent <;>
      simp [isNamespace, Notation.Reach.text]
  · simp [isNamespace, Notation.Reach.text]

end Document.Textual

theorem result_foldlM {σ α : Type} {step : σ → α → Except Failure σ} {next : σ → α → σ}
    {items : List α} (each : ∀ item ∈ items, ∀ state, step state item = .ok (next state item))
    (state : σ) : items.foldlM step state = .ok (items.foldl next state) := by
  induction items generalizing state with
  | nil => rfl
  | cons item rest ih =>
    obtain ⟨first, others⟩ := List.forall_mem_cons.mp each
    rw [List.foldlM_cons, first, ok_bind, ih others, List.foldl_cons]

/-- An import kind is no kind of reference. -/
theorem ofMetaclass?_import {kind : String} (isImport : Record.isImportKind kind = true) :
    RefKind.ofMetaclass? kind = none := by
  rw [Record.isImportKind, Bool.or_eq_true, beq_iff_eq, beq_iff_eq] at isImport
  rcases isImport with rfl | rfl <;> decide

namespace Document

def withRelation (document : Document) (isDefinition : Bool)
    (texts : List String × List (String × List String)) (relation : Record) :
    List String × List (String × List String) :=
  if Record.isImportKind relation.kind then
    (texts.1 ++ [(document.importLineOf relation).text], texts.2)
  else
    match RefKind.ofMetaclass? relation.kind with
    | none => texts
    | some kind =>
        (texts.1, Entries.addTo (operator kind isDefinition)
          (Notation.quotePath (document.targetPath relation)) texts.2)

variable {document : Document}

theorem Textual.addClause_eq (textual : document.Textual) {relation : Record}
    (listed : relation ∈ document.records) (isDefinition : Bool)
    (texts : List String × List (String × List String)) :
    document.addClause isDefinition texts relation =
      .ok (document.withRelation isDefinition texts relation) := by
  unfold addClause withRelation
  split
  · rw [textual.importLine_eq listed]
    rfl
  · cases RefKind.ofMetaclass? relation.kind with
    | none => rfl
    | some kind =>
      rw [textual.pathText_target listed]
      rfl

/-- Imports and references are kept apart, each in order. -/
theorem foldl_withRelation (isDefinition : Bool) (relations : List Record)
    (texts : List String) (clauses : List (RefKind × List String)) :
    relations.foldl (document.withRelation isDefinition)
        (texts, clauses.map fun clause =>
          (operator clause.1 isDefinition, clause.2.map Notation.quotePath)) =
      (texts ++ ((relations.filter fun relation => Record.isImportKind relation.kind).map
          document.importLineOf).map Notation.ImportLine.text,
        ((relations.filterMap fun relation => (RefKind.ofMetaclass? relation.kind).map
            fun kind => (kind, document.targetPath relation)).foldl
          (fun entries pair => Entries.addTo pair.1 pair.2 entries) clauses).map fun clause =>
            (operator clause.1 isDefinition, clause.2.map Notation.quotePath)) := by
  induction relations generalizing texts clauses with
  | nil => simp
  | cons relation rest ih =>
    rw [List.foldl_cons]
    cases isImport : Record.isImportKind relation.kind with
    | true =>
      simp only [withRelation, isImport, ↓reduceIte, ih, ofMetaclass?_import isImport,
        List.filter_cons, List.filterMap_cons, Option.map_none, List.map_cons, List.append_assoc,
        List.singleton_append]
    | false =>
      cases isReference : RefKind.ofMetaclass? relation.kind with
      | none =>
        simp only [withRelation, isImport, isReference, Bool.false_eq_true, ↓reduceIte, ih,
          List.filter_cons, List.filterMap_cons, Option.map_none]
      | some kind =>
        have renamed := Entries.addTo_rename (operator_injective isDefinition) Notation.quotePath
          kind (document.targetPath relation) clauses
        simp only [withRelation, isImport, isReference, Bool.false_eq_true, ↓reduceIte, renamed,
          ih, List.filter_cons, List.filterMap_cons, Option.map_some, List.foldl_cons]

/-- The imports of an element are written as statements, and its references in clauses. -/
theorem Textual.clauses_eq (textual : document.Textual) (record : Record) (isDefinition : Bool) :
    (document.relationshipsOf record.id).foldlM (document.addClause isDefinition) ([], []) =
      .ok ((document.importLines record).map Notation.ImportLine.text,
        (document.titleOf record).clauses.map fun clause =>
          (operator clause.1 isDefinition, clause.2.map Notation.quotePath)) := by
  have known : ∀ relation ∈ document.relationshipsOf record.id, relation ∈ document.records :=
    fun relation listed => (List.mem_filter.mp (List.mem_filter.mp listed).1).1
  rw [result_foldlM fun relation listed texts =>
    textual.addClause_eq (known relation listed) isDefinition texts]
  have whole := @foldl_withRelation document isDefinition (document.relationshipsOf record.id) [] []
  rw [Entries.foldl_addTo] at whole
  exact congrArg Except.ok whole

variable {record : Record}

theorem absent_text {value? : Option Value} (absent : (value?.getD .null).isAbsent = true) :
    (value?.bind Value.text?).getD "" = "" := by
  cases value? with
  | none => rfl
  | some value =>
    cases value with
    | text s => simpa [Value.isAbsent, Value.text?] using absent
    | _ => rfl

theorem direction_text (directed : record.IsDirected) :
    ((record.property? "direction").getD .null).isAbsent = true ∧
        (document.titleOf record).direction = "" ∨
      ((record.property? "direction").getD .null).isAbsent = false ∧
        ((record.property? "direction").getD .null).toText =
          .ok (document.titleOf record).direction ∧
        (document.titleOf record).direction ∈ Notation.directionKeywords := by
  rcases directed with absent | ⟨word, listed, isWord⟩
  · exact .inl ⟨absent, absent_text absent⟩
  · have isDirection : (document.titleOf record).direction = word := by
      rw [titleOf, isWord]
      rfl
    have present : ∀ word ∈ Notation.directionKeywords, (Value.text word).isAbsent = false := by
      decide
    rw [isWord, isDirection]
    exact .inr ⟨present word listed, rfl, listed⟩

theorem titleOf_isDirected (directed : record.IsDirected) :
    (document.titleOf record).IsDirected := by
  rcases direction_text directed with ⟨_, undirected⟩ | ⟨_, _, listed⟩
  · exact .inl undirected
  · exact .inr listed

theorem shortName_text (isName : record.shortName.IsName) :
    record.shortName.isAbsent = true ∧ (document.titleOf record).shortName = "" ∨
      record.shortName.isAbsent = false ∧
        nameText record.shortName = .ok (document.titleOf record).shortName ∧
        (document.titleOf record).shortName ≠ "" := by
  cases absent : record.shortName.isAbsent with
  | true => exact .inl ⟨rfl, isName.absent_iff.mp absent⟩
  | false =>
    refine .inr ⟨rfl, ?_, fun empty => ?_⟩
    · rw [isName.text?_getD absent]
      rfl
    · rw [isName.absent_iff.mpr empty] at absent
      cases absent

/-- What stands before the references of an element: its modifiers, the words of its kind, and
its names. -/
theorem opening_eq (textual : record.Textual) (named : record.name.isAbsent = false)
    (directed : record.IsDirected) (keyword : String) :
    opening record keyword = .ok ((document.titleOf record).modifiers ++
      (if keyword.isEmpty then [] else [keyword]) ++
      (if (document.titleOf record).shortName = "" then []
        else ["<" ++ Notation.quoteName (document.titleOf record).shortName ++ ">"]) ++
      [Notation.quoteName (document.titleOf record).name]) := by
  have isName : nameText record.name = .ok (document.titleOf record).name := by
    rw [textual.name.text?_getD named]
    rfl
  have isAbstract : (document.titleOf record).isAbstract = record.isAbstract := rfl
  have some_ : ∀ word ∈ Notation.directionKeywords, word ≠ "" := by decide
  rcases @direction_text document record directed with
      ⟨absent, undirected⟩ | ⟨present, isText, listed⟩ <;>
    rcases @shortName_text document record textual.shortName with
      ⟨unnamed, noShort⟩ | ⟨named, isShort, short⟩
  · simp [opening, absent, undirected, unnamed, noShort, isName, ok_bind,
      Notation.Title.modifiers, isAbstract, pure, Except.pure]
  · simp [opening, absent, undirected, named, isShort, short, isName, ok_bind,
      Notation.Title.modifiers, isAbstract, pure, Except.pure]
  · simp [opening, present, isText, some_ _ listed, unnamed, noShort, isName, ok_bind,
      Notation.Title.modifiers, isAbstract, pure, Except.pure]
  · simp [opening, present, isText, some_ _ listed, named, isShort, short, isName, ok_bind,
      Notation.Title.modifiers, isAbstract, pure, Except.pure]

/-- The line of an element before its end is the text of its title. -/
theorem title_text (title : Notation.Title) {keyword : String}
    (isKeyword : keyword = " ".intercalate
      (Notation.leadingWords title.kind ++ Notation.kindWords title.kind)) :
    " ".intercalate (title.modifiers ++ (if keyword.isEmpty then [] else [keyword]) ++
        (if title.shortName = "" then [] else ["<" ++ Notation.quoteName title.shortName ++ ">"]) ++
        [Notation.quoteName title.name] ++
        (title.clauses.map fun clause => (operator clause.1 title.kind.isDefinition,
          clause.2.map Notation.quotePath)).map fun (operator, targets) =>
            operator ++ " " ++ ", ".intercalate targets) = title.text := by
  have parts : title.parts.map (·.1) = title.modifiers ++
      (Notation.leadingWords title.kind ++ Notation.kindWords title.kind) ++
      ((if title.shortName = "" then [] else ["<" ++ Notation.quoteName title.shortName ++ ">"]) ++
        [Notation.quoteName title.name] ++
        (title.clauses.map fun clause => (operator clause.1 title.kind.isDefinition,
          clause.2.map Notation.quotePath)).map fun (operator, targets) =>
            operator ++ " " ++ ", ".intercalate targets) := by
    by_cases none_ : title.shortName = "" <;>
      simp [Notation.Title.parts, none_, Notation.clauseText, operator_eq, Function.comp_def]
  rw [Notation.Title.text, parts, isKeyword, keyword_isEmpty]
  cases words : Notation.leadingWords title.kind ++ Notation.kindWords title.kind with
  | nil => simp
  | cons word rest =>
    rw [← intercalate_nest " " (List.cons_ne_nil word rest)]
    simp

end Document

end Sysml
