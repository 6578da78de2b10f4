import Sysml.Proofs.Document.Decompiled
import Sysml.Proofs.Document.Mirrored
import Sysml.Proofs.Document.Portable
import Sysml.Proofs.Notation.Spoken

/-!
# Documents of texts without faults

A document that was made of texts without faults says of each element what a text can say,
and names it after its owner (`Gathered.told`). Names that are written without quotes are told
apart from their owners by the qualified name (`join_inj`).
-/

set_option autoImplicit false

namespace Sysml

open Scope

/-- A symbol with a name, which like its short name needs no escape. Its qualified name is
not made of separators alone. -/
structure Symbol.Legible (symbol : Symbol) : Prop where
  name : ∃ name, name ≠ "" ∧ symbol.name = .text name ∧ Notation.IsPlain name
  shortName : ∃ name, symbol.shortName = .text name ∧ Notation.IsPlain name
  path : ∃ path, symbol.qualifiedName = .text path ∧ QualifiedName.segments path ≠ []

def Record.ownName (record : Record) : String :=
  record.name.text?.getD ""

def Record.path (record : Record) : String :=
  record.qualifiedName.text?.getD ""

/-- A document whose elements are told by a text: each is named after its owner. -/
structure Document.Told (document : Document) : Prop where
  portable : document.Portable false
  legible : document.Legible
  nested : ∀ record ∈ document.elements,
    record.owner = none ∧ record.path = record.ownName ∨
      ∃ owner, document.OwnedBy record owner ∧
        record.path = QualifiedName.join owner.path record.ownName
  segments : ∀ record ∈ document.elements, QualifiedName.segments record.path ≠ []

theorem Record.IsElement.texts {record : Record} (element : record.IsElement) :
    record.name = .text record.ownName ∧ record.ownName ≠ "" ∧
      record.qualifiedName = .text record.path ∧ record.path ≠ "" := by
  obtain ⟨_, name, path, _, _, _, _, _, someName, somePath, same⟩ := element
  have isName : record.name = .text name := by rw [same]
  have isPath : record.qualifiedName = .text path := by rw [same]
  rw [Record.ownName, Record.path, isName, isPath]
  exact ⟨rfl, someName, rfl, somePath⟩

theorem Key.given?_text {name : String} (some_ : name ≠ "") :
    Key.given? (some (.text name)) = some (.text name) := by
  simp [Key.given?, Key.isAbsent, Value.isAbsent, Key.text, some_]

theorem QualifiedName.length_lt_join (owner name : String) :
    owner.length < (join owner name).length := by
  have separated : "::".length = 2 := by decide
  simp only [join, String.length_append]
  omega

theorem Notation.IsPlain.join {owner name : String} (plain : IsPlain owner) (plainToo : IsPlain name) :
    IsPlain (QualifiedName.join owner name) := by
  intro c member
  rw [QualifiedName.join, String.toList_append, String.toList_append] at member
  rcases List.mem_append.mp member with before | last
  · rcases List.mem_append.mp before with first | colon
    · exact plain c first
    · exact (by decide : IsPlain "::") c colon
  · exact plainToo c last

namespace Document.Portable

variable {document : Document} (portable : document.Portable false) {record relation : Record}

include portable

theorem nameOf_eq (member : record ∈ document.elements) :
    document.nameOf record.id = .text record.path := by
  obtain ⟨_, _, isPath, some_⟩ := (portable.elements record member).texts
  have present : (Value.text record.path).isAbsent = false := by
    simpa [Value.isAbsent] using some_
  rw [nameOf, portable.typed.last?_eq (elements_subset document member)]
  simp only [isPath, present, Bool.false_eq_true, ↓reduceIte]

/-- The path that is written for an element is its qualified name. -/
theorem targetPath_eq {target : Record} (member : target ∈ document.elements)
    (goal : relation.target = some target.id) : document.targetPath relation = target.path := by
  have inside := elements_subset document member
  obtain ⟨_, _, isPath, some_⟩ := (portable.elements target member).texts
  have present : target.qualifiedName.isAbsent = false := by
    rw [isPath]
    simpa [Value.isAbsent] using some_
  simp [targetPath, targetName, goal, portable.typed.id_given inside,
    portable.typed.last?_eq inside, present, Record.path]

end Document.Portable

/-- An index over texts without faults, in which all names can be written without an escape
and all that is referred to is found. -/
structure Scope.Index.Clear (index : Index) (memo : Memo) : Prop where
  written : index.Written
  apart : MintsApart (mintKeys index memo)
  spoken : ∀ symbol ∈ index.symbols, symbol.Spoken
  legible : ∀ symbol ∈ index.symbols, symbol.Legible
  owners : ∀ symbol ∈ index.symbols, ∀ owner, symbol.owner = some owner →
    ∃ holder ∈ index.symbols, holder.qualifiedName = owner
  meant : ∀ symbol ∈ index.symbols, ∀ reference ∈ symbol.references,
    meaning index memo symbol reference ≠ none

section Gathering

variable {index : Index} {memo : Memo} {taken : List Symbol} {document : Document}
  {record : Record} {symbol : Symbol} (clear : index.Clear memo)

include clear

theorem Scope.Index.Clear.owner_text {owner : String} (known : symbol ∈ index.symbols)
    (owned : symbol.owner = some (.text owner)) :
    ∃ holder ∈ index.symbols, Draft.ownerOf index symbol = some holder ∧
      holder.qualifiedName = .text owner := by
  obtain ⟨other, otherIn, isOther⟩ := clear.owners symbol known _ owned
  have someOwner : owner ≠ "" := by
    rintro rfl
    obtain ⟨_, _, isWritten⟩ := clear.written other otherIn
    obtain ⟨name, someName, isName, _⟩ := (clear.legible other otherIn).name
    exact someName (Key.text_inj (isName.symm.trans (isWritten.unnamed isOther)))
  obtain ⟨holder, holderIn, looked, same⟩ := clear.written.lookup otherIn
  rw [isOther] at looked same
  refine ⟨holder, holderIn, ?_, same⟩
  rw [Draft.ownerOf, owned, Key.given?_text someOwner]
  exact looked

variable (gathered : Gathered index memo taken document.records)

include gathered

/-- Each element is made of a symbol that was taken up. -/
theorem Gathered.made (member : record ∈ document.elements) :
    ∃ first ∈ taken, first ∈ index.symbols ∧
      record = Draft.elementRecord index first.provenance first := by
  have elements : document.elements = (firstOfEach index taken).map fun symbol =>
      Draft.elementRecord index symbol.provenance symbol :=
    gathered.composed.elements clear.apart clear.written gathered.inside
  rw [elements] at member
  obtain ⟨first, kept, rfl⟩ := List.mem_map.mp member
  have isTaken := firstOfEach_subset _ _ kept
  exact ⟨first, isTaken, gathered.inside isTaken, rfl⟩

variable (portable : document.Portable false)

include portable

/-- An element is named after its owner. -/
theorem Gathered.nested (member : record ∈ document.elements) :
    record.owner = none ∧ record.path = record.ownName ∨
      ∃ owner, document.OwnedBy record owner ∧
        record.path = QualifiedName.join owner.path record.ownName := by
  obtain ⟨first, _, known, rfl⟩ := gathered.made clear member
  obtain ⟨name, isName, ⟨unowned, isPath⟩ | ⟨owner, owned, isPath⟩⟩ :=
    (clear.spoken first known).placed
  · left
    constructor
    · simp [Draft.elementRecord, Draft.ownerOf, unowned, Key.given?]
    · simp [Draft.elementRecord, Record.path, Record.ownName, isName, isPath, Key.text]
  · right
    obtain ⟨holder, holderIn, isOwner, isHolder⟩ := clear.owner_text known owned
    have owns : (Draft.elementRecord index first.provenance first).owner =
        some (Draft.idOf index holder) := by
      rw [Draft.elementRecord, isOwner]
      rfl
    obtain ⟨above, aboveIn, sameId⟩ := portable.owners _ member _ owns
    obtain ⟨top, _, topIn, rfl⟩ := gathered.made clear aboveIn
    have topName := name_of_idOf clear.apart clear.written topIn holderIn sameId
    refine ⟨_, ⟨aboveIn, owns.trans (congrArg some sameId.symm)⟩, ?_⟩
    simp [Draft.elementRecord, Record.path, Record.ownName, isName, isPath, topName, isHolder,
      Key.text, Value.text?]

theorem Gathered.forest : document.Forest := by
  have nested {record : Record} (member : record ∈ document.elements) :=
    gathered.nested clear portable member
  constructor
  · intro record member
    obtain ⟨id, _, isId⟩ := portable.typed.id_text member
    exact ⟨id, isId⟩
  · exact portable.ids
  · intro record member
    rcases nested member with ⟨unowned, _⟩ | ⟨owner, ownedBy, _⟩
    · exact .inl unowned
    · exact .inr ⟨owner, ownedBy⟩
  · intro record
    refine Document.acyclic_of_rank (fun record => record.path.length) ?_
    intro record member owner ownedBy
    rcases nested member with ⟨unowned, _⟩ | ⟨other, isOther, isPath⟩
    · rw [Document.OwnedBy, unowned] at ownedBy
      cases ownedBy.2
    · have same : owner = other := portable.typed.eq_of_id
        (Document.elements_subset document ownedBy.1) (Document.elements_subset document isOther.1)
        (Option.some.inj (ownedBy.2.symm.trans isOther.2))
      rw [same, isPath]
      exact QualifiedName.length_lt_join _ _

/-- The qualified name of an element needs no escape. -/
theorem Gathered.path_plain (member : record ∈ document.elements) :
    Notation.IsPlain record.path := by
  have own {record : Record} (member : record ∈ document.elements) :
      Notation.IsPlain record.ownName := by
    obtain ⟨first, _, known, rfl⟩ := gathered.made clear member
    obtain ⟨name, _, isName, plain⟩ := (clear.legible first known).name
    simpa [Draft.elementRecord, Record.ownName, isName, Key.text, Value.text?] using plain
  induction isSize : record.path.length using Nat.strongRecOn generalizing record with
  | ind size ih =>
    rcases gathered.nested clear portable member with ⟨_, isPath⟩ | ⟨owner, ownedBy, isPath⟩
    · rw [isPath]
      exact own member
    · have shorter : owner.path.length < size := by
        rw [← isSize, isPath]
        exact QualifiedName.length_lt_join _ _
      rw [isPath]
      exact (ih _ shorter ownedBy.1 rfl).join (own member)

theorem Gathered.textual (member : record ∈ document.records) : record.Textual := by
  cases isRelationship : record.isRelationship with
  | true =>
    obtain ⟨source, sourceIn, target, targetIn, joins⟩ :=
      portable.relationships record (List.mem_filter.mpr ⟨member, isRelationship⟩)
    have isTyped := portable.typed.records record member
    refine ⟨isTyped.target, isTyped.name, isTyped.qualifiedName, ?_, ?_⟩
    all_goals
      rcases joins.2 with ⟨_, same⟩ | ⟨_, _, _, same⟩ <;>
      · rw [same]
        exact .inl rfl
  | false =>
    have element : record ∈ document.elements :=
      List.mem_filter.mpr ⟨member, by simp [isRelationship]⟩
    have isTyped := portable.typed.records record member
    obtain ⟨first, _, known, rfl⟩ := gathered.made clear element
    obtain ⟨short, isShort, _⟩ := (clear.legible first known).shortName
    refine ⟨isTyped.target, isTyped.name, isTyped.qualifiedName, ?_, (clear.spoken first known).doc⟩
    simp only [Draft.elementRecord, isShort]
    split
    · exact .inl rfl
    · exact .inr ⟨short, rfl⟩

omit portable in
/-- Where a symbol has references, its element has relationships that stand for them. -/
theorem Gathered.referencePairs_ne_nil {first : Symbol} (isTaken : first ∈ taken)
    (refers : first.references ≠ []) : document.referencePairs
      (Draft.elementRecord index first.provenance first) ≠ [] := by
  have known := gathered.inside isTaken
  obtain ⟨reference, rest, same⟩ := List.exists_cons_of_ne_nil refers
  have has : reference ∈ first.references := by simp [same]
  obtain ⟨_, _, isWritten⟩ := clear.written first known
  obtain ⟨target, isMeant⟩ := Option.ne_none_iff_exists'.mp (clear.meant first known reference has)
  have made : reference.link? first (meaning index memo first reference) = some
      { kind := reference.kind.metaclass, goal := .loaded target, carried := none
        key := first.qualifiedName.display ++ "->" ++ target.qualifiedName.display } := by
    rw [(isWritten.references reference has).link?, isMeant]
    rfl
  obtain ⟨relation, member, id, _, rfl⟩ := gathered.composed.stands_mem isTaken
    (List.mem_append_left _ (List.mem_filterMap.mpr ⟨reference, has, made⟩))
  refine List.ne_nil_of_mem (List.mem_filterMap.mpr ⟨_, List.mem_filter.mpr ⟨
    List.mem_filter.mpr ⟨member, Bool.or_true _⟩, ?_⟩,
    Option.map_eq_some_iff.mpr ⟨reference.kind, (RefKind.ofMetaclass?_metaclass _).2, rfl⟩⟩)
  simp [Record.origin, Link.record, Draft.elementRecord, idOf_given clear.written known]

/-- A text can say each element. -/
theorem Gathered.sayable (member : record ∈ document.elements) : document.Sayable record := by
  obtain ⟨first, isTaken, known, rfl⟩ := gathered.made clear member
  have spoken := clear.spoken first known
  obtain ⟨name, someName, isName, plainName⟩ := (clear.legible first known).name
  obtain ⟨short, isShort, plainShort⟩ := (clear.legible first known).shortName
  have isKind : SymbolKind.ofMetaclass first.kind.metaclass = first.kind :=
    SymbolKind.ofMetaclass_metaclass _
  have properties : (Draft.elementRecord index first.provenance first).properties =
      if first.direction.isEmpty then [] else [(.text "direction", .text first.direction)] := rfl
  have told : first.direction = "" ∧
        (Draft.elementRecord index first.provenance first).property? "direction" = none ∨
      first.direction ≠ "" ∧
        (Draft.elementRecord index first.provenance first).property? "direction" =
          some (.text first.direction) := by
    by_cases undirected : first.direction = ""
    · exact .inl ⟨undirected, by simp [Record.property?, properties, undirected]⟩
    · refine .inr ⟨undirected, ?_⟩
      have some_ : first.direction.isEmpty = false := by simpa using undirected
      rw [Record.property?, properties, some_]
      simp [List.lookup_cons, Value.text_beq]
  constructor
  · change SymbolKind.ofMetaclass first.kind.metaclass ≠ _
    rw [isKind]
    exact spoken.kind
  · simp [Draft.elementRecord, isName, Key.text, Value.isAbsent, someName]
  · intro other same
    obtain rfl : name = other := Key.text_inj (isName.symm.trans (congrArg Key.mk same))
    exact plainName
  · intro other same
    have isOther : first.shortName = .text other := by
      simp only [Draft.elementRecord] at same
      split at same
      · cases same
      · exact congrArg Key.mk same
    obtain rfl := Key.text_inj (isShort.symm.trans isOther)
    exact plainShort
  · rcases told with ⟨_, none_⟩ | ⟨directed, isDirection⟩
    · exact .inl (by rw [none_]; rfl)
    · exact .inr ⟨_, spoken.direction.resolve_left directed, isDirection⟩
  · intro relation related _
    obtain ⟨isRelationship, _⟩ := List.mem_filter.mp related
    obtain ⟨_, _, target, targetIn, joins⟩ := portable.relationships relation isRelationship
    rw [portable.targetPath_eq targetIn joins.ends.2.2]
    exact gathered.path_plain clear portable targetIn
  · intro isPlain
    obtain ⟨noShort, refers⟩ := spoken.plain (isKind.symm.trans isPlain)
    refine ⟨by simp [Draft.elementRecord, noShort, Key.isAbsent, Key.text, Value.isAbsent], ?_⟩
    rcases refers with directed | refers
    · rcases told with ⟨undirected, _⟩ | ⟨_, isDirection⟩
      · exact absurd undirected directed
      · left
        rw [isDirection]
        simpa [Value.isAbsent] using directed
    · exact .inr (gathered.referencePairs_ne_nil clear isTaken refers)

/-- What was gathered of texts without faults is told by them. -/
theorem Gathered.told : document.Told where
  portable := portable
  legible :=
    { gathered.forest clear portable with
      textual := fun _ member => gathered.textual clear portable member
      external := by simp [portable.external]
      sayable := fun _ member => gathered.sayable clear portable member }
  nested _ member := gathered.nested clear portable member
  segments record member := by
    obtain ⟨first, _, known, rfl⟩ := gathered.made clear member
    obtain ⟨path, isPath, some_⟩ := (clear.legible first known).path
    simpa [Draft.elementRecord, Record.path, isPath, Key.text, Value.text?] using some_

end Gathering

end Sysml

/-! ## Identifiers

A name that is written without quotes has no separator in it. So a qualified name tells it, and
the owner, apart (`join_inj`), and a symbol with such names is legible (`Symbol.Spoken.legible`). -/

namespace Sysml

namespace QualifiedName

theorem parentChars?_of_notMem {name : List Char} (noColon : ':' ∉ name) :
    parentChars? name = none := by
  induction name with
  | nil => rfl
  | cons c rest ih =>
    rw [List.mem_cons, not_or] at noColon
    rw [parentChars?, ih noColon.2]
    exact if_neg fun colons => noColon.1 colons.1.symm

theorem parentChars?_append (owner : List Char) {name : List Char} (noColon : ':' ∉ name) :
    parentChars? (owner ++ ':' :: ':' :: name) = some owner := by
  induction owner with
  | nil =>
    have alone : parentChars? (':' :: name) = none := by
      rw [parentChars?, parentChars?_of_notMem noColon]
      refine if_neg fun colons => noColon (List.mem_of_mem_head? ?_)
      rw [colons.2]
      rfl
    rw [List.nil_append, parentChars?, alone]
    simp
  | cons c rest ih => rw [List.cons_append, parentChars?, ih]

theorem parent?_of_notMem {name : String} (noColon : ':' ∉ name.toList) : parent? name = none := by
  rw [parent?, parentChars?_of_notMem noColon]
  rfl

theorem parent?_join (owner : String) {name : String} (noColon : ':' ∉ name.toList) :
    parent? (join owner name) = some owner := by
  have chars : (join owner name).toList = owner.toList ++ ':' :: ':' :: name.toList := by
    simp [join]
  rw [parent?, chars, parentChars?_append _ noColon, Option.map_some, String.ofList_toList]

/-- A qualified name tells the owner and the name apart. -/
theorem join_inj {owner other name otherName : String} (noColon : ':' ∉ name.toList)
    (noColonToo : ':' ∉ otherName.toList) (same : join owner name = join other otherName) :
    owner = other ∧ name = otherName := by
  obtain rfl : owner = other := by
    have parents := congrArg parent? same
    rw [parent?_join owner noColon, parent?_join other noColonToo] at parents
    exact Option.some.inj parents
  refine ⟨rfl, String.toList_inj.mp ?_⟩
  have chars := congrArg String.toList same
  simpa [join] using chars

/-- A character that separates nothing is in one of the pieces. -/
theorem exists_mem_cut {points : Bool} {piece text : List Char} {c : Char} (noColon : c ≠ ':')
    (noPoint : c ≠ '.') (member : c ∈ piece ∨ c ∈ text) : ∃ part ∈ cut points piece text, c ∈ part := by
  fun_induction cut points piece text with
  | case1 piece =>
    rcases member with before | none_
    · exact ⟨_, List.mem_singleton_self _, List.mem_reverse.mpr before⟩
    · cases none_
  | case2 piece rest ih =>
    rcases member with before | inside
    · exact ⟨_, List.mem_cons_self, List.mem_reverse.mpr before⟩
    · have later : c ∈ rest := by simpa [noColon] using inside
      obtain ⟨part, listed, has⟩ := ih (.inr later)
      exact ⟨part, List.mem_cons_of_mem _ listed, has⟩
  | case3 piece d rest _ isPoint ih =>
    rcases member with before | inside
    · exact ⟨_, List.mem_cons_self, List.mem_reverse.mpr before⟩
    · have same : d = '.' := by simpa using (Bool.and_eq_true_iff.mp isPoint).2
      have later : c ∈ rest := by simpa [same, noPoint] using inside
      obtain ⟨part, listed, has⟩ := ih (.inr later)
      exact ⟨part, List.mem_cons_of_mem _ listed, has⟩
  | case4 piece d rest _ _ ih =>
    refine ih ?_
    rcases member with before | inside
    · exact .inl (List.mem_cons_of_mem _ before)
    · rcases List.mem_cons.mp inside with rfl | later
      · exact .inl List.mem_cons_self
      · exact .inr later

theorem segments_ne_nil {path : String} {c : Char} (noColon : c ≠ ':') (noPoint : c ≠ '.')
    (member : c ∈ path.toList) : segments path ≠ [] := by
  obtain ⟨part, listed, has⟩ : ∃ part ∈ cut true [] path.toList, c ∈ part :=
    exists_mem_cut noColon noPoint (.inr member)
  refine List.ne_nil_of_mem (a := String.ofList part) (List.mem_filter.mpr
    ⟨List.mem_map_of_mem listed, ?_⟩)
  have some_ : part ≠ [] := List.ne_nil_of_mem has
  simpa using some_

end QualifiedName

namespace Notation

theorem isNamePart_of_isPlainName {name : String} (plain : isPlainName name = true) :
    name ≠ "" ∧ ∀ c ∈ name.toList, isNamePart c = true := by
  obtain ⟨⟨first, tail, isText, start, further⟩, _⟩ := isPlainName_start plain
  refine ⟨fun empty => ?_, fun c member => ?_⟩
  · rw [empty] at isText
    cases isText
  · rw [isText] at member
    rcases List.mem_cons.mp member with rfl | later
    · rw [isNamePart, start, Bool.true_or]
    · exact List.all_eq_true.mp further c later

/-- An identifier has no character to escape. -/
theorem isPlain_of_isPlainName {name : String} (plain : isPlainName name = true) : IsPlain name := by
  intro c member
  have part := (isNamePart_of_isPlainName plain).2 c member
  refine ⟨?_, ?_, ?_⟩ <;>
  · rintro rfl
    exact absurd part (by decide)

theorem notMem_of_isPlainName {name : String} (plain : isPlainName name = true) :
    ':' ∉ name.toList :=
  fun member => absurd ((isNamePart_of_isPlainName plain).2 _ member) (by decide)

theorem exists_mem_of_isPlainName {name : String} (plain : isPlainName name = true) :
    ∃ c ∈ name.toList, c ≠ ':' ∧ c ≠ '.' := by
  obtain ⟨some_, parts⟩ := isNamePart_of_isPlainName plain
  obtain ⟨c, member⟩ := List.exists_mem_of_ne_nil name.toList (by simpa using some_)
  refine ⟨c, member, ?_, ?_⟩ <;>
  · rintro rfl
    exact absurd (parts _ member) (by decide)

end Notation

/-- A symbol whose name is an identifier, and its short name if it has one. -/
structure Symbol.Identified (symbol : Symbol) : Prop where
  name : ∃ name, symbol.name = .text name ∧ Notation.isPlainName name = true
  shortName : ∃ name, symbol.shortName = .text name ∧
    (name = "" ∨ Notation.isPlainName name = true)

section Identified

variable {symbol other : Symbol}

theorem Symbol.identified_iff : symbol.Identified ↔
    (symbol.name.text?.any Notation.isPlainName &&
      symbol.shortName.text?.any fun name => name == "" || Notation.isPlainName name) = true := by
  have isText (key : Key) (name : String) : key.text? = some name ↔ key = .text name := by
    obtain ⟨value⟩ := key
    cases value <;> simp [Key.text?, Value.text?, Key.text]
  rw [Bool.and_eq_true, Option.any_eq_true, Option.any_eq_true]
  simp only [isText, Bool.or_eq_true, beq_iff_eq]
  exact ⟨fun identified => ⟨identified.name, identified.shortName⟩,
    fun names => ⟨names.1, names.2⟩⟩

instance : DecidablePred Symbol.Identified := fun _ => decidable_of_iff _ Symbol.identified_iff.symm

theorem Symbol.Identified.legible (identified : symbol.Identified) (spoken : symbol.Spoken) :
    symbol.Legible := by
  obtain ⟨name, isName, plain⟩ := identified.name
  obtain ⟨short, isShort, shortPlain⟩ := identified.shortName
  refine ⟨⟨name, (Notation.isNamePart_of_isPlainName plain).1, isName,
    Notation.isPlain_of_isPlainName plain⟩, ⟨short, isShort, ?_⟩, ?_⟩
  · rcases shortPlain with rfl | plainToo
    · exact fun _ member => (by cases member)
    · exact Notation.isPlain_of_isPlainName plainToo
  · obtain ⟨c, member, noColon, noPoint⟩ := Notation.exists_mem_of_isPlainName plain
    obtain ⟨own, isOwn, placed⟩ := spoken.placed
    obtain rfl : name = own := Key.text_inj (isName.symm.trans isOwn)
    rcases placed with ⟨_, isPath⟩ | ⟨owner, _, isPath⟩
    · exact ⟨_, isPath, QualifiedName.segments_ne_nil noColon noPoint member⟩
    · refine ⟨_, isPath, QualifiedName.segments_ne_nil noColon noPoint ?_⟩
      simp [QualifiedName.join, member]

/-- Symbols with one qualified name have one owner and one name. -/
theorem Symbol.Identified.same (identified : symbol.Identified) (identifiedToo : other.Identified)
    (spoken : symbol.Spoken) (spokenToo : other.Spoken)
    (same : symbol.qualifiedName = other.qualifiedName) :
    symbol.owner = other.owner ∧ symbol.name = other.name := by
  obtain ⟨name, isName, plain⟩ := identified.name
  obtain ⟨otherName, isOther, plainToo⟩ := identifiedToo.name
  obtain ⟨own, isOwn, placed⟩ := spoken.placed
  obtain ⟨otherOwn, isOtherOwn, placedToo⟩ := spokenToo.placed
  obtain rfl : name = own := Key.text_inj (isName.symm.trans isOwn)
  obtain rfl : otherName = otherOwn := Key.text_inj (isOther.symm.trans isOtherOwn)
  have noColon := Notation.notMem_of_isPlainName plain
  have noColonToo := Notation.notMem_of_isPlainName plainToo
  rw [isName, isOther]
  rcases placed with ⟨unowned, isPath⟩ | ⟨owner, owned, isPath⟩ <;>
    rcases placedToo with ⟨unownedToo, isPathToo⟩ | ⟨otherOwner, ownedToo, isPathToo⟩ <;>
    rw [isPath, isPathToo] at same
  · exact ⟨unowned.trans unownedToo.symm, same⟩
  · have parents := congrArg QualifiedName.parent? (Key.text_inj same)
    rw [QualifiedName.parent?_of_notMem noColon, QualifiedName.parent?_join _ noColonToo] at parents
    cases parents
  · have parents := congrArg QualifiedName.parent? (Key.text_inj same)
    rw [QualifiedName.parent?_of_notMem noColonToo, QualifiedName.parent?_join _ noColon] at parents
    cases parents
  · obtain ⟨rfl, rfl⟩ := QualifiedName.join_inj noColon noColonToo (Key.text_inj same)
    exact ⟨owned.trans ownedToo.symm, rfl⟩

end Identified

end Sysml
