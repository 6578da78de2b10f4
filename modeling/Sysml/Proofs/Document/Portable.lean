import Sysml.Proofs.Document.Complete

/-!
# Portable documents

What a document is like that was made of symbols read from texts, and that can be taken
in and made again: its elements have names of their own, its relationships join elements
of it, and no inlined element is there that nothing needs.
-/

set_option autoImplicit false

namespace Sysml

open Scope

/-- A record as it is made of an element, with the owner it has. -/
def Record.IsElement (record : Record) : Prop :=
  ∃ (id name qualifiedName shortName direction : String) (kind : SymbolKind) (isLibrary : Bool),
    id ≠ "" ∧ name ≠ "" ∧ qualifiedName ≠ "" ∧
      record =
        { id := .text id, kind := kind.metaclass, name := .text name
          qualifiedName := .text qualifiedName, owner := record.owner, doc := record.doc
          shortName := if shortName.isEmpty then .null else .text shortName
          isAbstract := record.isAbstract
          properties :=
            if direction.isEmpty then [] else [(.text "direction", .text direction)]
          provenance :=
            .text (if isLibrary then Record.inlinedProvenance else Record.modelProvenance) }

/-- A record as it is made of a reference or an import, from one element to another. -/
def Record.Joins (record source target : Record) : Prop :=
  (∃ id, id ≠ "" ∧ record.id = .text id) ∧
    ((∃ kind : RefKind, record =
      { id := record.id, kind := kind.metaclass, owner := some source.id
        source := some source.id, target := some target.id
        provenance := source.provenance }) ∨
    ∃ (isNamespace isRecursive : Bool) (visibility : String), record =
      { id := record.id
        kind :=
          if isNamespace || isRecursive then Record.namespaceImport
          else Record.membershipImport
        name := target.name, owner := some source.id, source := some source.id
        target := some target.id
        properties := [(.text "isRecursive", .bool isRecursive),
          (.text "visibility", .text visibility)]
        provenance := source.provenance })

/-- A set of ids that has the owner of each element in it, and the target of each
relationship from an element in it. -/
structure Closed (records : List Record) (needed : Key → Prop) : Prop where
  owners : ∀ record ∈ records, record.isRelationship = false → needed record.id →
    ∀ id, record.owner = some id → needed id
  targets : ∀ record ∈ records, ∀ source target, record.source = some source →
    record.target = some target → needed source → needed target

/-- A document that can be taken in and made again. -/
structure Document.Portable (document : Document) (selfContained : Bool) : Prop where
  ids : document.ids.Nodup
  external : document.externalRefs = []
  elements : ∀ record ∈ document.elements, record.IsElement
  names : (document.elements.map (·.qualifiedName)).Nodup
  owners : ∀ record ∈ document.elements, ∀ id, record.owner = some id →
    ∃ owner ∈ document.elements, owner.id = id
  relationships : ∀ record ∈ document.relationships, ∃ source ∈ document.elements,
    ∃ target ∈ document.elements, record.Joins source target
  needed : ∀ needed : Key → Prop, Closed document.records needed →
    (∀ record ∈ document.elements, record.provenance = .text Record.modelProvenance →
      needed record.id) → ∀ record ∈ document.elements, needed record.id
  own : selfContained = false → ∀ record ∈ document.elements,
    record.provenance = .text Record.modelProvenance

/-- What is looked up without an id is the first symbol of its name. -/
theorem resolveImport_looked {index : Index} {i : Import} {scope : Option Key} {target : Symbol}
    (unbound : i.targetId = none) (resolved : resolveImport index i scope = .ok (some target)) :
    ∃ name, index.lookup name = some target := by
  obtain ⟨bound, first, resolved⟩ := result_bind_ok resolved
  rw [unbound] at first
  cases first
  obtain ⟨path, _, resolved⟩ := result_bind_ok resolved
  split at resolved
  · next found looked =>
    cases resolved
    exact ⟨path, looked⟩
  · cases scope with
    | none => cases resolved
    | some scope =>
      dsimp only at resolved
      unfold lookupOutward at resolved
      dsimp only at resolved
      split at resolved
      · obtain ⟨outer, _, looked⟩ := List.exists_of_findSome?_eq_some (Except.ok.inj resolved)
        exact ⟨_, looked⟩
      · split at resolved
        · next looked =>
          cases resolved
          exact ⟨_, looked⟩
        · cases resolved

/-- The first of an id among some symbols is the one that is kept. -/
theorem firstOfEach_find? (index : Index) {symbols : List Symbol} {first : Symbol}
    (kept : first ∈ firstOfEach index symbols) :
    symbols.find? (fun symbol => Draft.idOf index symbol == Draft.idOf index first) =
      some first := by
  induction symbols using List.reverseRecOn with
  | nil => cases kept
  | append_singleton symbols last ih =>
    rw [firstOfEach_snoc] at kept
    rw [List.find?_append]
    split at kept
    · rw [ih kept]
      rfl
    · next fresh =>
      rcases List.mem_append.mp kept with earlier | isLast
      · rw [ih earlier]
        rfl
      · cases List.mem_singleton.mp isLast
        have none_ : symbols.find? (fun symbol =>
            Draft.idOf index symbol == Draft.idOf index first) = none := by
          refine List.find?_eq_none.mpr fun symbol member same => fresh ?_
          obtain ⟨other, otherKept, alike⟩ := firstOfEach_covers index member
          exact List.any_eq_true.mpr ⟨other, otherKept, BEq.trans alike same⟩
        rw [none_]
        simp

/-- The symbols that were taken up for a document, and what its records are: the model's
own symbols come first and then those of libraries, each of which something needs. -/
structure Gathered (index : Index) (memo : Memo) (taken : List Symbol) (records : List Record) :
    Prop where
  composed : Composed index memo taken records
  inside : taken ⊆ index.symbols
  parts : ∃ inlined, taken = index.symbols.filter (fun symbol => !symbol.isLibrary) ++ inlined
  answered : ∀ symbol ∈ taken, Answered index memo symbol
  linked : ∀ symbol ∈ taken, ∀ link ∈ links index memo symbol, ∀ target,
    link.goal = .loaded target → target ∈ index.symbols
  apart : records.Pairwise fun one other => (one.id == other.id) = false
  ends : ∀ record ∈ records, ∀ id ∈ record.references,
    ∃ other ∈ records, (other.id == id) = true
  needed : ∀ needed : Key → Prop, Closed records needed →
    (∀ symbol ∈ index.symbols, symbol.isLibrary = false → needed (Draft.idOf index symbol)) →
      ∀ symbol ∈ taken, needed (Draft.idOf index symbol)

section Gathering

variable {index : Index} {memo : Memo} {taken : List Symbol} {records : List Record}

/-- What a record is made of is an element. -/
theorem elementRecord_isElement (written : index.Written)
    (named : ∀ symbol ∈ index.symbols, symbol.name ≠ .text "") {symbol : Symbol}
    (inside : symbol ∈ index.symbols) :
    (Draft.elementRecord index symbol.provenance symbol).IsElement := by
  obtain ⟨file, isLibrary, isWritten⟩ := written symbol inside
  obtain ⟨id, someId, isId⟩ := idOf_text written inside
  obtain ⟨name, isName⟩ := isWritten.name
  obtain ⟨qualifiedName, isQualified⟩ := isWritten.qualifiedName
  obtain ⟨shortName, isShort⟩ := isWritten.shortName
  have someName : name ≠ "" := by
    rintro rfl
    exact named symbol inside isName
  have someQualified : qualifiedName ≠ "" := by
    rintro rfl
    exact named symbol inside (isWritten.unnamed isQualified)
  refine ⟨id, name, qualifiedName, shortName, symbol.direction, symbol.kind, symbol.isLibrary,
    someId, someName, someQualified, ?_⟩
  unfold Draft.elementRecord Symbol.provenance
  rw [isId, isName, isQualified, isShort]
  rfl

variable (written : index.Written) (apart : MintsApart (mintKeys index memo))

include written in
theorem idOf_beq {one other : Symbol} (first : one ∈ index.symbols)
    (second : other ∈ index.symbols)
    (same : (Draft.idOf index one == Draft.idOf index other) = true) :
    Draft.idOf index one = Draft.idOf index other := by
  rw [written.idOf first, written.idOf second, Key.text_beq] at same
  rw [written.idOf first, written.idOf second, beq_iff_eq.mp same]

variable (names : index.NamesApart) (gathered : Gathered index memo taken records)

include written apart names gathered

/-- Each symbol that was taken up has an element, made of the first piece of it. -/
theorem Gathered.first_of {symbol : Symbol} (member : symbol ∈ taken) :
    ∃ first ∈ firstOfEach index taken,
      Draft.idOf index first = Draft.idOf index symbol ∧
        first.qualifiedName = symbol.qualifiedName ∧ first.provenance = symbol.provenance := by
  obtain ⟨first, kept, same⟩ := firstOfEach_covers index member
  have firstIn := gathered.inside (firstOfEach_subset _ _ kept)
  have symbolIn := gathered.inside member
  have id := idOf_beq written firstIn symbolIn same
  have name := name_of_idOf apart written firstIn symbolIn id
  refine ⟨first, kept, id, name, ?_⟩
  rcases names first firstIn symbol symbolIn name with rfl | ⟨_, _, own, ownToo⟩
  · rfl
  · rw [Symbol.provenance, Symbol.provenance, own, ownToo]

/-- An id of a symbol that a record has is the id of an element. -/
theorem Gathered.first_of_end {target : Symbol} (known : target ∈ index.symbols)
    (held : ∃ record ∈ records, (record.id == Draft.idOf index target) = true) :
    ∃ first ∈ firstOfEach index taken, Draft.idOf index first = Draft.idOf index target ∧
      first.qualifiedName = target.qualifiedName := by
  obtain ⟨record, member, same⟩ := held
  rcases gathered.composed.mem member with ⟨symbol, isTaken, rfl⟩ | ⟨symbol, isTaken, link, linked, stands⟩
  · obtain ⟨first, kept, id, name, _⟩ := gathered.first_of written apart names isTaken
    have symbolIn := gathered.inside isTaken
    have sameId := idOf_beq written symbolIn known same
    exact ⟨first, kept, id.trans sameId,
      name.trans (name_of_idOf apart written symbolIn known sameId)⟩
  · obtain ⟨id, isNamed, rfl⟩ := stands
    have isApart := isNamed.no_element apart written (gathered.inside isTaken) linked known
    exact absurd (isApart.symm.trans same) Bool.false_ne_true

/-- The element of a symbol that was looked up is made of that symbol. -/
theorem Gathered.first_looked {target first : Symbol} {name : Key}
    (looked : index.lookup name = some target) (kept : first ∈ firstOfEach index taken)
    (same : Draft.idOf index first = Draft.idOf index target) : first = target := by
  have known : target ∈ index.symbols := Scope.Index.has_lookup index name target looked
  have firstIn := gathered.inside (firstOfEach_subset _ _ kept)
  have sameName := name_of_idOf apart written firstIn known same
  rcases names first firstIn target known sameName with rfl | ⟨_, _, _, own⟩
  · rfl
  -- else both are the model's own, and the target comes first among these
  · obtain ⟨equal, before, after, whole, others⟩ := List.find?_eq_some_iff_append.mp looked
    have isFirst : (index.symbols.filter fun symbol => !symbol.isLibrary).find?
        (fun symbol => Draft.idOf index symbol == Draft.idOf index first) = some target := by
      rw [List.find?_filter, List.find?_eq_some_iff_append]
      refine ⟨by simp [own, same], before, after, whole, fun symbol member => ?_⟩
      have symbolIn : symbol ∈ index.symbols := by
        rw [whole]
        exact List.mem_append_left _ member
      rw [Bool.not_eq_true', Bool.eq_false_iff]
      intro alike
      have sameId := idOf_beq written symbolIn firstIn (of_decide_eq_true alike).2
      have nameToo := name_of_idOf apart written symbolIn known (sameId.trans same)
      have apartFrom := others symbol member
      rw [nameToo, equal] at apartFrom
      cases apartFrom
    obtain ⟨inlined, parts⟩ := gathered.parts
    have found := firstOfEach_find? index kept
    rw [parts, List.find?_append, isFirst] at found
    exact (Option.some.inj found).symm

omit written apart names gathered in
theorem end_mem_references {record : Record} (role : String) {id : Key}
    (listed : (role, some id) ∈
      [("owner", record.owner), ("source", record.source), ("target", record.target)])
    (given : Key.given? (some id) = some id) : id ∈ record.references :=
  List.mem_map.mpr ⟨(role, id),
    List.mem_filterMap.mpr ⟨(role, some id), listed, by simp [given]⟩, rfl⟩

omit apart names gathered in
theorem idOf_given {symbol : Symbol} (inside : symbol ∈ index.symbols) :
    Key.given? (some (Draft.idOf index symbol)) = some (Draft.idOf index symbol) := by
  obtain ⟨id, someId, same⟩ := idOf_text written inside
  rw [same]
  simp [Key.given?, Key.isAbsent, Value.isAbsent, Key.text, someId]

omit names in
theorem Gathered.mem_elements {first : Symbol} (kept : first ∈ firstOfEach index taken) :
    Draft.elementRecord index first.provenance first ∈
      records.filter fun record => !record.isRelationship := by
  rw [gathered.composed.elements apart written gathered.inside]
  exact List.mem_map.mpr ⟨first, kept, rfl⟩

/-- The record of a relationship joins elements. -/
theorem Gathered.joins {symbol : Symbol} (isTaken : symbol ∈ taken) {link : Link}
    (linked : link ∈ links index memo symbol) {record : Record} (member : record ∈ records)
    (stands : link.Stands index symbol record) :
    ∃ source ∈ records.filter fun record => !record.isRelationship,
      ∃ target ∈ records.filter fun record => !record.isRelationship,
        record.Joins source target := by
  obtain ⟨file, isLibrary, isWritten⟩ := written symbol (gathered.inside isTaken)
  obtain ⟨id, isNamed, rfl⟩ := stands
  obtain ⟨none_, target, goal⟩ := isWritten.links linked
  have known := gathered.linked symbol isTaken link linked target goal
  have isId : ∃ text, text ≠ "" ∧ id = .text text := by
    rcases isNamed with carried | ⟨key, _, rfl⟩
    · rw [none_] at carried
      cases carried
    · exact ⟨_, Document.mintId_ne_empty _ _, rfl⟩
  obtain ⟨source, sourceKept, sourceId, _, provenance⟩ :=
    gathered.first_of written apart names isTaken
  have isEnd : Draft.idOf index target ∈
      (link.record index symbol.provenance (Draft.idOf index symbol) id).references := by
    refine end_mem_references "target" ?_ (idOf_given written known)
    rw [Link.record, goal]
    exact List.mem_cons_of_mem _ (List.mem_cons_of_mem _ List.mem_cons_self)
  obtain ⟨first, kept, firstId, _⟩ := gathered.first_of_end written apart names known
    (gathered.ends _ member _ isEnd)
  refine ⟨_, gathered.mem_elements written apart sourceKept, _,
    gathered.mem_elements written apart kept, isId, ?_⟩
  rcases mem_links linked with ⟨reference, has, made⟩ | ⟨i, has, made⟩
  · rw [(isWritten.references reference has).link?] at made
    obtain ⟨meant, _, rfl⟩ := Option.map_eq_some_iff.mp made
    cases goal
    refine .inl ⟨reference.kind, ?_⟩
    simp only [Link.record, Goal.id, Draft.elementRecord, sourceId, firstId, provenance]
  · rw [(isWritten.imports i has).link?] at made
    obtain ⟨named, naming, rfl⟩ := Option.map_eq_some_iff.mp (Except.ok.inj made)
    obtain rfl : named = target := Goal.loaded.inj goal
    have resolved : resolveImport index i (some symbol.qualifiedName) = .ok (some named) := by
      unfold Scope.naming at naming
      cases found : resolveImport index i (some symbol.qualifiedName) with
      | error failure => rw [found] at naming; cases naming
      | ok result =>
        rw [found] at naming
        exact congrArg Except.ok naming
    obtain ⟨name, looked⟩ := resolveImport_looked (isWritten.imports i has).targetId resolved
    have isFirst := gathered.first_looked written apart names looked kept firstId
    refine .inr ⟨i.isNamespace, i.isRecursive, i.visibility, ?_⟩
    simp only [Link.record, Goal.id, Draft.elementRecord, sourceId, provenance, isFirst]

/-- Where all symbols are named, what was gathered is a portable document. -/
theorem Gathered.portable (named : ∀ symbol ∈ index.symbols, symbol.name ≠ .text "")
    {selfContained : Bool}
    (own : selfContained = false → ∀ symbol ∈ index.symbols, symbol.isLibrary = false)
    {document : Document} (isRecords : document.records = records)
    (external : document.externalRefs = []) : document.Portable selfContained := by
  subst isRecords
  have elements : document.elements = (firstOfEach index taken).map fun symbol =>
      Draft.elementRecord index symbol.provenance symbol :=
    gathered.composed.elements apart written gathered.inside
  have kept {first : Symbol} (member : first ∈ firstOfEach index taken) :
      first ∈ index.symbols := gathered.inside (firstOfEach_subset _ _ member)
  have made {record : Record} (member : record ∈ document.elements) :
      ∃ first ∈ firstOfEach index taken,
        Draft.elementRecord index first.provenance first = record := by
    rw [elements] at member
    exact List.mem_map.mp member
  refine ⟨?_, external, ?_, ?_, ?_, ?_, ?_, ?_⟩
  · refine List.pairwise_map.mpr (gathered.apart.imp fun isApart same => ?_)
    rw [same, BEq.rfl] at isApart
    cases isApart
  · intro record member
    obtain ⟨first, isFirst, rfl⟩ := made member
    exact elementRecord_isElement written named (kept isFirst)
  · rw [elements, List.map_map]
    refine List.pairwise_map.mpr ((firstOfEach_apart index taken).imp_of_mem ?_)
    intro one other oneIn otherIn isApart same
    have sameName : one.qualifiedName = other.qualifiedName := congrArg Key.mk same
    rw [idOf_of_name written names (kept oneIn) (kept otherIn) sameName, BEq.rfl] at isApart
    cases isApart
  · intro record member id owner
    obtain ⟨first, isFirst, rfl⟩ := made member
    obtain ⟨holder, holds, rfl⟩ := Option.map_eq_some_iff.mp owner
    have known := Draft.ownerOf_mem holds
    have isEnd : Draft.idOf index holder ∈
        (Draft.elementRecord index first.provenance first).references := by
      refine end_mem_references "owner" ?_ (idOf_given written known)
      rw [← owner]
      exact List.mem_cons_self
    obtain ⟨other, otherKept, same, _⟩ := gathered.first_of_end written apart names known
      (gathered.ends _ (List.mem_filter.mp member).1 _ isEnd)
    exact ⟨_, gathered.mem_elements written apart otherKept, same⟩
  · intro record member
    obtain ⟨inside, isRelationship⟩ := List.mem_filter.mp member
    rcases gathered.composed.mem inside with ⟨symbol, _, rfl⟩ | ⟨symbol, isTaken, link, linked, stands⟩
    · rw [elementRecord_isRelationship] at isRelationship
      cases isRelationship
    · exact gathered.joins written apart names isTaken linked inside stands
  · intro needed closed model record member
    obtain ⟨first, isFirst, rfl⟩ := made member
    refine gathered.needed needed closed ?_ first (firstOfEach_subset _ _ isFirst)
    intro symbol inside user
    obtain ⟨inlined, parts⟩ := gathered.parts
    have isTaken : symbol ∈ taken := by
      rw [parts]
      exact List.mem_append_left _ (List.mem_filter.mpr ⟨inside, by simp [user]⟩)
    obtain ⟨other, otherKept, same, _, provenance⟩ :=
      gathered.first_of written apart names isTaken
    rw [← same]
    refine model _ (gathered.mem_elements written apart otherKept) ?_
    change Value.text other.provenance = _
    rw [provenance]
    simp [Symbol.provenance, user]
  · intro plain record member
    obtain ⟨first, isFirst, rfl⟩ := made member
    simp [Draft.elementRecord, Symbol.provenance, own plain first (kept isFirst)]

end Gathering

end Sysml

/-!
## What a model needs of libraries

The elements of a document that was gathered are the model's own and those library
elements that the model needs: what its symbols refer to, the owners of that, and what it
refers to in turn.
-/

namespace Sysml

open Scope

namespace Scope

/-- A reference or an import of a symbol leads to another symbol. -/
def Refers (index : Index) (memo : Memo) (symbol target : Symbol) : Prop :=
  (∃ reference ∈ symbol.references,
    (outcome (resolveReference index reference symbol) memo).1 = .ok (some target)) ∨
  ∃ i ∈ symbol.imports, resolveImport index i (some symbol.qualifiedName) = .ok (some target)

/-- What the model's own symbols need: the library symbols that they refer to, with their
owners and all that those refer to. -/
inductive Needed (index : Index) (memo : Memo) : Symbol → Prop
  | referred {symbol target : Symbol} (known : symbol ∈ index.symbols)
      (own : symbol.isLibrary = false) (library : target.isLibrary = true)
      (refers : Refers index memo symbol target) : Needed index memo target
  | owner {symbol owner : Symbol} (needed : Needed index memo symbol)
      (owned : Draft.ownerOf index symbol = some owner) : Needed index memo owner
  | target {symbol target : Symbol} (needed : Needed index memo symbol)
      (refers : Refers index memo symbol target) : Needed index memo target

end Scope

section Links

variable {index : Index} {memo : Memo} {symbol target : Symbol} {taken : List Symbol}
  {records : List Record}

theorem Reference.link?_loaded {reference : Reference} {meant : Option Symbol} :
    (∃ link, reference.link? symbol meant = some link ∧ link.goal = .loaded target) ↔
      meant = some target := by
  cases meant with
  | some found => simp [Reference.link?]
  | none => simp [Reference.link?]

theorem Import.link?_loaded {i : Import} {named : Option Symbol} :
    (∃ link, i.link? symbol named = .ok (some link) ∧ link.goal = .loaded target) ↔
      named = some target := by
  cases named with
  | some found => simp [Import.link?]
  | none =>
    unfold Import.link?
    cases Key.given? i.targetId with
    | none => simp
    | some id => cases lastPiece i.path <;> simp [Except.map]

/-- What a symbol refers to is what its relationships lead to. -/
theorem refers_iff : Refers index memo symbol target ↔
    ∃ link ∈ links index memo symbol, link.goal = .loaded target := by
  constructor
  · rintro (⟨reference, has, found⟩ | ⟨i, has, found⟩)
    · obtain ⟨link, made, goal⟩ := Reference.link?_loaded.mpr (toOption_join_eq_some.mpr found)
      exact ⟨link, List.mem_append_left _ (List.mem_filterMap.mpr ⟨reference, has, made⟩), goal⟩
    · obtain ⟨link, made, goal⟩ := Import.link?_loaded.mpr (toOption_join_eq_some.mpr found)
      refine ⟨link, List.mem_append_right _ (List.mem_filterMap.mpr ⟨i, has, ?_⟩), goal⟩
      exact toOption_join_eq_some.mpr made
  · rintro ⟨link, linked, goal⟩
    rcases mem_links linked with ⟨reference, has, made⟩ | ⟨i, has, made⟩
    · exact .inl ⟨reference, has,
        toOption_join_eq_some.mp (Reference.link?_loaded.mp ⟨link, made, goal⟩)⟩
    · exact .inr ⟨i, has, toOption_join_eq_some.mp (Import.link?_loaded.mp ⟨link, made, goal⟩)⟩

/-- Each relationship of a symbol that was taken up has a record. -/
theorem Composed.stands_mem (composed : Composed index memo taken records)
    (isTaken : symbol ∈ taken) {link : Link} (linked : link ∈ links index memo symbol) :
    ∃ record ∈ records, link.Stands index symbol record := by
  induction composed with
  | nil => cases isTaken
  | @snoc taken records added last before related ih =>
    rcases List.mem_append.mp isTaken with earlier | isLast
    · obtain ⟨record, member, stands⟩ := ih earlier
      exact ⟨record, List.mem_append_left _ (List.mem_append_left _ member), stands⟩
    · cases List.mem_singleton.mp isLast
      obtain ⟨record, member, stands⟩ := exists_related_right related linked
      exact ⟨record, List.mem_append_right _ member, stands⟩

end Links

section Gathering

variable {index : Index} {memo : Memo} {taken : List Symbol} {records : List Record}
  {symbol : Symbol}

theorem namesApart_of_nodup (names : (index.symbols.map (·.qualifiedName)).Nodup) :
    index.NamesApart :=
  fun _ first _ second same => .inl (List.inj_on_of_nodup_map names first second same)

variable (written : index.Written) (apart : MintsApart (mintKeys index memo))
  (names : (index.symbols.map (·.qualifiedName)).Nodup)
  (gathered : Gathered index memo taken records)

include written apart names

theorem eq_of_idOf {one other : Symbol} (first : one ∈ index.symbols)
    (second : other ∈ index.symbols)
    (same : Draft.idOf index one = Draft.idOf index other) : one = other :=
  List.inj_on_of_nodup_map names first second (name_of_idOf apart written first second same)

include gathered

/-- Where no two symbols have one name, each that was taken up has a record of its own. -/
theorem Gathered.mem_firstOfEach : symbol ∈ firstOfEach index taken ↔ symbol ∈ taken := by
  refine ⟨fun kept => firstOfEach_subset index taken kept, fun isTaken => ?_⟩
  obtain ⟨first, kept, id, _⟩ :=
    gathered.first_of written apart (namesApart_of_nodup names) isTaken
  have firstIn := gathered.inside (firstOfEach_subset index taken kept)
  exact eq_of_idOf written apart names firstIn (gathered.inside isTaken) id ▸ kept

/-- What a record refers to was taken up. -/
theorem Gathered.taken_of_end {target : Symbol} (known : target ∈ index.symbols) {record : Record}
    (member : record ∈ records) (isEnd : Draft.idOf index target ∈ record.references) :
    target ∈ taken := by
  obtain ⟨first, kept, id, _⟩ := gathered.first_of_end written apart (namesApart_of_nodup names)
    known (gathered.ends record member _ isEnd)
  have firstIn := firstOfEach_subset index taken kept
  exact eq_of_idOf written apart names (gathered.inside firstIn) known id ▸ firstIn

theorem Gathered.owner_taken {owner : Symbol} (isTaken : symbol ∈ taken)
    (owned : Draft.ownerOf index symbol = some owner) : owner ∈ taken := by
  have kept := (gathered.mem_firstOfEach written apart names).mpr isTaken
  have member := (List.mem_filter.mp (gathered.mem_elements written apart kept)).1
  have known := Draft.ownerOf_mem owned
  refine gathered.taken_of_end written apart names known member
    (end_mem_references "owner" ?_ (idOf_given written known))
  rw [Draft.elementRecord, owned]
  exact List.mem_cons_self

theorem Gathered.target_taken {target : Symbol} (isTaken : symbol ∈ taken)
    (refers : Refers index memo symbol target) : target ∈ taken := by
  obtain ⟨link, linked, goal⟩ := refers_iff.mp refers
  obtain ⟨record, member, id, _, rfl⟩ := gathered.composed.stands_mem isTaken linked
  have known := gathered.linked symbol isTaken link linked target goal
  refine gathered.taken_of_end written apart names known member
    (end_mem_references "target" ?_ (idOf_given written known))
  rw [Link.record, goal]
  exact List.mem_cons_of_mem _ (List.mem_cons_of_mem _ List.mem_cons_self)

omit written apart names in
theorem Gathered.own_taken (known : symbol ∈ index.symbols) (own : symbol.isLibrary = false) :
    symbol ∈ taken := by
  obtain ⟨inlined, parts⟩ := gathered.parts
  rw [parts]
  exact List.mem_append_left _ (List.mem_filter.mpr ⟨known, by simp [own]⟩)

theorem Gathered.needed_taken (needed : Needed index memo symbol) : symbol ∈ taken := by
  induction needed with
  | referred known own library refers =>
    exact gathered.target_taken written apart names (gathered.own_taken known own) refers
  | owner needed owned ih => exact gathered.owner_taken written apart names ih owned
  | target needed refers ih => exact gathered.target_taken written apart names ih refers

/-- Nothing but the model's own symbols and what they need was taken up, where the model's own
are owned by the model's own. -/
theorem Gathered.taken_needed
    (owners : ∀ symbol ∈ index.symbols, symbol.isLibrary = false → ∀ owner,
      Draft.ownerOf index symbol = some owner → owner.isLibrary = false)
    (isTaken : symbol ∈ taken) : symbol.isLibrary = false ∨ Needed index memo symbol := by
  have closed : Closed records fun id => ∃ symbol ∈ index.symbols, Draft.idOf index symbol = id ∧
      (symbol.isLibrary = false ∨ Needed index memo symbol) := by
    constructor
    · rintro record member isElement ⟨found, known, same, due⟩ id owned
      rcases gathered.composed.mem member with ⟨other, inside, rfl⟩ | ⟨_, _, _, _, stands⟩
      · obtain rfl := eq_of_idOf written apart names known (gathered.inside inside) same
        obtain ⟨owner, holds, rfl⟩ := Option.map_eq_some_iff.mp owned
        refine ⟨owner, Draft.ownerOf_mem holds, rfl, ?_⟩
        exact due.imp (fun own => owners _ known own owner holds) fun needed => needed.owner holds
      · rw [stands.isRelationship] at isElement
        cases isElement
    · rintro record member source id isSource isTarget ⟨found, known, same, due⟩
      rcases gathered.composed.mem member with
        ⟨other, _, rfl⟩ | ⟨other, inside, link, linked, stands⟩
      · cases isSource
      · obtain ⟨_, _, rfl⟩ := stands
        cases isSource
        cases isTarget
        obtain rfl := eq_of_idOf written apart names known (gathered.inside inside) same
        obtain ⟨file, isLibrary, isWritten⟩ := written _ known
        obtain ⟨_, target, goal⟩ := isWritten.links linked
        have refers := refers_iff.mpr ⟨link, linked, goal⟩
        refine ⟨target, gathered.linked _ inside link linked target goal, ?_, ?_⟩
        · rw [goal]
          rfl
        · cases library : target.isLibrary with
          | false => exact .inl rfl
          | true =>
            exact .inr (due.elim (fun own => .referred known own library refers)
              fun needed => needed.target refers)
  obtain ⟨found, known, same, due⟩ := gathered.needed _ closed
    (fun other known own => ⟨other, known, rfl, .inl own⟩) symbol isTaken
  rwa [← eq_of_idOf written apart names known (gathered.inside isTaken) same]

end Gathering

end Sysml
