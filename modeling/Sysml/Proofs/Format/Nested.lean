import Sysml.Format.Xmi
import Sysml.Proofs.Format.Tagged
import Sysml.Proofs.Hierarchy
import Sysml.Proofs.Related
import Sysml.Proofs.Xml

/-!
# Documents as trees and back

A tree of a document has each record inside of its owner. When every owner is a record and owners
go round in no circle, the tree has each record once (`Nested.written_perm`).

The reader does not look at the text between elements (`readElement_alike`), and from the tree
of a document it reads the records in the order of the walk from the roots
(`readElements_written`), the external references in theirs, and the metadata.
-/

set_option autoImplicit false

namespace Sysml

/-- Items of which each goes to one of some places are those that go to the places one after the
other. -/
theorem filter_flatMap_perm {α β : Type} (places : List β) (items : List α) (goes : α → β → Bool)
    (apart : places.Pairwise fun one other => ∀ item ∈ items,
      ¬ (goes item one = true ∧ goes item other = true)) :
    (places.flatMap fun place => items.filter fun item => goes item place).Perm
      (items.filter fun item => places.any (goes item)) := by
  induction places with
  | nil => simp
  | cons first places ih =>
    obtain ⟨fresh, others⟩ := List.pairwise_cons.mp apart
    have split := List.filter_append_perm (fun item => goes item first)
      (items.filter fun item => (first :: places).any (goes item))
    have here : (items.filter fun item => (first :: places).any (goes item)).filter
        (fun item => goes item first) = items.filter fun item => goes item first := by
      rw [List.filter_filter]
      refine List.filter_congr fun item _ => ?_
      cases isFirst : goes item first <;> simp [isFirst]
    have later : (items.filter fun item => (first :: places).any (goes item)).filter
        (fun item => !goes item first) = items.filter fun item => places.any (goes item) := by
      rw [List.filter_filter]
      refine List.filter_congr fun item listed => ?_
      rw [List.any_cons]
      cases isFirst : goes item first with
      | false => simp
      | true =>
        have none_ : places.any (goes item) = false :=
          List.any_eq_false.mpr fun place isPlace goesOn =>
            fresh place isPlace item listed ⟨isFirst, goesOn⟩
        simp [none_]
    rw [here, later] at split
    exact ((ih others).append_left _).trans split

namespace Document

variable {document : Document} {record owner : Record}

/-- The second record owns the first one. -/
def HeldBy (document : Document) (record owner : Record) : Prop :=
  owner ∈ document.records ∧ record.owner = some owner.id

/-- A document whose records are inside of each other, as their owners say. -/
structure Nested (document : Document) : Prop where
  id : ∀ record ∈ document.records, ∃ id, record.id = .text id
  ids : document.ids.Nodup
  owned : ∀ record ∈ document.records, record.owner = none ∨ ∃ owner, document.HeldBy record owner
  acyclic : ∀ record ∈ document.records, ¬ Relation.TransGen document.HeldBy record record

def inside (document : Document) (record : Record) : List Record :=
  document.childrenOf (some record.id)

theorem written_eq (document : Document) (bound : Nat) (records : List Record) :
    document.written bound records = Hierarchy.walk document.inside bound records := by
  induction bound generalizing records with
  | zero => rfl
  | succ bound ih => simp only [written, Hierarchy.walk, ih, inside]

/-- Only records are written. -/
theorem written_subset (bound : Nat) {records : List Record} (listed : records ⊆ document.records) :
    document.written bound records ⊆ document.records := by
  induction bound generalizing records with
  | zero => exact List.nil_subset _
  | succ bound ih =>
    intro record isWritten
    obtain ⟨top, isTop, isInside⟩ := List.mem_flatMap.mp isWritten
    rcases List.mem_cons.mp isInside with rfl | below
    · exact listed isTop
    · exact ih (fun child isChild => (List.mem_filter.mp isChild).1) below

namespace Nested

variable (nested : document.Nested)

include nested

theorem owner_beq (member : owner ∈ document.records)
    (listed : record ∈ document.records) :
    (record.owner == some owner.id) = true ↔ record.owner = some owner.id := by
  obtain ⟨id, isId⟩ := nested.id owner member
  rcases nested.owned record listed with absent | ⟨holder, isHolder, isOwner⟩
  · simp [absent]
  · obtain ⟨other, isOther⟩ := nested.id holder isHolder
    rw [isOwner, isOther, isId, Option.some_beq_some, Key.text_beq, beq_iff_eq,
      Option.some_inj]
    exact ⟨congrArg Key.text, Key.text_inj⟩

/-- What is inside of a record is what it owns. -/
theorem mem_inside (member : owner ∈ document.records) :
    record ∈ document.inside owner ↔ record ∈ document.records ∧ document.HeldBy record owner := by
  rw [inside, childrenOf, List.mem_filter]
  exact and_congr_right fun listed =>
    (nested.owner_beq member listed).trans (and_iff_right member).symm

/-- What is at the top has no owner. -/
theorem roots_eq : document.roots = document.records.filter fun record => record.owner.isNone := by
  refine List.filter_congr fun record listed => ?_
  rcases nested.owned record listed with absent | ⟨holder, isHolder, isOwner⟩
  · simp [absent]
  · have held : document.ids.contains holder.id = true := by
      rw [List.contains_iff_exists_mem_beq]
      exact ⟨holder.id, List.mem_map_of_mem isHolder, BEq.rfl⟩
    simp [isOwner, held]

/-- A record is at the top or inside of another record. -/
theorem whole : document.records.Perm
    (document.roots ++ document.records.flatMap document.inside) := by
  have apart : document.records.Pairwise fun one other => ∀ record ∈ document.records,
      ¬ ((record.owner == some one.id) = true ∧ (record.owner == some other.id) = true) := by
    have distinct : document.records.Pairwise fun one other => one.id ≠ other.id :=
      List.pairwise_map.mp nested.ids
    refine distinct.imp_of_mem fun {one other} isOne isOther apart record listed both => apart ?_
    have first := (nested.owner_beq isOne listed).mp both.1
    have second := (nested.owner_beq isOther listed).mp both.2
    exact Option.some.inj (first.symm.trans second)
  have below := filter_flatMap_perm document.records document.records
    (fun record owner => record.owner == some owner.id) apart
  have split := List.filter_append_perm (fun record => record.owner.isNone) document.records
  refine split.symm.trans ?_
  rw [nested.roots_eq]
  refine List.Perm.append_left _ (List.Perm.trans (List.Perm.of_eq ?_) below.symm)
  refine List.filter_congr fun record listed => ?_
  rcases nested.owned record listed with absent | ⟨holder, isHolder, isOwner⟩
  · simp [absent]
  · have held : (document.records.any fun one => record.owner == some one.id) = true :=
      List.any_eq_true.mpr ⟨holder, isHolder, (nested.owner_beq isHolder listed).mpr isOwner⟩
    rw [held, isOwner]
    rfl

/-- No record has as many records above it as there are records. -/
theorem ends : Hierarchy.deep document.inside document.records (document.records.length + 1) = [] :=
  Hierarchy.deep_eq_nil (Hierarchy.rank document.records document.HeldBy)
    (fun _ member _ isInside => ((nested.mem_inside member).mp isInside).1)
    (fun owner member _ isInside => Hierarchy.rank_lt ((nested.mem_inside member).mp isInside).2
      member (nested.acyclic owner member))
    fun record listed =>
      Nat.lt_succ_of_lt (Hierarchy.rank_lt_length listed (nested.acyclic record listed))

/-- The records that are written are all records, each once. -/
theorem written_perm :
    (document.written (document.records.length + 1) document.roots).Perm document.records := by
  rw [written_eq]
  exact Hierarchy.walk_perm nested.whole nested.ends

end Nested

end Document

end Sysml

/-! ## Reading a tree -/

namespace Sysml.Document

open Xml (Element alike allAlike)

/-! ## White space -/

mutual

def hasBareDocs : Element → Bool
  | .node name _ _ children => (name != "documentation" || children.isEmpty) && haveBareDocs children

def haveBareDocs : List Element → Bool
  | [] => true
  | element :: rest => hasBareDocs element && haveBareDocs rest

end

def docOf? (children : List Element) : Option String :=
  (children.find? fun child => child.name == "documentation").bind fun child =>
    if child.text.isEmpty then none else some child.text

theorem docOf?_alike {children others : List Element} (same : allAlike children others = true)
    (bare : haveBareDocs others = true) : docOf? children = docOf? others := by
  induction children generalizing others with
  | nil =>
    cases others with
    | nil => rfl
    | cons => cases same
  | cons child children ih =>
    cases others with
    | nil => cases same
    | cons other others =>
      rw [allAlike, Bool.and_eq_true] at same
      rw [haveBareDocs, Bool.and_eq_true] at bare
      have sameName := Xml.alike_name same.1
      cases isDoc : other.name == "documentation" with
      | false =>
        have rested := ih same.2 bare.2
        rw [docOf?, docOf?] at rested ⊢
        rw [List.find?_cons_of_neg (by simp [sameName, isDoc]),
          List.find?_cons_of_neg (by simp [isDoc]), rested]
      | true =>
        have leaf : other.children = [] := by
          cases other
          rw [hasBareDocs, Bool.and_eq_true, Bool.or_eq_true] at bare
          have isName := beq_iff_eq.mp isDoc
          simp only [Element.name] at isName
          simpa [isName, Element.children] using bare.1.1
        rw [docOf?, docOf?, List.find?_cons_of_pos (by simp [sameName, isDoc]),
          List.find?_cons_of_pos (by simp [isDoc]), Option.bind_some, Option.bind_some,
          Xml.alike_text same.1 leaf]

theorem kindOf_alike {element other : Element} (same : alike element other = true) :
    kindOf element = kindOf other := by
  rw [kindOf, kindOf, Xml.alike_name same, Xml.alike_attribute? same]

def propertiesOf (attributes : List (String × Xml.AttributeValue)) : List (Value × Value) :=
  (attributes.filter fun entry => !Record.isUsed entry.1).map
    fun (key, value) => (.text key, propertyValue value.content)

theorem propertiesOf_contents (attributes : List (String × Xml.AttributeValue)) :
    propertiesOf attributes =
      ((Xml.contents attributes).filter fun entry => !Record.isUsed entry.1).map
        fun entry => (.text entry.1, propertyValue entry.2) := by
  rw [propertiesOf, Xml.contents, List.filter_map, List.map_map]
  rfl

theorem recordOf_alike {element other : Element} (same : alike element other = true)
    (bare : haveBareDocs other.children = true) (id kind : String)
    (owner ownerName : Option String) :
    recordOf element id kind owner ownerName = recordOf other id kind owner ownerName := by
  have attributes := Xml.alike_attribute? same
  have doc := docOf?_alike (Xml.alike_children same) bare
  have properties : propertiesOf element.attributes = propertiesOf other.attributes := by
    rw [propertiesOf_contents, propertiesOf_contents, Xml.alike_contents same]
  simp only [docOf?] at doc
  simp only [propertiesOf, Record.isUsed] at properties
  unfold recordOf
  simp only [attributes, doc, properties]

theorem readExtensionChild_alike {element other : Element} (same : alike element other = true)
    (document : Document) :
    readExtensionChild document element = readExtensionChild document other := by
  have metadata : ∀ attributes : List (String × Xml.AttributeValue), ∀ before,
      attributes.foldl (fun metadata (key, value) =>
        Entries.put (Value.text key) (propertyValue value.content) metadata) before =
      (Xml.contents attributes).foldl (fun metadata entry =>
        Entries.put (Value.text entry.1) (propertyValue entry.2) metadata) before := by
    intro attributes before
    rw [Xml.contents, List.foldl_map]
  unfold readExtensionChild
  simp only [Xml.alike_name same, Xml.alike_attribute? same, metadata, Xml.alike_contents same]

theorem readExtension_alike {children others : List Element}
    (same : allAlike children others = true) (document : Document) :
    children.foldlM readExtensionChild document = others.foldlM readExtensionChild document := by
  induction children generalizing others document with
  | nil =>
    cases others with
    | nil => rfl
    | cons => cases same
  | cons child children ih =>
    cases others with
    | nil => cases same
    | cons other others =>
      rw [allAlike, Bool.and_eq_true] at same
      rw [List.foldlM_cons, List.foldlM_cons, readExtensionChild_alike same.1]
      exact bind_congr fun document => ih same.2 document

mutual

/-- The text between elements makes no difference to what is read. -/
theorem readElement_alike : ∀ (element other : Element), alike element other = true →
    hasBareDocs other = true → ∀ (document : Document) (owner ownerName : Option String),
      readElement document owner ownerName element = readElement document owner ownerName other
  | .node name attributes text children, .node other others plain inner, same, bare, document,
      owner, ownerName => by
    have sameName : name = other := Xml.alike_name same
    have sameChildren : allAlike children inner = true := Xml.alike_children same
    have bareInside : haveBareDocs inner = true := by
      rw [hasBareDocs, Bool.and_eq_true] at bare
      exact bare.2
    have inside := readElements_alike children inner sameChildren bareInside
    have sameKind := kindOf_alike same
    have sameId := Xml.alike_attribute? same (xmiName "id")
    have sameRecord := recordOf_alike same bareInside
    subst sameName
    unfold readElement
    simp only [sameKind, sameId, sameRecord, inside, readExtension_alike sameChildren]

theorem readElements_alike : ∀ (elements others : List Element), allAlike elements others = true →
    haveBareDocs others = true → ∀ (document : Document) (owner ownerName : Option String),
      readElements document owner ownerName elements = readElements document owner ownerName others
  | [], [], _, _, _, _, _ => rfl
  | [], _ :: _, same, _, _, _, _ | _ :: _, [], same, _, _, _, _ => by cases same
  | element :: rest, other :: others, same, bare, document, owner, ownerName => by
    rw [allAlike, Bool.and_eq_true] at same
    rw [haveBareDocs, Bool.and_eq_true] at bare
    rw [readElements, readElements, readElement_alike element other same.1 bare.1]
    exact bind_congr fun document =>
      readElements_alike rest others same.2 bare.2 document owner ownerName

end

/-! ## Records -/

section Records

variable {document : Document}

theorem readElements_append (read : Document) (owner ownerName : Option String)
    (elements others : List Element) :
    readElements read owner ownerName (elements ++ others) =
      readElements read owner ownerName elements >>= fun read =>
        readElements read owner ownerName others := by
  induction elements generalizing read with
  | nil => rfl
  | cons element rest ih =>
    rw [List.cons_append, readElements, readElements, bind_assoc]
    exact bind_congr fun read => ih read

theorem readElement_wrapper {name : String} (isWrapper : name ∈ wrappers) (read : Document)
    (owner ownerName : Option String) (element : Element) :
    readElement read owner ownerName (.node name [] "" [element]) =
      readElement read owner ownerName element := by
  have plain : ∀ name ∈ wrappers,
      '\x7d' ∉ name.toList ∧ name ≠ "Extension" ∧ name ≠ "documentation" := by decide
  obtain ⟨noSpace, noExtension, noDocumentation⟩ := plain name isWrapper
  have label := Xml.localName_plain noSpace
  have kind : kindOf (.node name [] "" [element]) = "" := by
    have isNone : (Element.node name [] "" [element]).attribute? (xmiName "type") = none := rfl
    have held : wrappers.contains name = true := List.contains_iff_mem.mpr isWrapper
    rw [kindOf, isNone, Element.name, label, held]
    rfl
  have inside : readElements read owner ownerName [element] =
      readElement read owner ownerName element := by
    rw [readElements]
    exact bind_pure _
  have noKind : "".isEmpty = true := rfl
  rw [← inside]
  unfold readElement
  simp only [label, noExtension, noDocumentation, kind, noKind, ↓reduceIte, Bool.true_or]

/-- An element that only groups what it holds. -/
def grouped (isRelationship : Bool) (element : Element) : Element :=
  .node (if isRelationship then "ownedRelationship" else "ownedMember") [] "" [element]

theorem readElement_grouped (read : Document) (owner ownerName : Option String)
    (isRelationship : Bool) (element : Element) :
    readElement read owner ownerName (grouped isRelationship element) =
      readElement read owner ownerName element := by
  refine readElement_wrapper ?_ read owner ownerName element
  cases isRelationship <;> decide

theorem readElements_grouped (read : Document) (owner ownerName : Option String)
    (isRelationship : Record → Bool) (element : Record → Element) (records : List Record) :
    readElements read owner ownerName
        (records.map fun record => grouped (isRelationship record) (element record)) =
      readElements read owner ownerName (records.map element) := by
  induction records generalizing read with
  | nil => rfl
  | cons record rest ih =>
    rw [List.map_cons, List.map_cons, readElements, readElements, readElement_grouped]
    exact bind_congr ih

def docElements (record : Record) : List Element :=
  if record.doc.isAbsent then [] else [.node "documentation" [] record.doc.display []]

theorem readElements_doc (read : Document) (owner ownerName : Option String) (record : Record) :
    readElements read owner ownerName (docElements record) = .ok read := by
  unfold docElements
  split
  · rfl
  · have label : Xml.localName "documentation" = "documentation" := Xml.localName_plain (by decide)
    have passed : readElement read owner ownerName
        (.node "documentation" [] record.doc.display []) = .ok read := by
      unfold readElement
      simp [label]
    rw [readElements, passed]
    rfl

def childElements (document : Document) (bound : Nat) (record : Record) : List Element :=
  docElements record ++ (document.inside record).map fun child =>
    grouped child.isRelationship (document.xmiElement bound child)

theorem xmiElement_succ (bound : Nat) (record : Record) :
    document.xmiElement (bound + 1) record =
      .node (Xml.qualified modelSpace record.kind) (xmlAttributes (xmiEntries record)) ""
        (document.childElements bound record) :=
  rfl

/-- The documentation of a record is read from its element. -/
theorem docOf?_element {record : Record} (isDoc : Record.IsFullText record.doc) (bound : Nat) :
    docOf? (document.childElements bound record) = record.doc.filled?.map Value.display := by
  have inner : docOf? ((document.inside record).map fun child =>
      grouped child.isRelationship (document.xmiElement bound child)) = none := by
    have absent : (((document.inside record).map fun child => grouped child.isRelationship
        (document.xmiElement bound child)).find? fun child => child.name == "documentation") =
          none := by
      rw [List.find?_eq_none]
      intro element listed
      obtain ⟨child, -, rfl⟩ := List.mem_map.mp listed
      cases child.isRelationship <;> simp [grouped, Element.name]
    rw [docOf?, absent]
    rfl
  obtain ⟨text?, full, isText⟩ := isDoc
  unfold childElements docElements
  rw [isText]
  cases text? with
  | none => exact inner
  | some text =>
    have someText := full text rfl
    simp [optionalText, Value.isAbsent, Value.filled?, someText, docOf?, Element.name, Element.text,
      Value.display, Value.bare]

/-- The second record is read for the first one: it is the same in the graph, and all the same if
the element tells all of the first. -/
structure ReadFor (record found : Record) : Prop where
  vertex : found.vertex = record.vertex
  same : record.Taggable → found = record

/-- A record is read from its element, and then what is inside of the element. -/
theorem readElement_node {record : Record} (markable : record.Markable) (bound : Nat)
    (read : Document) (owner ownerName : Option String)
    (isOwner : record.owner = owner.map Key.text) :
    ∃ found childName, ReadFor record found ∧
      readElement read owner ownerName (document.xmiElement (bound + 1) record) =
        readElements { read with records := read.records ++ [found] } (some record.id.display)
          childName ((document.inside record).map (document.xmiElement bound)) := by
  obtain ⟨own, tagged⟩ := markable.properties
  obtain ⟨id, someId, isId⟩ := markable.id
  have shows_ := Record.node_shows tagged (Xml.qualified modelSpace record.kind) ""
    (document.childElements bound record)
  have label := Xml.localName_qualified markable.kind.plain modelSpace
  have kind := Record.kindOf_element shows_ markable.kind rfl
  have apart := markable.kind.apart
  simp only [List.mem_cons, not_or] at apart
  have someKind : record.kind.isEmpty = false := by simpa using markable.kind.some_
  have isGiven : (some record.id.display).filter (fun id => !id.isEmpty) =
      some record.id.display := by
    rw [isId]
    exact Option.filter_some_pos (by simpa [Key.display, Key.text, Value.display, Value.bare])
  obtain ⟨found, isFound, readFor⟩ : ∃ found,
      recordOf (.node (Xml.qualified modelSpace record.kind) (xmlAttributes (xmiEntries record)) ""
        (document.childElements bound record)) record.id.display record.kind owner ownerName =
          found ∧ ReadFor record found := by
    refine ⟨_, rfl, Record.recordOf_vertex markable owner ownerName isOwner, fun taggable => ?_⟩
    exact Record.recordOf_element taggable owner ownerName isOwner
      (docOf?_element taggable.doc bound)
  refine ⟨found, if found.isRelationship then ownerName else givenName? found.qualifiedName,
    readFor, ?_⟩
  rw [xmiElement_succ]
  unfold readElement
  simp only [label, apart.1, apart.2.1, kind, shows_.id, isGiven, isFound, someKind, ↓reduceIte,
    Option.isNone_some, Bool.false_and, Bool.or_false, Bool.false_eq_true]
  rw [childElements, readElements_append, readElements_doc]
  exact readElements_grouped ..

variable (markable : ∀ record ∈ document.records, record.Markable)

include markable

/-- From the elements of some records these are read in the order of a walk. -/
theorem readElements_found (nested : document.Nested) {bound : Nat} {records : List Record}
    (listed : records ⊆ document.records) (ends : Hierarchy.deep document.inside records bound = [])
    (read : Document) (owner ownerName : Option String)
    (isOwner : ∀ record ∈ records, record.owner = owner.map Key.text) :
    ∃ found, List.Forall₂ ReadFor (document.written bound records) found ∧
      readElements read owner ownerName (records.map (document.xmiElement bound)) =
        .ok { read with records := read.records ++ found } := by
  induction bound generalizing records read owner ownerName with
  | zero =>
    obtain rfl : records = [] := ends
    exact ⟨[], .nil, by rw [List.map_nil, readElements, List.append_nil]⟩
  | succ bound ih =>
    induction records generalizing read with
    | nil => exact ⟨[], .nil, by rw [List.map_nil, readElements, List.append_nil]⟩
    | cons record rest ihRest =>
      obtain ⟨isRecord, others⟩ := List.cons_subset.mp listed
      obtain ⟨owned, areOwned⟩ := List.forall_mem_cons.mp isOwner
      have further : Hierarchy.deep document.inside rest (bound + 1) = [] :=
        List.subset_nil.mp (ends ▸ Hierarchy.deep_subset document.inside
          (List.subset_cons_self record rest) (bound + 1))
      have within : Hierarchy.deep document.inside (document.inside record) bound = [] :=
        List.subset_nil.mp (ends ▸ Hierarchy.deep_subset document.inside
          (fun child member => List.mem_flatMap.mpr ⟨record, List.mem_cons_self, member⟩) bound)
      have isInside : ∀ child ∈ document.inside record,
          child.owner = (some record.id.display).map Key.text := by
        intro child member
        obtain ⟨id, -, isId⟩ := (markable record isRecord).id
        rw [((nested.mem_inside isRecord).mp member).2.2, isId]
        rfl
      obtain ⟨found, childName, isFound, first⟩ :=
        readElement_node (markable record isRecord) bound read owner ownerName owned
      obtain ⟨inner, areInner, second⟩ :=
        ih (fun child member => ((nested.mem_inside isRecord).mp member).1) within
          { read with records := read.records ++ [found] } (some record.id.display) childName
          isInside
      obtain ⟨later, areLater, third⟩ := ihRest others further
        { read with records := read.records ++ [found] ++ inner } areOwned
      refine ⟨found :: (inner ++ later), ?_, ?_⟩
      · change List.Forall₂ ReadFor (record :: document.written bound (document.inside record) ++
          document.written (bound + 1) rest) _
        exact .cons isFound (List.rel_append areInner areLater)
      · rw [List.map_cons, readElements, first, second]
        exact third.trans (by simp)

omit markable in
/-- Where elements tell all of their records, these are read as they were. -/
theorem readElements_written (taggable : ∀ record ∈ document.records, record.Taggable)
    (nested : document.Nested) {bound : Nat} {records : List Record}
    (listed : records ⊆ document.records) (ends : Hierarchy.deep document.inside records bound = [])
    (read : Document) (owner ownerName : Option String)
    (isOwner : ∀ record ∈ records, record.owner = owner.map Key.text) :
    readElements read owner ownerName (records.map (document.xmiElement bound)) =
      .ok { read with records := read.records ++ document.written bound records } := by
  obtain ⟨found, areFound, isRead⟩ := readElements_found
    (fun record isRecord => (taggable record isRecord).markable) nested listed ends read owner
    ownerName isOwner
  have same : List.Forall₂ (fun record found => record = found)
      (document.written bound records) found :=
    related_imp areFound fun record isWritten found isFound =>
      (isFound.same (taggable record (written_subset bound listed isWritten))).symm
  rw [List.forall₂_eq_eq_eq] at same
  rw [isRead, same]

end Records

end Sysml.Document
