import Mathlib.Logic.Relation
import Sysml.Format.Xmi
import Sysml.Proofs.Document.Typed

/-!
# Names that are derived from places

Where the elements of a tree have no qualified names, the reader makes them on the way down: the
prefix that it passes on is lost at an element without a name, and is passed through a relationship.
The importer makes them on the way up, with the ids of what has no name and with relationships. Both
make the same name exactly when all owners are elements with names (`ofXmi_names`).
-/

set_option autoImplicit false

namespace Sysml

namespace Xml

mutual

def Element.lacks (name : String) : Element → Bool
  | .node _ attributes _ children => (attributes.lookup name).isNone && allLack name children

def allLack (name : String) : List Element → Bool
  | [] => true
  | element :: rest => element.lacks name && allLack name rest

end

theorem Element.lacks_node {name : String} {element : Element} (bare : element.lacks name = true) :
    element.attribute? name = none ∧ allLack name element.children = true := by
  obtain ⟨tag, attributes, text, children⟩ := element
  rw [lacks, Bool.and_eq_true, Option.isNone_iff_eq_none] at bare
  exact ⟨congrArg (Option.map AttributeValue.content) bare.1, bare.2⟩

end Xml

namespace Record

/-- A record without its qualified name. -/
def unqualified (record : Record) : Record :=
  { record with qualifiedName := .null }

def IsNamed (record : Record) : Prop :=
  record.isRelationship = false ∧ ∃ name, record.name = .text name ∧ name ≠ ""

/-- The name of a record, or the id in place of one that is missing. -/
def label (record : Record) : String :=
  match record.name with
  | .text name => if name.isEmpty then record.id.display else name
  | _ => record.id.display

def nameBelow (above : Option String) (name : String) : String :=
  match above.filter fun owner => !owner.isEmpty with
  | none => name
  | some owner => owner ++ "::" ++ name

/-- A record with the qualified name that its place gives it. -/
structure Derived (above : Option String) (record : Record) : Prop where
  id : ∃ id, id ≠ "" ∧ record.id = .text id
  names : ∃ name?, record.name = Document.optionalText name? ∧
    record.qualifiedName =
      Document.optionalText (if record.isRelationship then none else name?.map (nameBelow above))

end Record

namespace Document

/-- The prefix that is passed on to what the first of some records owns; each is owned by the next
one. -/
def prefix? : List Record → Option String
  | [] => none
  | record :: outers =>
      if record.isRelationship then prefix? outers else givenName? record.qualifiedName

/-- Records each of which is owned by the next one, and the last one by none. -/
inductive Lineage : List Record → Prop where
  | top : Lineage []
  | inside {record : Record} {outers : List Record} :
      record.Derived (prefix? outers) → record.owner = outers.head?.map (·.id) → Lineage outers →
      Lineage (record :: outers)

/-- Each record stands after its owners. -/
def Traced (records : List Record) : Prop :=
  ∀ record ∈ records, ∃ outers, Lineage (record :: outers) ∧
    (record :: outers).reverse.Sublist records

/-- A document without its qualified names. -/
def unqualified (document : Document) : Document :=
  { document with records := document.records.map Record.unqualified }

/-! ## What the reader makes -/

theorem recordOf_derived {element : Xml.Element} (bare : element.attribute? "qualifiedName" = none)
    {id : String} (someId : id ≠ "") (kind : String) (owner ownerName : Option String) :
    (recordOf element id kind owner ownerName).Derived ownerName where
  id := ⟨id, someId, rfl⟩
  names := by
    refine ⟨element.attribute? "name", rfl, ?_⟩
    simp only [recordOf, bare, Option.none_or, Record.isRelationship, Option.isSome_map]
    rfl

theorem Traced.add {records : List Record} (traced : Traced records) {record : Record}
    {outers : List Record} (lineage : Lineage (record :: outers))
    (above : outers.reverse.Sublist records) : Traced (records ++ [record]) := by
  intro other member
  rcases List.mem_append.mp member with old | new
  · obtain ⟨owners, isLineage, stands⟩ := traced other old
    exact ⟨owners, isLineage, stands.trans (List.sublist_append_left _ _)⟩
  · rw [List.mem_singleton.mp new]
    refine ⟨outers, lineage, ?_⟩
    rw [List.reverse_cons]
    exact above.append (.refl _)

theorem readExtension_records {children : List Xml.Element} {document again : Document}
    (isRead : children.foldlM readExtensionChild document = .ok again) :
    again.records = document.records := by
  induction children generalizing document with
  | nil =>
    cases isRead
    rfl
  | cons child rest ih =>
    rw [List.foldlM_cons] at isRead
    obtain ⟨next, first, isRead⟩ := result_bind_ok isRead
    rw [ih isRead]
    unfold readExtensionChild at first
    split at first
    · cases first
      rfl
    · split at first
      · cases first
      · split at first
        · cases first
        · cases first
          rfl
    · cases first
      rfl

mutual

theorem readElement_traced : ∀ (element : Xml.Element) {document again : Document}
    {owner ownerName : Option String} {outers : List Record},
    element.lacks "qualifiedName" = true →
      Traced document.records → Lineage outers → outers.reverse.Sublist document.records →
      owner.map Key.text = outers.head?.map (·.id) → ownerName = prefix? outers →
      readElement document owner ownerName element = .ok again →
      Traced again.records ∧ document.records.Sublist again.records
  | .node name attributes text children, document, again, owner, ownerName, outers, bare, traced,
      lineage, above, isOwner, isPrefix, isRead => by
    obtain ⟨bareHere, bareInside⟩ := Xml.Element.lacks_node bare
    have inside {document again : Document} {owner ownerName : Option String}
        {outers : List Record} :=
      @readElements_traced children document again owner ownerName outers bareInside
    unfold readElement at isRead
    extract_lets element label kind id at isRead
    by_cases isExtension : label = "Extension"
    · rw [if_pos isExtension] at isRead
      rw [readExtension_records isRead]
      exact ⟨traced, .refl _⟩
    rw [if_neg isExtension] at isRead
    by_cases isDoc : label = "documentation"
    · rw [if_pos isDoc] at isRead
      cases isRead
      exact ⟨traced, .refl _⟩
    rw [if_neg isDoc] at isRead
    split at isRead
    · exact inside traced lineage above isOwner isPrefix isRead
    · split at isRead
      · cases isRead
      · next given isGiven =>
        have someId : given ≠ "" := by
          have present := (Option.filter_eq_some_iff.mp isGiven).2
          simpa using present
        have derived := recordOf_derived bareHere someId kind owner ownerName
        have further : Lineage (recordOf element given kind owner ownerName :: outers) :=
          .inside (isPrefix ▸ derived) isOwner lineage
        have stands : (recordOf element given kind owner ownerName :: outers).reverse.Sublist
            (document.records ++ [recordOf element given kind owner ownerName]) := by
          rw [List.reverse_cons]
          exact above.append (.refl _)
        obtain ⟨tracedToo, grows⟩ := inside (traced.add further above) further stands rfl
          (by rw [prefix?, isPrefix]) isRead
        exact ⟨tracedToo, (List.sublist_append_left _ _).trans grows⟩

theorem readElements_traced : ∀ (elements : List Xml.Element) {document again : Document}
    {owner ownerName : Option String} {outers : List Record},
    Xml.allLack "qualifiedName" elements = true →
      Traced document.records → Lineage outers → outers.reverse.Sublist document.records →
      owner.map Key.text = outers.head?.map (·.id) → ownerName = prefix? outers →
      readElements document owner ownerName elements = .ok again →
      Traced again.records ∧ document.records.Sublist again.records
  | [], _, _, _, _, _, _, traced, _, _, _, _, isRead => by
    cases isRead
    exact ⟨traced, .refl _⟩
  | element :: rest, document, again, owner, ownerName, outers, bare, traced, lineage, above,
      isOwner, isPrefix, isRead => by
    rw [Xml.allLack, Bool.and_eq_true] at bare
    obtain ⟨here, others⟩ := bare
    rw [readElements] at isRead
    obtain ⟨next, first, isRead⟩ := result_bind_ok isRead
    obtain ⟨tracedNext, grows⟩ :=
      readElement_traced element here traced lineage above isOwner isPrefix first
    obtain ⟨tracedAgain, growsToo⟩ := readElements_traced rest others tracedNext lineage
      (above.trans grows) isOwner isPrefix isRead
    exact ⟨tracedAgain, grows.trans growsToo⟩

end

/-! ## What the importer makes -/

theorem Lineage.derived {chain : List Record} (lineage : Lineage chain) :
    ∀ record ∈ chain, ∃ above, record.Derived above := by
  induction lineage with
  | top => exact List.forall_mem_nil _
  | inside derived _ _ ih => exact List.forall_mem_cons.mpr ⟨⟨_, derived⟩, ih⟩

theorem nameText?_label {above : Option String} {record : Record}
    (derived : record.Derived above) :
    ∃ id name?, nameText? record.id.value = .ok (some id) ∧ nameText? record.name = .ok name? ∧
      name?.getD id = record.label := by
  obtain ⟨id, someId, isId⟩ := derived.id
  obtain ⟨name?, isName, _⟩ := derived.names
  have idText : nameText? record.id.value = .ok (some id) := by
    rw [isId]
    simp [nameText?, someId]
  have shown : record.id.display = id := by
    rw [isId]
    rfl
  rw [Record.label, isName, shown]
  cases name? with
  | none => exact ⟨id, none, idText, rfl, rfl⟩
  | some name =>
    refine ⟨id, if name.isEmpty then none else some name, idText, rfl, ?_⟩
    dsimp only [optionalText]
    split <;> rfl

/-- One step of a climb: the name of the record is taken, then the climb goes on with its owner. -/
theorem climb_unqualified_succ (document : Document) {above : Option String} {record : Record}
    (derived : record.Derived above) {seen : List Key} (unseen : seen.contains record.id = false)
    (fuel : Nat) :
    document.climb (fuel + 1) seen record.unqualified =
      match (Key.given? record.owner).bind document.last? with
      | none => .ok [record.label]
      | some owner => (record.label :: ·) <$> document.climb fuel (record.id :: seen) owner := by
  obtain ⟨id, name?, idText, nameText, isLabel⟩ := nameText?_label derived
  have isUnseen : ¬ seen.contains record.unqualified.id = true := by
    rw [Record.unqualified, unseen]
    exact Bool.false_ne_true
  have nothing : nameText? record.unqualified.qualifiedName = .ok none := rfl
  rw [climb, if_neg isUnseen, nothing, ok_bind]
  dsimp only [Record.unqualified]
  rw [idText, ok_bind, nameText, ok_bind, Option.getD_some, isLabel]
  cases (Key.given? record.owner).bind document.last? with
  | none => rfl
  | some owner => rfl

section Climb

variable {document : Document} (apart : document.TellsApart)

include apart

theorem TellsApart.unqualified : document.unqualified.TellsApart where
  ids := by
    have same : document.unqualified.ids = document.ids := by
      simp [Document.ids, Document.unqualified, Function.comp_def, Record.unqualified]
    rw [same]
    exact apart.ids
  texts record member := by
    obtain ⟨other, inside, rfl⟩ := List.mem_map.mp member
    exact apart.texts other inside

/-- Without qualified names, a climb comes past all owners and takes their names. -/
theorem climb_unqualified {record : Record} {outers : List Record}
    (lineage : Lineage (record :: outers)) (within : record :: outers ⊆ document.records)
    (once : ((record :: outers).map (·.id)).Nodup) {seen : List Key}
    (fresh : ∀ other ∈ record :: outers, seen.contains other.id = false) {fuel : Nat}
    (enough : outers.length < fuel) :
    document.unqualified.climb fuel seen record.unqualified =
      .ok ((record :: outers).map Record.label) := by
  -- The induction is on the owners that are still above; none of them has been seen, as ids differ.
  induction outers generalizing record seen fuel with
  | nil =>
    obtain ⟨fuel, rfl⟩ := Nat.exists_eq_add_one.mpr enough
    cases lineage with
    | inside derived isOwner above =>
      rw [climb_unqualified_succ _ derived (fresh record List.mem_cons_self), isOwner]
      rfl
  | cons outer outers ih =>
    obtain ⟨fuel, rfl⟩ : ∃ before, fuel = before + 1 := Nat.exists_eq_add_one.mpr (by omega)
    cases lineage with
    | inside derived isOwner above =>
      obtain ⟨inRecords, outersIn⟩ := List.cons_subset.mp within
      obtain ⟨outerIn, _⟩ := List.cons_subset.mp outersIn
      obtain ⟨otherThan, onceOuters⟩ := List.nodup_cons.mp once
      obtain ⟨id, someId, isId⟩ : ∃ id, id ≠ "" ∧ outer.id = .text id := by
        obtain ⟨_, derivedOuter⟩ := above.derived outer List.mem_cons_self
        exact derivedOuter.id
      have given : Key.given? (some outer.id) = some outer.id := by
        rw [isId]
        simp [Key.given?, Key.isAbsent, Value.isAbsent, Key.text, someId]
      have looked : document.unqualified.last? outer.id = some outer.unqualified :=
        apart.unqualified.last?_eq (List.mem_map_of_mem outerIn)
      have unseen : ∀ other ∈ outer :: outers, (record.id :: seen).contains other.id = false := by
        intro other member
        rw [List.contains_cons, fresh other (List.mem_cons_of_mem _ member), Bool.or_false,
          Bool.eq_false_iff]
        intro same
        rw [apart.eq_of_id_beq (outersIn member) inRecords same] at member
        exact otherThan (List.mem_map_of_mem member)
      have climbed : document.unqualified.climb fuel (record.id :: seen) outer.unqualified =
          .ok ((outer :: outers).map Record.label) :=
        ih above outersIn onceOuters unseen (by rw [List.length_cons] at enough; omega)
      rw [climb_unqualified_succ _ derived (fresh record List.mem_cons_self), isOwner,
        List.head?_cons, Option.map_some, given, Option.bind_some, looked]
      dsimp only
      rw [climbed]
      rfl

end Climb

/-- The names of some records, the last one first. -/
def fullLabel (chain : List Record) : String :=
  "::".intercalate (chain.map Record.label).reverse

theorem fullLabel_cons {outers : List Record} (owned : outers ≠ []) (record : Record) :
    fullLabel (record :: outers) = fullLabel outers ++ "::" ++ record.label := by
  rw [fullLabel, List.map_cons, List.reverse_cons,
    String.intercalate_append_of_ne_nil (by simpa using owned) (List.cons_ne_nil _ _),
    String.intercalate_singleton]
  rfl

/-- The importer's name without qualified names is that of all owners. -/
theorem qualifiedNameOf_unqualified {document : Document} (apart : document.TellsApart)
    {record : Record} {outers : List Record} (lineage : Lineage (record :: outers))
    (stands : (record :: outers).reverse.Sublist document.records) :
    document.unqualified.qualifiedNameOf record.unqualified =
      .ok (.text (fullLabel (record :: outers))) := by
  have within : record :: outers ⊆ document.records :=
    fun other member => stands.subset (List.mem_reverse.mpr member)
  have once : ((record :: outers).map (·.id)).Nodup := by
    have reversed : ((record :: outers).reverse.map (·.id)).Nodup :=
      List.Nodup.sublist (stands.map _) apart.ids
    rwa [List.map_reverse, List.nodup_reverse] at reversed
  have few : outers.length < document.unqualified.records.length + 1 := by
    have fits := stands.length_le
    rw [List.length_reverse, List.length_cons] at fits
    rw [Document.unqualified, List.length_map]
    omega
  have climbed := climb_unqualified apart lineage within once
    (fun other _ => (List.contains_nil : [].contains other.id = false)) few
  have absent : record.unqualified.qualifiedName.isAbsent = true := rfl
  rw [qualifiedNameOf, if_pos absent, climbed, ok_bind]
  rfl

/-! ## Where both make the same -/

theorem label_text {record : Record} {name : String} (isName : record.name = .text name)
    (someName : name ≠ "") : record.label = name := by
  rw [Record.label, isName]
  simp [someName]

theorem label_ne {above : Option String} {record : Record} (derived : record.Derived above) :
    record.label ≠ "" := by
  obtain ⟨id, someId, isId⟩ := derived.id
  have shown : record.id.display = id := by
    rw [isId]
    rfl
  rw [Record.label, shown]
  split
  · split
    · exact someId
    · next some_ => simpa using some_
  · exact someId

theorem nameBelow_cases (above : Option String) (name : String) :
    (above.getD "" = "" ∧ Record.nameBelow above name = name) ∨
      (above.getD "" ≠ "" ∧ Record.nameBelow above name = above.getD "" ++ "::" ++ name) := by
  cases above with
  | none => exact .inl ⟨rfl, rfl⟩
  | some owner =>
    by_cases isEmpty : owner = ""
    · subst isEmpty
      exact .inl ⟨rfl, rfl⟩
    · have kept : (some owner).filter (fun owner => !owner.isEmpty) = some owner := by
        simp [Option.filter, isEmpty]
      refine .inr ⟨isEmpty, ?_⟩
      rw [Record.nameBelow, kept]
      rfl

theorem Lineage.fullLabel_ne {chain : List Record} (lineage : Lineage chain) (owned : chain ≠ []) :
    fullLabel chain ≠ "" := by
  obtain ⟨record, outers, rfl⟩ := List.exists_cons_of_ne_nil owned
  obtain ⟨_, derived⟩ := lineage.derived record List.mem_cons_self
  exact intercalate_ne_empty (by simp) (label_ne derived)

theorem length_lt_fullLabel {record : Record} {outers : List Record}
    (derived : record.Derived (prefix? outers)) :
    (fullLabel outers).length < (fullLabel (record :: outers)).length := by
  have someLabel : 0 < record.label.length :=
    Nat.pos_of_ne_zero fun none_ => label_ne derived (String.length_eq_zero_iff.mp none_)
  by_cases owned : outers = []
  · subst owned
    exact someLabel
  · rw [fullLabel_cons owned]
    simp only [String.length_append]
    omega

section Passing

variable {record : Record} {outers : List Record} (derived : record.Derived (prefix? outers))

include derived

theorem prefix?_element (element : record.isRelationship = false) :
    ∃ name?, record.name = optionalText name? ∧
      prefix? (record :: outers) = name?.map (Record.nameBelow (prefix? outers)) := by
  obtain ⟨name?, isName, isQualified⟩ := derived.names
  rw [element] at isQualified
  refine ⟨name?, isName, ?_⟩
  simp only [prefix?, element, isQualified]
  cases name? <;> rfl

theorem prefix?_named (named : record.IsNamed) :
    prefix? (record :: outers) = some (Record.nameBelow (prefix? outers) record.label) := by
  obtain ⟨element, name, isText, someName⟩ := named
  obtain ⟨name?, isName, passed⟩ := prefix?_element derived element
  obtain rfl : name? = some name := by
    cases name? with
    | none => cases isName.symm.trans isText
    | some other =>
      cases isName.symm.trans isText
      rfl
  rw [passed, label_text isText someName, Option.map_some]

/-- What is no element with a name adds less to the prefix than to the importer's name. -/
theorem prefix?_unnamed (unnamed : ¬ record.IsNamed)
    (fits : ((prefix? outers).getD "").length ≤ (fullLabel outers).length) :
    ((prefix? (record :: outers)).getD "").length < (fullLabel (record :: outers)).length := by
  have longer := length_lt_fullLabel derived
  cases relationship : record.isRelationship with
  | true =>
    have passed : prefix? (record :: outers) = prefix? outers := by simp [prefix?, relationship]
    rw [passed]
    omega
  | false =>
    obtain ⟨name?, isName, passed⟩ := prefix?_element derived relationship
    rw [passed]
    cases name? with
    | none => exact Nat.lt_of_le_of_lt (Nat.zero_le _) longer
    | some name =>
      have isEmpty : name = "" := by
        by_contra someName
        exact unnamed ⟨relationship, name, isName, someName⟩
      subst isEmpty
      rw [Option.map_some, Option.getD_some]
      rcases nameBelow_cases (prefix? outers) "" with ⟨_, isBelow⟩ | ⟨passedOn, isBelow⟩
      · rw [isBelow]
        exact Nat.lt_of_le_of_lt (Nat.zero_le _) longer
      · have owned : outers ≠ [] := by
          rintro rfl
          exact passedOn rfl
        have someLabel : 0 < record.label.length :=
          Nat.pos_of_ne_zero fun none_ => label_ne derived (String.length_eq_zero_iff.mp none_)
        have nothing : "".length = 0 := rfl
        rw [isBelow, fullLabel_cons owned]
        simp only [String.length_append]
        omega

end Passing

/-- The prefix that is passed on is the importer's name of the owner if all owners are elements with
names, and shorter if they are not. -/
theorem Lineage.passesOn {chain : List Record} (lineage : Lineage chain) :
    ((∀ record ∈ chain, record.IsNamed) ∧ (prefix? chain).getD "" = fullLabel chain) ∨
      ((∃ record ∈ chain, ¬ record.IsNamed) ∧
        ((prefix? chain).getD "").length < (fullLabel chain).length) := by
  -- A part that is left out is never made up for: further down the shorter one stays shorter.
  induction lineage with
  | top => exact .inl ⟨List.forall_mem_nil _, rfl⟩
  | @inside record outers derived isOwner above ih =>
    by_cases named : record.IsNamed
    · rw [prefix?_named derived named, Option.getD_some]
      by_cases owned : outers = []
      · subst owned
        exact .inl ⟨List.forall_mem_singleton.mpr named, rfl⟩
      rw [fullLabel_cons owned]
      have below := nameBelow_cases (prefix? outers) record.label
      rcases ih with ⟨allNamed, same⟩ | ⟨⟨other, member, unnamed⟩, less⟩
      · refine .inl ⟨List.forall_mem_cons.mpr ⟨named, allNamed⟩, ?_⟩
        rcases below with ⟨nothing, _⟩ | ⟨_, isBelow⟩
        · exact absurd (same.symm.trans nothing) (above.fullLabel_ne owned)
        · rw [isBelow, same]
      · refine .inr ⟨⟨other, List.mem_cons_of_mem _ member, unnamed⟩, ?_⟩
        rcases below with ⟨_, isBelow⟩ | ⟨_, isBelow⟩ <;> rw [isBelow] <;>
          simp only [String.length_append] <;> omega
    · refine .inr ⟨⟨record, List.mem_cons_self, named⟩, prefix?_unnamed derived named ?_⟩
      rcases ih with ⟨_, same⟩ | ⟨_, less⟩
      · exact same ▸ Nat.le_refl _
      · exact Nat.le_of_lt less

theorem Lineage.prefix?_eq_iff {chain : List Record} (lineage : Lineage chain) :
    (prefix? chain).getD "" = fullLabel chain ↔ ∀ record ∈ chain, record.IsNamed := by
  rcases lineage.passesOn with ⟨allNamed, same⟩ | ⟨⟨other, member, unnamed⟩, less⟩
  · exact ⟨fun _ => allNamed, fun _ => same⟩
  · refine ⟨fun same => ?_, fun allNamed => absurd (allNamed other member) unnamed⟩
    rw [same] at less
    exact absurd less (Nat.lt_irrefl _)

/-! ## Documents that are read -/

/-- The second record, an element or a relationship, owns the first one. -/
def StandsIn (document : Document) (record owner : Record) : Prop :=
  owner ∈ document.records ∧ record.owner = some owner.id

theorem Lineage.mem_outers {document : Document} (apart : document.TellsApart) {record : Record}
    {outers : List Record} (lineage : Lineage (record :: outers))
    (within : outers ⊆ document.records) (other : Record) :
    other ∈ outers ↔ Relation.TransGen document.StandsIn record other := by
  induction outers generalizing record with
  | nil =>
    cases lineage with
    | inside _ isOwner _ =>
      refine ⟨fun member => (by cases member), fun reached => ?_⟩
      obtain ⟨_, ⟨_, owned⟩, _⟩ := Relation.TransGen.head'_iff.mp reached
      cases isOwner.symm.trans owned
  | cons outer outers ih =>
    cases lineage with
    | inside _ isOwner above =>
      obtain ⟨outerIn, outersIn⟩ := List.cons_subset.mp within
      have standsIn : document.StandsIn record outer := ⟨outerIn, isOwner⟩
      constructor
      · intro member
        rcases List.mem_cons.mp member with rfl | member
        · exact .single standsIn
        · exact .head standsIn ((ih above outersIn).mp member)
      · intro reached
        obtain ⟨owner, ⟨ownerIn, owned⟩, further⟩ := Relation.TransGen.head'_iff.mp reached
        obtain rfl : outer = owner :=
          apart.eq_of_id outerIn ownerIn (Option.some.inj (isOwner.symm.trans owned))
        rcases Relation.reflTransGen_iff_eq_or_transGen.mp further with rfl | further
        · exact List.mem_cons_self
        · exact List.mem_cons_of_mem _ ((ih above outersIn).mpr further)

theorem ofXmi_traced {octets : ByteArray} {root : Xml.Element} {document : Document}
    (parsed : Xml.read octets.toList = .ok root)
    (bare : root.lacks "qualifiedName" = true)
    (isRead : ofXmi octets = .ok document) : Traced document.records := by
  have traced : Traced (make [] [] []).records := fun _ member => (by cases member)
  unfold ofXmi at isRead
  rw [parsed] at isRead
  dsimp only at isRead
  split at isRead
  · exact (readElements_traced root.children (Xml.Element.lacks_node bare).2 traced .top
      (.refl _) rfl rfl isRead).1
  · exact (readElement_traced root bare traced .top (.refl _) rfl rfl isRead).1

/-- Where no element of a tree has a qualified name, the one that the reader makes for an element
with a name attribute is the one that the importer makes without qualified names, exactly when the
name is not empty and all owners are elements with names that are not empty. -/
theorem ofXmi_names {octets : ByteArray} {root : Xml.Element} {document : Document}
    (parsed : Xml.read octets.toList = .ok root)
    (bare : root.lacks "qualifiedName" = true)
    (isRead : ofXmi octets = .ok document) (distinct : document.ids.Nodup) {record : Record}
    (member : record ∈ document.records) (element : record.isRelationship = false) {name : String}
    (isName : record.name = .text name) :
    document.unqualified.qualifiedNameOf record.unqualified = .ok ⟨record.qualifiedName⟩ ↔
      name ≠ "" ∧ ∀ owner, Relation.TransGen document.StandsIn record owner → owner.IsNamed := by
  have traced := ofXmi_traced parsed bare isRead
  have apart : document.TellsApart := by
    refine ⟨distinct, fun other otherIn => ?_⟩
    obtain ⟨_, lineage, _⟩ := traced other otherIn
    obtain ⟨_, derived⟩ := lineage.derived other List.mem_cons_self
    obtain ⟨id, _, isId⟩ := derived.id
    exact ⟨id, isId⟩
  obtain ⟨outers, lineage, stands⟩ := traced record member
  have within : outers ⊆ document.records := fun other otherIn =>
    stands.subset (List.mem_reverse.mpr (List.mem_cons_of_mem _ otherIn))
  obtain ⟨made, isMade⟩ : ∃ made, record.qualifiedName = .text made := by
    obtain ⟨_, derived⟩ := lineage.derived record List.mem_cons_self
    obtain ⟨name?, same, isQualified⟩ := derived.names
    cases name? with
    | none => cases same.symm.trans isName
    | some other =>
      rw [element] at isQualified
      exact ⟨_, isQualified⟩
  have passed : (prefix? (record :: outers)).getD "" = made := by
    simp [prefix?, element, isMade, givenName?]
  have isNamed : record.IsNamed ↔ name ≠ "" := by
    constructor
    · rintro ⟨_, other, same, someName⟩
      cases isName.symm.trans same
      exact someName
    · exact fun someName => ⟨element, name, isName, someName⟩
  calc document.unqualified.qualifiedNameOf record.unqualified = .ok ⟨record.qualifiedName⟩
    _ ↔ made = fullLabel (record :: outers) := by
      rw [qualifiedNameOf_unqualified apart lineage stands, isMade]
      exact ⟨fun same => (Key.text_inj (Except.ok.inj same)).symm, fun same => same ▸ rfl⟩
    _ ↔ ∀ other ∈ record :: outers, other.IsNamed := passed ▸ lineage.prefix?_eq_iff
    _ ↔ name ≠ "" ∧ ∀ owner, Relation.TransGen document.StandsIn record owner → owner.IsNamed := by
      rw [List.forall_mem_cons, isNamed]
      simp only [lineage.mem_outers apart within]

theorem ofXmi_root {octets : ByteArray} {root : Xml.Element}
    (parsed : Xml.read octets.toList = .ok root) (noXmi : Xml.localName root.name ≠ "XMI") :
    ofXmi octets = readElement (make [] [] []) none none root := by
  rw [ofXmi, parsed]
  exact if_neg noXmi

def wrappedText : String :=
  "<Package xmlns:xmi=\"http://www.omg.org/spec/XMI/20131001\" xmi:id=\"p\" name=\"P\">" ++
    "<ownedMember><Part xmi:id=\"x\" name=\"x\"/></ownedMember></Package>"

/-- The reader and the importer make the same name. -/
theorem ofXmi_names_wrapped :
    ∃ document, ofXmi wrappedText.toUTF8 = .ok document ∧ ∃ record ∈ document.records,
      record.qualifiedName = .text "P::x" ∧
        document.unqualified.qualifiedNameOf record.unqualified = .ok (.text "P::x") := by
  have facts : ∃ root ∈ (Xml.read wrappedText.toUTF8.toList).toOption,
      root.lacks "qualifiedName" = true ∧ Xml.localName root.name ≠ "XMI" ∧
      ∃ document ∈ (readElement (make [] [] []) none none root).toOption,
        (document.ids.map Key.text?).Nodup ∧
        (∀ record ∈ document.records,
          record.isRelationship = false ∧ ∃ name ∈ record.name.text?, name ≠ "") ∧
        ∃ record ∈ document.records, record.name.text? = some "x" ∧
          record.qualifiedName.text? = some "P::x" := by
    decide +kernel
  have isText {value : Value} {text : String} (given : value.text? = some text) :
      value = .text text :=
    congrArg Key.value (Key.eq_text_of_text? (given : (Key.mk value).text? = some text))
  obtain ⟨root, parsed, bare, noXmi, document, isRead, distinct, named, record, member, isName,
    isFull⟩ := facts
  have parsed := toOption_eq_some.mp parsed
  have isRead := (ofXmi_root parsed noXmi).trans (toOption_eq_some.mp isRead)
  have owners (owner : Record) (reached : Relation.TransGen document.StandsIn record owner) :
      owner.IsNamed := by
    obtain ⟨_, _, ownerIn, _⟩ := Relation.TransGen.tail'_iff.mp reached
    obtain ⟨element, name, given, someName⟩ := named owner ownerIn
    exact ⟨element, name, isText given, someName⟩
  have same := (ofXmi_names parsed bare isRead (distinct.of_map _) member (named record member).1
    (isText isName)).mpr ⟨by decide, owners⟩
  rw [isText isFull] at same
  exact ⟨document, isRead, record, member, isText isFull, same⟩

/-- A package with an element in one that has no name. -/
def unnamedText : String :=
  "<Package xmlns:xmi=\"http://www.omg.org/spec/XMI/20131001\" xmi:id=\"p\" name=\"P\">" ++
    "<Part xmi:id=\"u\"><Part xmi:id=\"x\" name=\"x\"/></Part></Package>"

/-- Below the element without a name the reader begins anew, and the importer goes on. -/
theorem unnamedText_shortened :
    ∃ root, Xml.read unnamedText.toUTF8.toList = .ok root ∧ root.lacks "qualifiedName" = true ∧
      ∃ document, ofXmi unnamedText.toUTF8 = .ok document ∧ ∃ record ∈ document.records,
        record.isRelationship = false ∧ record.name.text? = some "x" ∧
          record.qualifiedName.text? = some "x" ∧
          (document.unqualified.qualifiedNameOf record.unqualified).toOption.bind Key.text? =
            some "P::u::x" := by
  have facts : ∃ root ∈ (Xml.read unnamedText.toUTF8.toList).toOption,
      root.lacks "qualifiedName" = true ∧ Xml.localName root.name ≠ "XMI" ∧
      ∃ document ∈ (readElement (make [] [] []) none none root).toOption,
        ∃ record ∈ document.records, record.isRelationship = false ∧
          record.name.text? = some "x" ∧ record.qualifiedName.text? = some "x" ∧
          (document.unqualified.qualifiedNameOf record.unqualified).toOption.bind Key.text? =
            some "P::u::x" := by
    decide +kernel
  obtain ⟨root, parsed, bare, noXmi, document, isRead, shortened⟩ := facts
  have parsed := toOption_eq_some.mp parsed
  exact ⟨root, parsed, bare, document,
    (ofXmi_root parsed noXmi).trans (toOption_eq_some.mp isRead), shortened⟩

end Document

end Sysml
