import Mathlib.Data.List.Nodup
import Sysml.Document.Import
import Sysml.Proofs.Notation.Written
import Sysml.Proofs.Scope.Termination

/-!
# Documents whose fields are what they should be

In a document that is read, a name or an id may be any value. Here ids are texts, names are
texts or missing, and what is written into a symbol as text can be written. In such a
document ids tell records apart, and each record has a qualified name (`fullName_text`).
-/

set_option autoImplicit false

namespace Sysml

open Scope

def Value.IsName (value : Value) : Prop :=
  value = .null ∨ ∃ name, value = .text name

/-- The fields of a record have the types that they should have, and the id is not empty. -/
structure Record.Typed (record : Record) : Prop where
  id : ∃ id, id ≠ "" ∧ record.id = .text id
  name : record.name.IsName
  qualifiedName : record.qualifiedName.IsName
  owner : Key.IsName record.owner
  source : Key.IsName record.source
  target : Key.IsName record.target
  direction : ((record.property? "direction").getD (.text "")).isWritable = true
  visibility : ((record.property? "visibility").getD (.text "private")).isWritable = true

/-- The records have the fields that they should have, under different ids. -/
structure Document.Typed (document : Document) : Prop where
  ids : document.ids.Nodup
  records : ∀ record ∈ document.records, record.Typed
  external : ∀ entry ∈ document.externalRefs, ∃ name, entry.2 = .text name

def Document.fullName (document : Document) (record : Record) : Key :=
  (document.qualifiedNameOf record).toOption.getD (.text "")

def Document.ownerOf? (document : Document) (record : Record) : Option Record :=
  (Key.given? record.owner).bind document.last?

theorem Value.IsName.nameText? {value : Value} (isName : value.IsName) :
    ∃ name?, Document.nameText? value = .ok name? ∧ (value.isAbsent = true → name? = none) ∧
      ∀ name, name? = some name → name ≠ "" := by
  rcases isName with rfl | ⟨name, rfl⟩
  · exact ⟨none, rfl, fun _ => rfl, fun _ same => (by cases same)⟩
  · refine ⟨if name.isEmpty then none else some name, rfl, fun absent => if_pos absent, ?_⟩
    intro other same
    split at same
    · cases same
    · next some_ =>
      cases same
      simpa using some_

theorem intercalate_ne_empty {separator piece : String} {pieces : List String}
    (member : piece ∈ pieces) (some_ : piece ≠ "") : separator.intercalate pieces ≠ "" := by
  induction pieces with
  | nil => cases member
  | cons first rest ih =>
    cases rest with
    | nil =>
      cases List.mem_singleton.mp member
      rwa [String.intercalate_singleton]
    | cons second rest =>
      rw [String.intercalate_cons_of_ne_nil (List.cons_ne_nil second rest)]
      rcases List.mem_cons.mp member with rfl | later
      · simp [some_]
      · simp [ih later]

structure Document.TellsApart (document : Document) : Prop where
  ids : document.ids.Nodup
  texts : ∀ record ∈ document.records, ∃ id, record.id = .text id

namespace Document.TellsApart

variable {document : Document} {record other : Record} (apart : document.TellsApart)

include apart

theorem eq_of_id (member : record ∈ document.records) (otherIn : other ∈ document.records)
    (same : record.id = other.id) : record = other :=
  List.inj_on_of_nodup_map apart.ids member otherIn same

/-- Records of equal ids are one. -/
theorem eq_of_id_beq (member : record ∈ document.records) (otherIn : other ∈ document.records)
    (same : (record.id == other.id) = true) : record = other := by
  obtain ⟨id, isId⟩ := apart.texts record member
  obtain ⟨otherId, isOther⟩ := apart.texts other otherIn
  rw [isId, isOther, Key.text_beq] at same
  exact apart.eq_of_id member otherIn (by rw [isId, isOther, beq_iff_eq.mp same])

theorem last?_eq (member : record ∈ document.records) :
    document.last? record.id = some record := by
  obtain ⟨found, looked⟩ := Option.isSome_iff_exists.mp
    (List.find?_isSome.mpr ⟨record, List.mem_reverse.mpr member, BEq.rfl⟩ :
      (document.records.reverse.find? fun held => held.id == record.id).isSome = true)
  have inside := List.mem_reverse.mp (List.mem_of_find?_eq_some looked)
  have same : (found.id == record.id) = true := by simpa using List.find?_some looked
  rw [Document.last?, looked, apart.eq_of_id_beq inside member same]

end Document.TellsApart

namespace Document.Typed

variable {document : Document} {record other : Record} (typed : document.Typed)

include typed

theorem id_text (member : record ∈ document.records) :
    ∃ id, id ≠ "" ∧ record.id = .text id :=
  (typed.records record member).id

theorem id_given (member : record ∈ document.records) :
    Key.given? (some record.id) = some record.id := by
  obtain ⟨id, someId, same⟩ := typed.id_text member
  rw [same]
  simp [Key.given?, Key.isAbsent, Value.isAbsent, Key.text, someId]

theorem tellsApart : document.TellsApart where
  ids := typed.ids
  texts record member := by
    obtain ⟨id, _, isId⟩ := typed.id_text member
    exact ⟨id, isId⟩

theorem eq_of_id (member : record ∈ document.records) (otherIn : other ∈ document.records)
    (same : record.id = other.id) : record = other :=
  typed.tellsApart.eq_of_id member otherIn same

/-- Records of equal ids are one. -/
theorem eq_of_id_beq (member : record ∈ document.records) (otherIn : other ∈ document.records)
    (same : (record.id == other.id) = true) : record = other :=
  typed.tellsApart.eq_of_id_beq member otherIn same

theorem last?_eq (member : record ∈ document.records) :
    document.last? record.id = some record :=
  typed.tellsApart.last?_eq member

omit typed in
theorem mem_of_last? {id : Key} (found : document.last? id = some record) :
    record ∈ document.records :=
  List.mem_reverse.mp (List.mem_of_find?_eq_some found)

omit typed in
theorem mem_of_ownerOf? (owned : document.ownerOf? record = some other) :
    other ∈ document.records := by
  obtain ⟨id, _, found⟩ := Option.bind_eq_some_iff.mp owned
  exact mem_of_last? found

/-- The climb to the owners ends well. -/
theorem climb_ok (fuel : Nat) (seen : List Key) (member : record ∈ document.records) :
    ∃ names, document.climb fuel seen record = .ok names := by
  induction fuel generalizing seen record with
  | zero => exact ⟨[], rfl⟩
  | succ fuel ih =>
    have isTyped := typed.records record member
    obtain ⟨qualified?, qualified, _⟩ := isTyped.qualifiedName.nameText?
    obtain ⟨id, _, isId⟩ := isTyped.id
    obtain ⟨name?, named, _⟩ := isTyped.name.nameText?
    have idText : nameText? record.id.value = .ok (if id.isEmpty then none else some id) := by
      rw [isId]
      rfl
    rw [climb]
    split
    · exact ⟨[], rfl⟩
    · rw [qualified, ok_bind]
      cases qualified? with
      | some name => exact ⟨[name], rfl⟩
      | none =>
        dsimp only
        rw [idText, ok_bind, named, ok_bind]
        cases owned : (Key.given? record.owner).bind document.last? with
        | none => exact ⟨_, rfl⟩
        | some owner =>
          obtain ⟨names, climbed⟩ := ih (record.id :: seen) (mem_of_ownerOf? owned)
          dsimp only
          rw [climbed]
          exact ⟨_, rfl⟩

/-- Each record has a qualified name, which is not empty. -/
theorem fullName_text (member : record ∈ document.records) :
    document.qualifiedNameOf record = .ok (document.fullName record) ∧
      ∃ name, name ≠ "" ∧ document.fullName record = .text name := by
  have isTyped := typed.records record member
  obtain ⟨qualified?, qualified, absent, _⟩ := isTyped.qualifiedName.nameText?
  suffices some_ : ∃ name, name ≠ "" ∧ document.qualifiedNameOf record = .ok (.text name) by
    obtain ⟨name, someName, same⟩ := some_
    have isName : document.fullName record = .text name := by rw [fullName, same]; rfl
    exact ⟨same.trans (congrArg Except.ok isName.symm), name, someName, isName⟩
  unfold qualifiedNameOf
  split
  · next isAbsent =>
    obtain ⟨id, someId, isId⟩ := isTyped.id
    obtain ⟨name?, named, _, someName⟩ := isTyped.name.nameText?
    have idText : nameText? record.id.value = .ok (some id) := by
      rw [isId]
      simp [nameText?, someId]
    have climbed : ∃ rest,
        document.climb (document.records.length + 1) [] record = .ok (name?.getD id :: rest) := by
      rw [climb, qualified, absent isAbsent]
      simp only [List.contains_nil, Bool.false_eq_true, ↓reduceIte]
      rw [ok_bind]
      dsimp only
      rw [idText, ok_bind, named, ok_bind]
      cases owned : (Key.given? record.owner).bind document.last? with
      | none => exact ⟨[], rfl⟩
      | some owner =>
        obtain ⟨names, climbed⟩ :=
          typed.climb_ok document.records.length [record.id] (mem_of_ownerOf? owned)
        dsimp only
        rw [climbed]
        exact ⟨names, rfl⟩
    obtain ⟨rest, climbed⟩ := climbed
    rw [climbed, ok_bind]
    have firstSome : name?.getD id ≠ "" := by
      cases name? with
      | none => exact someId
      | some name => exact someName name rfl
    refine ⟨_, intercalate_ne_empty ?_ firstSome, rfl⟩
    simp
  · next given =>
    rcases isTyped.qualifiedName with missing | ⟨name, isText⟩
    · rw [missing] at given
      exact absurd rfl given
    · rw [isText] at given ⊢
      exact ⟨name, by simpa [Value.isAbsent] using given, rfl⟩

end Document.Typed

end Sysml
