import Sysml.Xml.Printer
import Sysml.Xml.Reader

/-!
# XML as it is written

A tree that is written on indented lines is read with white space between its elements, so it is
told up to the text of elements that have elements inside (`alike`). Whether there is a text at
all depends on the names alone (`render?_isSome`).
-/

set_option autoImplicit false

namespace Sysml.Xml

def contents (attributes : List (String × AttributeValue)) : List (String × String) :=
  attributes.map fun entry => (entry.1, entry.2.content)

mutual

def alike : Element → Element → Bool
  | .node name attributes text children, .node other others plain inner =>
      name == other && contents attributes == contents others &&
        (!inner.isEmpty || text == plain) && allAlike children inner

def allAlike : List Element → List Element → Bool
  | [], [] => true
  | element :: rest, other :: others => alike element other && allAlike rest others
  | _, _ => false

end

/-- The tree is read back from its text, up to the text between elements. -/
def Carries (known : List (String × String)) (root : Element) : Prop :=
  ∀ text, render? known root = some text →
    ∃ read, Xml.read text.toUTF8.toList = .ok read ∧ alike read root = true

theorem lookup_contents (key : String) (attributes : List (String × AttributeValue)) :
    (contents attributes).lookup key = (attributes.lookup key).map AttributeValue.content := by
  induction attributes with
  | nil => rfl
  | cons entry rest ih =>
    change List.lookup key ((entry.1, entry.2.content) :: contents rest) = _
    rw [List.lookup_cons, List.lookup_cons]
    cases key == entry.1 with
    | true => rfl
    | false => exact ih

section Alike

variable {element other : Element} (same : alike element other = true)

include same

theorem alike_name : element.name = other.name := by
  cases element
  cases other
  simp only [alike, Bool.and_eq_true, beq_iff_eq] at same
  exact same.1.1.1

theorem alike_contents : contents element.attributes = contents other.attributes := by
  cases element
  cases other
  simp only [alike, Bool.and_eq_true, beq_iff_eq] at same
  exact same.1.1.2

theorem alike_attribute? (key : String) : element.attribute? key = other.attribute? key := by
  rw [Element.attribute?, Element.attribute?, ← lookup_contents, ← lookup_contents,
    alike_contents same]

theorem alike_text (leaf : other.children = []) : element.text = other.text := by
  cases element
  cases other
  simp only [Element.children] at leaf
  subst leaf
  simp only [alike, Bool.and_eq_true, beq_iff_eq, List.isEmpty_nil, Bool.not_true,
    Bool.false_or] at same
  exact same.1.2

theorem alike_children : allAlike element.children other.children = true := by
  cases element
  cases other
  simp only [alike, Bool.and_eq_true] at same
  exact same.2

end Alike

/-! ## Names -/

theorem noBrace_reverse {label : String} (plain : '\x7d' ∉ label.toList) :
    ∀ c ∈ label.toList.reverse, (c != '\x7d') = true := by
  intro c listed
  have apart : c ≠ '\x7d' := fun same => plain (same ▸ List.mem_reverse.mp listed)
  simpa using apart

/-- The end of a name after its last closing brace is the name without its namespace. -/
theorem localName_qualified {label : String} (plain : '\x7d' ∉ label.toList) (space : String) :
    localName (qualified space label) = label := by
  have chars : (qualified space label).toList.reverse =
      label.toList.reverse ++ '\x7d' :: ("\x7b" ++ space).toList.reverse := by
    simp [qualified]
  rw [localName, chars, List.takeWhile_append_of_pos (noBrace_reverse plain),
    List.takeWhile_cons_of_neg (by simp), List.append_nil, List.reverse_reverse,
    String.ofList_toList]

theorem localName_plain {label : String} (plain : '\x7d' ∉ label.toList) :
    localName label = label := by
  have whole : label.toList.reverse.takeWhile (· != '\x7d') = label.toList.reverse := by
    rw [← List.append_nil label.toList.reverse,
      List.takeWhile_append_of_pos (noBrace_reverse plain), List.takeWhile_nil]
  rw [localName, whole, List.reverse_reverse, String.ofList_toList]

mutual

def names : Element → List String
  | .node name attributes _ children => name :: attributes.map (·.1) ++ allNames children

def allNames : List Element → List String
  | [] => []
  | element :: rest => names element ++ allNames rest

end

theorem allNames_eq (elements : List Element) : allNames elements = elements.flatMap names := by
  induction elements with
  | nil => rfl
  | cons element rest ih => rw [allNames, ih, List.flatMap_cons]

/-- The name has an end of its namespace, if it has a namespace. -/
def IsSplit (name : String) : Prop :=
  (splitName name).isSome = true

variable (known : List (String × String))

theorem useName_isSome {name : String} (split_ : IsSplit name) (used : List (String × String)) :
    ∃ after, useName known used name = some after := by
  obtain ⟨parts, isParts⟩ := Option.isSome_iff_exists.mp split_
  obtain ⟨space?, label⟩ := parts
  unfold useName
  rw [isParts]
  simp only [Option.bind_eq_bind, Option.bind_some]
  cases space? with
  | none => exact ⟨used, rfl⟩
  | some space => dsimp only; split <;> exact ⟨_, rfl⟩

theorem useNames_isSome {names : List String} (split_ : ∀ name ∈ names, IsSplit name)
    (used : List (String × String)) :
    ∃ after, names.foldlM (useName known) used = some after := by
  induction names generalizing used with
  | nil => exact ⟨used, rfl⟩
  | cons name rest ih =>
    obtain ⟨first, others⟩ := List.forall_mem_cons.mp split_
    obtain ⟨next, isNext⟩ := useName_isSome known first used
    obtain ⟨after, isAfter⟩ := ih others next
    exact ⟨after, by rw [List.foldlM_cons, isNext]; exact isAfter⟩

mutual

theorem useElement_isSome : ∀ (element : Element), (∀ name ∈ names element, IsSplit name) →
    ∀ used, ∃ after, useElement known used element = some after
  | .node name attributes text children, split_, used => by
    rw [names, List.cons_append, List.forall_mem_cons, List.forall_mem_append] at split_
    obtain ⟨own, isOwn⟩ := useName_isSome known split_.1 used
    obtain ⟨inner, isInner⟩ := useNames_isSome known split_.2.1 own
    obtain ⟨after, isAfter⟩ := useElements_isSome children split_.2.2 inner
    refine ⟨after, ?_⟩
    rw [useElement, isOwn]
    change ((attributes.map (·.1)).foldlM (useName known) own).bind _ = _
    rw [isInner]
    exact isAfter

theorem useElements_isSome : ∀ (elements : List Element),
    (∀ name ∈ allNames elements, IsSplit name) →
    ∀ used, ∃ after, useElements known used elements = some after
  | [], _, used => ⟨used, rfl⟩
  | element :: rest, split_, used => by
    rw [allNames, List.forall_mem_append] at split_
    obtain ⟨next, isNext⟩ := useElement_isSome element split_.1 used
    obtain ⟨after, isAfter⟩ := useElements_isSome rest split_.2 next
    refine ⟨after, ?_⟩
    rw [useElements, isNext]
    exact isAfter

end

/-- A tree has a text if its names are such. -/
theorem render?_isSome {root : Element} (split_ : ∀ name ∈ names root, IsSplit name) :
    ∃ text, render? known root = some text := by
  obtain ⟨used, isUsed⟩ := useElement_isSome (known ++ wellKnown) root split_ []
  simp only [render?, isUsed, Option.bind_eq_bind, Option.bind_some]
  exact ⟨_, rfl⟩

end Sysml.Xml
