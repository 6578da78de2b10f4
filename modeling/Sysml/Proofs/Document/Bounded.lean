import Mathlib.Data.List.Perm.Subperm
import Sysml.Proofs.Document.Decompiled
import Sysml.Proofs.Notation.Layout

/-!
# No more symbols than elements

The source text of a document has a declaration or a note for each element that it comes to from
the top, and it comes to none twice where no two have one id. Where no name, target or note breaks
its line, reading the text back gives no fault and no more symbols than there are elements
(`Contained.sourceText_symbols`): whatever else their texts hold, it declares nothing.
-/

set_option autoImplicit false

namespace Sysml.Document

open Notation

variable {document : Document} {record : Record}

/-! ## How many elements are written -/

/-- How many elements there are below some, these included, down to a depth. -/
def weight (document : Document) : Nat → List Record → Nat
  | 0, _ => 0
  | bound + 1, records =>
      records.length +
        document.weight bound (records.flatMap fun record => document.below (some record.id))

theorem weight_append (bound : Nat) (records others : List Record) :
    document.weight bound (records ++ others) =
      document.weight bound records + document.weight bound others := by
  induction bound generalizing records others with
  | zero => rfl
  | succ bound ih =>
    rw [weight, weight, weight, List.flatMap_append, ih, List.length_append]
    omega

theorem mem_below_iff (id : Key) :
    record ∈ document.below (some id) ↔
      record ∈ document.elements ∧ ∃ key, document.parentOf record = some key ∧ key == id := by
  rw [below, List.mem_filter]
  refine and_congr_right fun _ => ?_
  cases document.parentOf record <;> simp

theorem mem_below_none :
    record ∈ document.below none ↔
      record ∈ document.elements ∧ document.parentOf record = none := by
  rw [below, List.mem_filter]
  refine and_congr_right fun _ => ?_
  cases document.parentOf record <;> simp

def IsDistinct (document : Document) : Prop :=
  (document.elements.map fun record => record.id.code).Nodup

namespace IsDistinct

variable (distinct : document.IsDistinct)

include distinct

theorem eq_of_id {other : Record} (first : record ∈ document.elements)
    (second : other ∈ document.elements) (same : record.id == other.id) : record = other :=
  List.inj_on_of_nodup_map distinct first second ((Key.beq_iff _ _).mp same)

theorem nodup : document.elements.Nodup :=
  List.Nodup.of_map _ distinct

end IsDistinct

/-- Elements above a level and on it: none stands there twice, and what is not at the top stands
below one above the level. -/
structure Layered (document : Document) (above level : List Record) : Prop where
  listed : above ++ level ⊆ document.elements
  apart : (above ++ level).Nodup
  owned : ∀ record ∈ above ++ level, ∀ key, document.parentOf record = some key →
    ∃ owner ∈ above, key == owner.id

namespace Layered

variable {above level : List Record}

/-- What stands below a level is the next one. -/
theorem next (distinct : document.IsDistinct) (layered : document.Layered above level) :
    document.Layered (above ++ level)
      (level.flatMap fun record => document.below (some record.id)) where
  listed := by
    refine List.append_subset.mpr ⟨layered.listed, fun record listed => ?_⟩
    obtain ⟨owner, _, inside⟩ := List.mem_flatMap.mp listed
    exact below_subset document _ inside
  apart := by
    have ofLevel {owner : Record} (onLevel : owner ∈ level) : owner ∈ document.elements :=
      layered.listed (List.mem_append_right above onLevel)
    refine List.nodup_append'.mpr ⟨layered.apart, ?_, fun record before later => ?_⟩
    · refine List.nodup_flatMap.mpr ⟨fun owner _ => distinct.nodup.filter _, ?_⟩
      refine (List.nodup_append'.mp layered.apart).2.1.imp_of_mem
        fun first second apart record belowFirst belowSecond => apart ?_
      obtain ⟨_, key, isKey, isFirst⟩ := (mem_below_iff _).mp belowFirst
      obtain ⟨_, other, isOther, isSecond⟩ := (mem_below_iff _).mp belowSecond
      cases Option.some.inj (isKey.symm.trans isOther)
      exact distinct.eq_of_id (ofLevel first) (ofLevel second)
        (BEq.trans (BEq.symm isFirst) isSecond)
    · obtain ⟨owner, onLevel, inside⟩ := List.mem_flatMap.mp later
      obtain ⟨_, key, isKey, isOwner⟩ := (mem_below_iff _).mp inside
      obtain ⟨other, isAbove, isOther⟩ := layered.owned record before key isKey
      have same : owner = other :=
        distinct.eq_of_id (ofLevel onLevel) (layered.listed (List.mem_append_left level isAbove))
          (BEq.trans (BEq.symm isOwner) isOther)
      exact (List.nodup_append'.mp layered.apart).2.2 isAbove (same ▸ onLevel)
  owned record listed key isKey := by
    rcases List.mem_append.mp listed with before | later
    · obtain ⟨owner, isAbove, isOwner⟩ := layered.owned record before key isKey
      exact ⟨owner, List.mem_append_left level isAbove, isOwner⟩
    · obtain ⟨owner, onLevel, inside⟩ := List.mem_flatMap.mp later
      obtain ⟨_, other, isOther, isOwner⟩ := (mem_below_iff _).mp inside
      cases Option.some.inj (isKey.symm.trans isOther)
      exact ⟨owner, List.mem_append_right above onLevel, isOwner⟩

/-- From level to level no element is counted twice. -/
theorem weight_le (distinct : document.IsDistinct) (bound : Nat)
    (layered : document.Layered above level) :
    above.length + document.weight bound level ≤ document.elements.length := by
  -- What is on the level is above the next one, so the elements met so far stay apart.
  induction bound generalizing above level with
  | zero =>
    have whole := (List.Nodup.subperm layered.apart layered.listed).length_le
    rw [List.length_append] at whole
    exact Nat.le_trans (Nat.le_add_right ..) whole
  | succ bound ih =>
    have further := ih (layered.next distinct)
    rw [List.length_append] at further
    rw [weight]
    omega

end Layered

/-- The elements at the top and all below them are no more than there are. -/
theorem weight_roots_le (distinct : document.IsDistinct) (bound : Nat) :
    document.weight bound (document.below none) ≤ document.elements.length := by
  have layered : document.Layered [] (document.below none) := by
    refine ⟨below_subset document none, distinct.nodup.filter _, fun record root key isKey => ?_⟩
    rw [(mem_below_none.mp root).2] at isKey
    cases isKey
  simpa using layered.weight_le distinct bound

/-! ## What is written of an element -/

/-- An element is written as a declaration: it has a name, and its kind is known. -/
def IsDeclared (record : Record) : Prop :=
  record.name.isAbsent = false ∧ SymbolKind.ofMetaclass record.kind ≠ .element

/-- No text of an element breaks the line that it is written on: its names and the targets of its
references and imports, or what a note says of it. Its direction is one of the notation's. -/
structure Unbroken (document : Document) (record : Record) : Prop where
  name : ∀ name, record.name = .text name → IsUnbroken name
  id : record.name.isAbsent = true → IsUnbroken record.id.display
  kind : ¬ IsDeclared record → IsUnbroken record.kind
  shortName : IsDeclared record → ∀ name, record.shortName = .text name → IsUnbroken name
  direction : IsDeclared record → record.IsDirected
  targets : IsDeclared record → ∀ relation ∈ document.relationshipsOf record.id,
    Record.isRelationshipKind relation.kind = true → IsUnbroken (document.targetPath relation)

/-- A document whose elements differ by their ids, none with a text that breaks its line. -/
structure Contained (document : Document) : Prop extends document.Textual where
  distinct : document.IsDistinct
  unbroken : ∀ record ∈ document.elements, document.Unbroken record

/-- A note of an element leaves no token. -/
theorem note_spells {kind name : String} (unbrokenKind : IsUnbroken kind)
    (unbroken : IsUnbroken name) (depth : Nat) :
    Spells anyNext (lineChars [indentation depth ++ "// " ++ kind ++ " " ++ name]) [] := by
  have isNote : ("// " ++ kind ++ " " ++ name).toList =
      '/' :: '/' :: (' ' :: kind.toList ++ ' ' :: name.toList) := by
    simp [String.toList_append]
  have spelled : Spells (· = '\n') ("// " ++ kind ++ " " ++ name).toList [] := by
    rw [isNote]
    refine spells_note fun feed => ?_
    simp only [List.cons_append, List.mem_cons, List.mem_append] at feed
    rcases feed with feed | inKind | feed | inName
    · exact absurd feed (by decide)
    · exact unbrokenKind inKind
    · exact absurd feed (by decide)
    · exact unbroken inName
  have line := indented_spells depth spelled rfl
  rwa [indented, ← String.append_assoc, ← String.append_assoc, ← String.append_assoc] at line

/-- An element that is not declared is written as a note. -/
theorem elementLines_note (textual : record.Textual) (unbroken : document.Unbroken record)
    (undeclared : ¬ IsDeclared record) (bound depth : Nat) :
    ∃ lines, document.elementLines (bound + 1) depth record = .ok lines ∧
      Spells anyNext (lineChars lines) [] := by
  cases unnamed : record.name.isAbsent with
  | true =>
    refine ⟨_, ?_, note_spells (unbroken.kind undeclared) (unbroken.id unnamed) depth⟩
    simp [elementLines, unnamed, pure, Except.pure]
  | false =>
    have isName := textual.name.text?_getD unnamed
    have unknown : keyword? (SymbolKind.ofMetaclass record.kind) = none := by
      rw [not_not.mp fun known => undeclared ⟨unnamed, known⟩]
      rfl
    have isText : record.name.toText = .ok (record.name.text?.getD "") := by
      rw [isName]
      rfl
    refine ⟨_, ?_, note_spells (unbroken.kind undeclared) (unbroken.name _ isName) depth⟩
    simp [elementLines, unnamed, unknown, isText, ok_bind, pure, Except.pure]

/-- What an element that is declared says is written unbroken. -/
theorem Unbroken.entry (unbroken : document.Unbroken record) (textual : record.Textual)
    (declared : IsDeclared record) : (document.entryOf record).IsUnbroken where
  directed := titleOf_isDirected (unbroken.direction declared)
  title := ⟨unbroken.name _ (textual.name.text?_getD declared.1),
    titleOf_shortName (by decide) textual.shortName (unbroken.shortName declared),
    titleOf_targets (unbroken.targets declared)⟩
  doc := entryOf_doc
  imports := entryOf_imports (unbroken.targets declared)

/-! ## Elements in blocks -/

/-- The lines are those of whole declarations, with so many symbols at most. -/
def AreBlock (lines : List String) (count : Nat) : Prop :=
  ∃ tokens, Spells anyNext (lineChars lines) tokens ∧ Block tokens count

theorem AreBlock.append {lines more : List String} {count further : Nat}
    (block : AreBlock lines count) (second : AreBlock more further) :
    AreBlock (lines ++ more) (count + further) := by
  obtain ⟨tokens, spells, isBlock⟩ := block
  obtain ⟨others, spellsMore, areOthers⟩ := second
  refine ⟨tokens ++ others, ?_, isBlock.append areOthers⟩
  rw [lineChars_append]
  exact spells.append_any spellsMore

/-- Elements one after the other are a block if each is one. -/
theorem areBlock_each {bound depth : Nat} {records : List Record}
    (each : ∀ record ∈ records, ∃ lines, document.elementLines bound depth record = .ok lines ∧
      AreBlock lines (document.weight bound [record])) :
    ∃ nested, records.mapM (document.elementLines bound depth) = .ok nested ∧
      AreBlock nested.flatten (document.weight bound records) := by
  induction records with
  | nil => exact ⟨[], rfl, [], .nil, Block.nil.mono (Nat.zero_le _)⟩
  | cons record rest ih =>
    obtain ⟨⟨lines, written, block⟩, others⟩ := List.forall_mem_cons.mp each
    obtain ⟨nested, writtenRest, blockRest⟩ := ih others
    refine ⟨lines :: nested, ?_, ?_⟩
    · rw [List.mapM_cons, written, ok_bind, writtenRest]
      rfl
    · rw [List.flatten_cons, ← List.singleton_append, weight_append]
      exact block.append blockRest

/-- A declared element is a block if what stands below it is one. -/
theorem areBlock_declared {lines : List String} {count : Nat} (unbroken : document.Unbroken record)
    (textual : record.Textual) (declared : IsDeclared record) (depth : Nat) {bare : Bool}
    (isBare : bare = true → Outline.isBare (document.entryOf record) .nil = true)
    (members : AreBlock lines count) :
    AreBlock ((document.entryOf record).lines bare depth lines) (count + 1) := by
  obtain ⟨tokens, spells, block⟩ := members
  have entry := unbroken.entry textual declared
  refine ⟨_, Entry.spells entry bare depth spells, ?_⟩
  refine @Block.declaration _ _ (document.entryOf record).escaped declared.2 entry.directed
    (fun clause listed => ?_) block _ fun none_ => ?_
  · obtain ⟨before, isClause, rfl⟩ := List.mem_map.mp listed
    simpa using (Entries.mem_grouped isClause).1
  · simpa [Outline.isBare, Entry.escaped] using isBare none_

/-- An element with all below it is a block, which has as many symbols as there are elements at
most. -/
theorem Contained.areBlock (contained : document.Contained) (bound depth : Nat)
    (member : record ∈ document.elements) :
    ∃ lines, document.elementLines bound depth record = .ok lines ∧
      AreBlock lines (document.weight bound [record]) := by
  induction bound generalizing depth record with
  | zero => exact ⟨[], rfl, [], .nil, .nil⟩
  | succ bound ih =>
    have textual := contained.records record (elements_subset document member)
    have unbroken := contained.unbroken record member
    by_cases declared : IsDeclared record
    · obtain ⟨nested, inside, block⟩ :=
        @areBlock_each document bound (depth + 1) (document.below (some record.id))
          fun inner isBelow => ih (depth + 1) (below_subset document _ isBelow)
      refine ⟨_, contained.toTextual.elementLines_eq member declared.2 declared.1
        (unbroken.direction declared) inside, ?_⟩
      rw [weight, List.flatMap_singleton, List.length_singleton, Nat.add_comm]
      exact areBlock_declared unbroken textual declared depth
        (fun isBare => (Bool.and_eq_true_iff.mp isBare).2) block
    · obtain ⟨lines, written, spells⟩ := elementLines_note textual unbroken declared bound depth
      exact ⟨lines, written, [], spells, Block.nil.mono (Nat.zero_le _)⟩

/-- Reading back the source text of a document whose texts break no line gives no fault, and no
more symbols than the document has elements. -/
theorem Contained.sourceText_symbols (contained : document.Contained) :
    ∃ text, document.sourceText = .ok text ∧ ∀ file isLibrary,
      (parse file text isLibrary).diagnostics = [] ∧
        (parse file text isLibrary).symbols.length ≤ document.elements.length := by
  obtain ⟨nested, written, tokens, spells, block⟩ :=
    areBlock_each fun record root =>
      contained.areBlock (document.records.length + 1) 0 (below_subset document none root)
  refine ⟨_, by rw [sourceText, written, ok_bind]; rfl, fun file isLibrary => ?_⟩
  have bounded := block.mono (weight_roots_le contained.distinct _)
  refine parse_block ?_ bounded file isLibrary
  rw [String.toList_join, List.flatMap_map]
  simpa [lineChars] using spells

/-- A package whose name and documentation hold what would end them. -/
def quotedPackage : Record :=
  { id := "p", kind := "Package", name := .text "it's; \x7d part def A; \\"
    doc := .text "*/ part def B; /*" }

def unknownElement : Record :=
  { id := "q", kind := "Foo \x7b", name := .text "part def C;", owner := some "p" }

def looseUsage : Record :=
  { id := "u", kind := "Usage", name := .text "loose", shortName := .text "l", owner := some "p" }

/-- A definition below it, of which nothing is read. -/
def hiddenDefinition : Record :=
  { id := "d", kind := "PartDefinition", name := .text "Hidden", owner := some "u" }

def looseTyping : Record :=
  { id := "t", kind := "FeatureTyping", owner := some "u", source := some "u", target := some "x" }

def quotedDocument : Document where
  records := [quotedPackage, unknownElement, looseUsage, hiddenDefinition, looseTyping]
  externalRefs := [("x", "'::\"; part e;")]

theorem quotedDocument_elements :
    quotedDocument.elements = [quotedPackage, unknownElement, looseUsage, hiddenDefinition] := rfl

theorem quotedDocument_contained : quotedDocument.Contained where
  records := by
    simp only [quotedDocument, List.forall_mem_cons]
    refine ⟨?_, ?_, ?_, ?_, ?_, by simp⟩
    all_goals
      constructor <;>
        simp [quotedPackage, unknownElement, looseUsage, hiddenDefinition, looseTyping, Key.IsName,
          Value.IsName, Key.text]
  external := by simp [quotedDocument, Key.text]
  distinct := by
    rw [IsDistinct, quotedDocument_elements]
    decide
  unbroken := by
    have loose : quotedDocument.relationshipsOf looseUsage.id = [looseTyping] := rfl
    have target : IsUnbroken (quotedDocument.targetPath looseTyping) := by decide
    simp only [quotedDocument_elements, List.forall_mem_cons]
    refine ⟨?_, ?_, ?_, ?_, by simp⟩
    · constructor
      · rintro name ⟨⟩; decide
      · exact fun unnamed => absurd unnamed (by decide)
      · exact fun _ => by decide
      · rintro _ name ⟨⟩
      · exact fun _ => .inl rfl
      · rintro _ relation ⟨⟩
    · constructor
      · rintro name ⟨⟩; decide
      · exact fun unnamed => absurd unnamed (by decide)
      · exact fun _ => by decide
      · rintro _ name ⟨⟩
      · exact fun _ => .inl rfl
      · rintro _ relation ⟨⟩
    · constructor
      · rintro name ⟨⟩; decide
      · exact fun unnamed => absurd unnamed (by decide)
      · exact fun _ => by decide
      · rintro _ name ⟨⟩; decide
      · exact fun _ => .inl rfl
      · rw [loose]
        simpa using fun _ _ => target
    · constructor
      · rintro name ⟨⟩; decide
      · exact fun unnamed => absurd unnamed (by decide)
      · exact fun _ => by decide
      · rintro _ name ⟨⟩
      · exact fun _ => .inl rfl
      · rintro _ relation ⟨⟩

/-- The package with what is in it is read back as no more symbols than its four elements. -/
theorem quotedDocument_symbols :
    quotedDocument.Contained ∧
      ∃ text, quotedDocument.sourceText = .ok text ∧ ∀ file isLibrary,
        (parse file text isLibrary).diagnostics = [] ∧
          (parse file text isLibrary).symbols.length ≤ quotedDocument.elements.length :=
  ⟨quotedDocument_contained, quotedDocument_contained.sourceText_symbols⟩

/-- The text of the document is read back with more symbols than the document has elements. -/
def Overflows (document : Document) : Prop :=
  document.Textual ∧ ∃ text, document.sourceText = .ok text ∧
    document.elements.length < (parse "m.sysml" text false).symbols.length

theorem Overflows.of_count {count : Nat} (textual : document.Textual)
    (counted : document.sourceText.toOption.map
      (fun text => (parse "m.sysml" text false).symbols.length) = some count)
    (more : document.elements.length < count) : document.Overflows := by
  obtain ⟨text, written, rfl⟩ := Option.map_eq_some_iff.mp counted
  exact ⟨textual, text, toOption_eq_some.mp written, more⟩

def brokenPackage : Record :=
  { id := "n", kind := "Package", name := .text "\npart def A; part def B;" }

def directedUsage : Record :=
  { id := "d", kind := "PartUsage", name := .text "b"
    properties := [(.text "direction", .text "part a; in")] }

/-- A line feed ends the note that the kind stands in. -/
def brokenNote : Record :=
  { id := "k", kind := "Mystery\npart a; part b;", name := .text "c" }

def twinPackage (name : String) : Record :=
  { id := "p", kind := "Package", name := .text name }

def sharedPart : Record :=
  { id := "s", kind := "PartUsage", name := .text "s", owner := some "p" }

/-- A line feed in a name or in a note, a direction that is none, and an id that two elements
share each make more symbols than there are elements. -/
theorem broken_overflow :
    Overflows ⟨[brokenPackage], [], []⟩ ∧ Overflows ⟨[directedUsage], [], []⟩ ∧
      Overflows ⟨[brokenNote], [], []⟩ ∧
      Overflows ⟨[twinPackage "P", twinPackage "Q", sharedPart], [], []⟩ := by
  have texts : ∀ record ∈ [brokenPackage, directedUsage, brokenNote, twinPackage "P",
      twinPackage "Q", sharedPart], record.Textual := by
    simp only [List.forall_mem_cons]
    refine ⟨?_, ?_, ?_, ?_, ?_, ?_, by simp⟩
    all_goals
      constructor <;>
        simp [brokenPackage, directedUsage, brokenNote, twinPackage, sharedPart, Key.IsName,
          Value.IsName]
  have textual (records : List Record) (among : records ⊆ [brokenPackage, directedUsage,
      brokenNote, twinPackage "P", twinPackage "Q", sharedPart]) :
      Textual ⟨records, [], []⟩ :=
    ⟨fun record listed => texts record (among listed), fun _ none_ => by cases none_⟩
  refine ⟨.of_count (textual _ (by simp)) (?_ : _ = some 2) (by decide),
    .of_count (textual _ (by simp)) (?_ : _ = some 2) (by decide),
    .of_count (textual _ (by simp)) (?_ : _ = some 2) (by decide),
    .of_count (textual _ (by simp)) (?_ : _ = some 4) (by decide)⟩
  all_goals decide +kernel

end Sysml.Document
