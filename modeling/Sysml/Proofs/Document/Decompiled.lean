import Sysml.Proofs.Document.Outlined

/-!
# Reading back the source text of a document

The source text of a document is the text of an outline: its elements below their owners.
Reading it gives one symbol for each element, in the order of a walk from owners to what they
own, with what the element says, and no fault (`Legible.sourceText_parse`).
-/

set_option autoImplicit false

namespace Sysml

/-! ## Documentation does not end its comment -/

namespace Document

open Notation

theorem guardComment_head {text : List Char} (rest : List Char)
    (noSlash : text.head? ≠ some '/') :
    (guardComment text ++ ' ' :: rest).head? ≠ some '/' := by
  fun_cases guardComment text with
  | case1 => simp
  | case2 => simp
  | case3 c tail => simpa using noSlash

theorem commentEnd?_cons {c : Char} {text : List Char}
    (apart : c = '*' → text.head? ≠ some '/') :
    commentEnd? (c :: text) = (commentEnd? text).map fun (taken, rest) => (c :: taken, rest) := by
  rw [commentEnd?]
  rintro tail rfl rfl
  exact apart rfl rfl

/-- The first end of a comment is behind the documentation in it. -/
theorem commentEnd?_guarded (text rest : List Char) :
    commentEnd? (guardComment text ++ ' ' :: '*' :: '/' :: rest) =
      some (guardComment text ++ [' ', '*', '/'], rest) := by
  fun_induction guardComment text with
  | case1 => rfl
  | case2 tail ih =>
    rw [List.cons_append, commentEnd?_cons (by simp), List.cons_append, commentEnd?_cons (by simp),
      List.cons_append, commentEnd?_cons (by simp), ih]
    rfl
  | case3 c tail apart ih =>
    have noEnd : c = '*' → (guardComment tail ++ ' ' :: '*' :: '/' :: rest).head? ≠ some '/' := by
      intro star
      refine guardComment_head _ fun slash => ?_
      obtain ⟨others, rfl⟩ := List.head?_eq_some_iff.mp slash
      exact apart others star rfl
    rw [List.cons_append, commentEnd?_cons noEnd, ih]
    rfl

theorem staysOpen_guarded (text : List Char) : StaysOpen (String.ofList (guardComment text)) := by
  intro rest
  have whole := commentEnd?_guarded text rest
  rw [String.toList_ofList, List.cons_append, commentEnd?_cons (by simp), whole]
  rfl

/-! ## Elements as an outline -/

/-- Elements with what stands below them, as declarations; those that have too many above them
are left out. -/
def outlineOf (document : Document) : Nat → List Record → Outline
  | 0, _ => .nil
  | bound + 1, records =>
      records.foldr (fun record after =>
        .node (document.entryOf record) (document.outlineOf bound (document.below (some record.id)))
          after) .nil

variable {document : Document} {record : Record}

theorem outlineOf_cons (bound : Nat) (record : Record) (rest : List Record) :
    document.outlineOf (bound + 1) (record :: rest) =
      .node (document.entryOf record) (document.outlineOf bound (document.below (some record.id)))
        (document.outlineOf (bound + 1) rest) := rfl

theorem outlineOf_eq_nil {bound : Nat} {records : List Record}
    (shallow : document.IsShallow bound records) :
    document.outlineOf bound records = .nil ↔ records = [] := by
  cases bound with
  | zero => simp [outlineOf, show records = [] from shallow]
  | succ bound =>
    cases records with
    | nil => simp [outlineOf]
    | cons record rest => simp [outlineOf_cons]

/-- A walk meets elements in the order of their symbols. -/
theorem outlineOf_walk {bound : Nat} {records : List Record} (place : Option String)
    (shallow : document.IsShallow bound records) :
    ∃ walk, Walk document (fun record => (document.titleOf record).name) place records walk ∧
      ∀ file isLibrary, (document.outlineOf bound records).symbols file isLibrary place =
        walk.map fun met => (document.entryOf met.2).symbol file isLibrary met.1 := by
  induction bound generalizing records place with
  | zero =>
    cases (show records = [] from shallow)
    exact ⟨[], .nil place, fun _ _ => rfl⟩
  | succ bound ihBelow =>
    induction records with
    | nil => exact ⟨[], .nil place, fun _ _ => rfl⟩
    | cons record rest ihAfter =>
      obtain ⟨first, others⟩ := List.forall_mem_cons.mp shallow
      obtain ⟨inner, walkBelow, below⟩ := ihBelow
        (some (place.elim (document.titleOf record).name fun owner =>
          QualifiedName.join owner (document.titleOf record).name)) first
      obtain ⟨later, walkAfter, after⟩ := ihAfter others
      refine ⟨_, .cons walkBelow walkAfter, fun file isLibrary => ?_⟩
      rw [outlineOf_cons, Outline.symbols, List.map_cons, List.map_append, ← below, ← after]
      rfl

/-- There is nothing to stand in the body of an element. -/
theorem isBare_eq {bound : Nat} (shallow : document.IsShallow bound (document.below (some record.id))) :
    Outline.isBare (document.entryOf record)
        (document.outlineOf bound (document.below (some record.id))) =
      ((document.below (some record.id)).isEmpty &&
        Outline.isBare (document.entryOf record) .nil) := by
  cases isBelow : document.below (some record.id) with
  | nil =>
    rw [(outlineOf_eq_nil (isBelow ▸ shallow)).mpr rfl]
    rfl
  | cons first rest =>
    cases bound with
    | zero => rw [isBelow] at shallow; cases (show first :: rest = [] from shallow)
    | succ bound =>
      rw [outlineOf_cons]
      rfl

theorem docLine_eq (body : String) : "doc /* " ++ (body ++ " */") = docLine body := by
  have opening : "doc /* " = "doc " ++ "/* " := by decide
  rw [opening, docLine, commentText, String.append_assoc, String.append_assoc]

theorem entryOf_doc (body : String) (isBody : body ∈ (document.entryOf record).doc) :
    StaysOpen body := by
  cases absent : record.doc.isAbsent with
  | true => simp [entryOf, absent] at isBody
  | false =>
    obtain rfl : String.ofList (guardComment _) = body := by
      simpa [entryOf, absent] using isBody
    exact staysOpen_guarded _

section Texts

/-! What holds of the texts in the records of an element and its relationships holds of those in
what it says. -/

variable {P : String → Prop}

theorem titleOf_shortName (empty : P "") (isName : record.shortName.IsName)
    (each : ∀ name, record.shortName = .text name → P name) :
    P (document.titleOf record).shortName := by
  rcases isName with none_ | ⟨name, isShort⟩
  · rw [titleOf, none_]
    exact empty
  · rw [titleOf, isShort]
    exact each name isShort

variable (targets : ∀ relation ∈ document.relationshipsOf record.id,
  Record.isRelationshipKind relation.kind = true → P (document.targetPath relation))

include targets

theorem titleOf_targets :
    ∀ clause ∈ (document.titleOf record).clauses, ∀ path ∈ clause.2, P path := by
  intro clause listed path isTarget
  obtain ⟨relation, related, isPair⟩ :=
    List.mem_filterMap.mp ((Entries.mem_grouped listed).2 path isTarget)
  obtain ⟨kind, isKind, same⟩ := Option.map_eq_some_iff.mp isPair
  cases same
  refine targets relation related ?_
  rw [Record.isRelationshipKind, isKind]
  rfl

theorem entryOf_imports : ∀ line ∈ (document.entryOf record).imports, P line.path := by
  intro line listed
  obtain ⟨relation, isImport, rfl⟩ := List.mem_map.mp listed
  obtain ⟨related, isImport⟩ := List.mem_filter.mp isImport
  refine targets relation related ?_
  rw [Record.isRelationshipKind, isImport, Bool.or_true]

end Texts

/-- The lines of an element that has a name and a known kind are those of its declaration, with
those of what stands below it. -/
theorem Textual.elementLines_eq (textual : document.Textual) (member : record ∈ document.elements)
    (known : SymbolKind.ofMetaclass record.kind ≠ .element) (named : record.name.isAbsent = false)
    (directed : record.IsDirected) {bound depth : Nat} {nested : List (List String)}
    (inside : (document.below (some record.id)).mapM (document.elementLines bound (depth + 1)) =
      .ok nested) :
    document.elementLines (bound + 1) depth record =
      .ok ((document.entryOf record).lines ((document.below (some record.id)).isEmpty &&
        Outline.isBare (document.entryOf record) .nil) depth nested.flatten) := by
  have ofRecord := textual.records record (elements_subset document member)
  have kind : (document.titleOf record).kind = SymbolKind.ofMetaclass record.kind := rfl
  have header := title_text (document.titleOf record) rfl
  have imports : (document.entryOf record).imports = document.importLines record := rfl
  have titled : (document.entryOf record).title = document.titleOf record := rfl
  have opens := @opening_eq document record ofRecord named directed
  have bare : Outline.isBare (document.entryOf record) .nil =
      (((document.importLines record).map ImportLine.text).isEmpty && record.doc.isAbsent) := by
    cases absent : record.doc.isAbsent <;> simp [Outline.isBare, entryOf, absent]
  simp only [kind] at header
  simp only [elementLines, named, Bool.false_eq_true, ↓reduceIte, keyword?_known known, opens,
    ok_bind, textual.clauses_eq, inside, header, Entry.lines, bare, titled, ← Bool.and_assoc]
  cases isBare : (document.below (some record.id)).isEmpty &&
    ((document.importLines record).map ImportLine.text).isEmpty && record.doc.isAbsent with
  | true => simp [indented, String.append_assoc, pure, Except.pure]
  | false =>
    cases absent : record.doc.isAbsent with
    | true =>
      have noDoc : (document.entryOf record).doc = none := by simp [entryOf, absent]
      simp [Entry.innerLines, noDoc, imports, indented, String.append_assoc, pure, Except.pure,
        ok_bind, Function.comp_def]
    | false =>
      have isDoc : (document.entryOf record).doc =
          some (String.ofList (guardComment (record.doc.text?.getD "").toList)) := by
        simp [entryOf, absent]
      have isText : docText record.doc = .ok (record.doc.text?.getD "") := by
        rw [ofRecord.doc.text?_getD absent]
        rfl
      simp [Entry.innerLines, isDoc, imports, isText, docLine_eq, indented, String.append_assoc,
        pure, Except.pure, ok_bind, Function.comp_def]

namespace Legible

variable (legible : document.Legible)

include legible

/-- An element can be read as what it says. -/
theorem entry_sound (member : record ∈ document.elements) : (document.entryOf record).Sound := by
  have sayable := legible.sayable record member
  have textual := legible.textual record (elements_subset document member)
  have isName := textual.name.text?_getD sayable.named
  have undirected_apart : "" ∉ directionKeywords := by decide
  refine ⟨⟨sayable.known, titleOf_isDirected sayable.direction,
    fun clause listed => (Entries.mem_grouped listed).1, fun isPlain => ?_⟩,
    ⟨sayable.name _ isName, titleOf_shortName (by decide) textual.shortName sayable.shortName,
      titleOf_targets sayable.targets⟩, entryOf_doc, entryOf_imports sayable.targets⟩
  obtain ⟨noShort, told⟩ := sayable.plain isPlain
  refine ⟨textual.shortName.absent_iff.mp noShort, ?_⟩
  rcases told with directed | related
  · rcases @direction_text document record sayable.direction with ⟨absent, _⟩ | ⟨_, _, listed⟩
    · rw [absent] at directed
      cases directed
    · exact .inl fun undirected => undirected_apart (undirected ▸ listed)
  · obtain ⟨pair, rest, some_⟩ := List.exists_cons_of_ne_nil related
    have some_ : Entries.grouped (document.referencePairs record) ≠ [] := by
      rw [some_, Entries.grouped_cons]
      exact List.cons_ne_nil _ _
    exact .inr some_

theorem outline_sound (bound : Nat) {records : List Record}
    (listed : records ⊆ document.elements) : (document.outlineOf bound records).Sound := by
  induction bound generalizing records with
  | zero => trivial
  | succ bound ihBelow =>
    induction records with
    | nil => trivial
    | cons record rest ihAfter =>
      obtain ⟨member, others⟩ := List.cons_subset.mp listed
      exact ⟨legible.entry_sound member, ihBelow (below_subset document _), ihAfter others⟩

/-! ## The text is that of the outline -/

/-- The lines of an element are those of its declaration. -/
theorem elementLines_node {bound depth : Nat} (member : record ∈ document.elements)
    {nested : List (List String)}
    (shallow : document.IsShallow bound (document.below (some record.id)))
    (inside : (document.below (some record.id)).mapM (document.elementLines bound (depth + 1)) =
      .ok nested)
    (areLines : nested.flatten =
      (document.outlineOf bound (document.below (some record.id))).lines (depth + 1)) :
    document.elementLines (bound + 1) depth record =
      .ok ((Outline.node (document.entryOf record)
        (document.outlineOf bound (document.below (some record.id))) .nil).lines depth) := by
  have sayable := legible.sayable record member
  rw [legible.texts.elementLines_eq member sayable.known sayable.named sayable.direction inside,
    Outline.lines_node, isBare_eq shallow, areLines, Outline.lines, List.append_nil]

/-- The lines of elements are those of their declarations. -/
theorem lines_eq {bound : Nat} (depth : Nat) {records : List Record}
    (listed : records ⊆ document.elements) (shallow : document.IsShallow bound records) :
    ∃ lines, records.mapM (document.elementLines bound depth) = .ok lines ∧
      lines.flatten = (document.outlineOf bound records).lines depth := by
  induction bound generalizing records depth with
  | zero =>
    cases (show records = [] from shallow)
    exact ⟨[], rfl, rfl⟩
  | succ bound ihBelow =>
    induction records with
    | nil => exact ⟨[], rfl, rfl⟩
    | cons record rest ihAfter =>
      obtain ⟨member, others⟩ := List.cons_subset.mp listed
      obtain ⟨first, further⟩ := List.forall_mem_cons.mp shallow
      obtain ⟨nested, inside, areLines⟩ := ihBelow (depth + 1) (below_subset document _) first
      obtain ⟨later, after, areLater⟩ := ihAfter others further
      refine ⟨(Outline.node (document.entryOf record)
        (document.outlineOf bound (document.below (some record.id))) .nil).lines depth :: later,
        ?_, ?_⟩
      · rw [List.mapM_cons, legible.elementLines_node member first inside areLines, ok_bind, after]
        rfl
      · rw [List.flatten_cons, areLater, outlineOf_cons, Outline.lines, Outline.lines, Outline.lines,
          List.append_nil]

end Legible

/-- The source text of a document is that of an outline, whose symbols are in the order of a
walk. -/
theorem Legible.sourceText_outline (legible : document.Legible) :
    ∃ outline : Outline, document.sourceText = .ok outline.text ∧ outline.Sound ∧
      ∃ walk, Walk document (fun record => (document.titleOf record).name) none
          (document.below none) walk ∧
        ∀ file isLibrary, outline.symbols file isLibrary none =
          walk.map fun met => (document.entryOf met.2).symbol file isLibrary met.1 := by
  have top := below_subset document none
  have shallow : document.IsShallow (document.records.length + 1) (document.below none) := by
    refine legible.isShallow top fun record _ => ?_
    have := List.length_filter_le (fun record => !record.isRelationship) document.records
    rw [elements]
    omega
  obtain ⟨lines, are, areLines⟩ := legible.lines_eq 0 top shallow
  refine ⟨document.outlineOf (document.records.length + 1) (document.below none), ?_,
    legible.outline_sound _ top, outlineOf_walk none shallow⟩
  rw [sourceText, are, ok_bind, areLines]
  rfl

/-- Reading back the source text of a document gives no fault, and a symbol for each element:
in the order of a walk from owners to what they own, with what the element says, and with the
nesting as its owner. -/
theorem sourceText_parse (legible : document.Legible) (file : String) (isLibrary : Bool) :
    ∃ text walk, document.sourceText = .ok text ∧
      Walk document (fun record => (document.titleOf record).name) none (document.below none)
        walk ∧
      (walk.map (·.2)).Perm document.elements ∧
      (parse file text isLibrary).diagnostics = [] ∧
      (parse file text isLibrary).imports = [] ∧
      (parse file text isLibrary).symbols.map Symbol.unplaced =
        walk.map fun met => (document.entryOf met.2).symbol file isLibrary met.1 := by
  obtain ⟨outline, isText, sound, walk, isWalk, symbols⟩ := legible.sourceText_outline
  obtain ⟨clean, noImports, parsed⟩ := parse_outline sound file isLibrary
  exact ⟨_, walk, isText, isWalk, legible.walk_perm isWalk, clean, noImports,
    parsed.trans (symbols file isLibrary)⟩

def carPackage : Record :=
  { id := "p", kind := "Package", name := .text "Car", qualifiedName := .text "Car"
    doc := .text "What drives. */ And more." }

def engineDefinition : Record :=
  { id := "e", kind := "PartDefinition", name := .text "V8 engine"
    qualifiedName := .text "Car::V8 engine", owner := some "p", shortName := .text "V8" }

def fuelUsage : Record :=
  { id := "u", kind := "Usage", name := .text "fuel", qualifiedName := .text "Car::fuel"
    owner := some "p", properties := [(.text "direction", .text "in")] }

def fuelTyping : Record :=
  { id := "t", kind := "FeatureTyping", owner := some "u", source := some "u", target := some "e" }

def partsImport : Record :=
  { id := "i", kind := "NamespaceImport", owner := some "p", source := some "p"
    target := some "q", properties := [(.text "visibility", .text "public")] }

def carDocument : Document where
  records := [carPackage, engineDefinition, fuelUsage, fuelTyping, partsImport]
  externalRefs := [("q", "Parts::Basic parts")]

theorem carDocument_elements :
    carDocument.elements = [carPackage, engineDefinition, fuelUsage] := rfl

theorem carDocument_legible : carDocument.Legible where
  id := by simp [carDocument, carPackage, engineDefinition, fuelUsage, fuelTyping, partsImport, Key.text]
  ids := by
    have areIds : carDocument.ids =
        [Key.text "p", Key.text "e", Key.text "u", Key.text "t", Key.text "i"] := rfl
    simp [areIds, Key.text]
  owned := by
    have owned (record : Record) (isOwner : record.owner = some "p") :
        record.owner = none ∨ ∃ owner, carDocument.OwnedBy record owner :=
      .inr ⟨carPackage, by simp [carDocument_elements], isOwner⟩
    simp only [carDocument_elements, List.forall_mem_cons]
    exact ⟨.inl rfl, owned _ rfl, owned _ rfl, by simp⟩
  acyclic := by
    refine fun record => acyclic_of_rank (fun record => record.owner.toList.length) ?_
    intro record member owner ownedBy
    rw [OwnedBy, carDocument_elements] at ownedBy
    rw [carDocument_elements] at member
    simp only [List.mem_cons, List.not_mem_nil, or_false] at member ownedBy
    rcases member with rfl | rfl | rfl <;> obtain ⟨rfl | rfl | rfl, isOwner⟩ := ownedBy <;>
      simp [carPackage, engineDefinition, fuelUsage, Key.text] at isOwner ⊢
  textual := by
    simp only [carDocument, List.forall_mem_cons]
    refine ⟨?_, ?_, ?_, ?_, ?_, by simp⟩
    all_goals
      constructor <;>
        simp [carPackage, engineDefinition, fuelUsage, fuelTyping, partsImport, Key.IsName,
          Value.IsName, Key.text]
  external := by simp [carDocument, Key.text]
  sayable := by
    have package : carDocument.relationshipsOf carPackage.id = [partsImport] := rfl
    have engine : carDocument.relationshipsOf engineDefinition.id = [] := rfl
    have fuel : carDocument.relationshipsOf fuelUsage.id = [fuelTyping] := rfl
    have plain : ∀ name ∈ ["Car", "V8 engine", "V8", "fuel", "Car::V8 engine",
        "Parts::Basic parts"], IsPlain name := by decide
    have direction : fuelUsage.property? "direction" = some (.text "in") := by
      simp [Record.property?, fuelUsage, List.lookup_cons, Value.text_beq]
    have target : carDocument.targetPath partsImport = "Parts::Basic parts" := rfl
    have type : carDocument.targetPath fuelTyping = "Car::V8 engine" := rfl
    simp only [carDocument_elements, List.forall_mem_cons]
    refine ⟨?_, ?_, ?_, by simp⟩
    · constructor
      · decide
      · rfl
      · rintro name ⟨⟩; exact plain _ (by decide)
      · rintro name ⟨⟩
      · exact .inl rfl
      · simp only [package, List.forall_mem_singleton, target]
        exact fun _ => plain _ (by decide)
      · exact fun isPlain => absurd isPlain (by decide)
    · constructor
      · decide
      · rfl
      · rintro name ⟨⟩; exact plain _ (by decide)
      · rintro name ⟨⟩; exact plain _ (by decide)
      · exact .inl rfl
      · simp [engine]
      · exact fun isPlain => absurd isPlain (by decide)
    · constructor
      · decide
      · rfl
      · rintro name ⟨⟩; exact plain _ (by decide)
      · rintro name ⟨⟩
      · exact .inr ⟨"in", by decide, direction⟩
      · simp only [fuel, List.forall_mem_singleton, type]
        exact fun _ => plain _ (by decide)
      · rw [direction]
        exact fun _ => ⟨rfl, .inl (by decide)⟩

/-- The package of the car, its definition and its usage are read back. -/
theorem sourceText_parse_car :
    carDocument.Legible ∧
      ∃ text walk, carDocument.sourceText = .ok text ∧
        Walk carDocument (fun record => (carDocument.titleOf record).name) none
          (carDocument.below none) walk ∧
        (walk.map (·.2)).Perm carDocument.elements ∧
        (parse "car.sysml" text false).diagnostics = [] ∧
        (parse "car.sysml" text false).imports = [] ∧
        (parse "car.sysml" text false).symbols.map Symbol.unplaced =
          walk.map fun met => (carDocument.entryOf met.2).symbol "car.sysml" false met.1 :=
  ⟨carDocument_legible, sourceText_parse carDocument_legible "car.sysml" false⟩

end Document

end Sysml
