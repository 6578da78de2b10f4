import Sysml.Proofs.Xml.Declared
import Sysml.Text.Utf8

/-!
# Documents as they are written

A tree whose names are in known namespaces, and whose texts have only characters that a document can
hold, is read back from its text, up to the white space between elements (`Legal.carries`).
-/

set_option autoImplicit false

namespace Sysml.Xml

/-! ## Characters -/

/-- A character that stands for itself in a document: line ends are line feeds. -/
def isKept (c : Char) : Bool :=
  isAllowed c && c != '\r'

def Kept (text : List Char) : Prop :=
  ∀ c ∈ text, isKept c = true

instance (text : List Char) : Decidable (Kept text) :=
  List.decidableBAll (fun c => isKept c = true) text

theorem kept_append {text more : List Char} : Kept (text ++ more) ↔ Kept text ∧ Kept more :=
  List.forall_mem_append

theorem kept_cons {c : Char} {text : List Char} :
    Kept (c :: text) ↔ isKept c = true ∧ Kept text :=
  List.forall_mem_cons

theorem isKept_between {c : Char} (low : 0x20 ≤ c.toNat) (high : c.toNat < 0xfffe) :
    isKept c = true := by
  have noReturn : c ≠ '\r' := by
    rintro rfl
    revert low
    decide
  simp only [isKept, isAllowed, Bool.and_eq_true, Bool.or_eq_true, decide_eq_true_eq, bne_iff_ne]
  exact ⟨.inr ⟨⟨low, by omega⟩, by omega⟩, noReturn⟩

/-- What is in ranges is in one of them. -/
theorem inRanges_mem {ranges : Array (Nat × Nat)} {n low high : Nat}
    (isIn : Text.inRanges ranges n low high = true) :
    ∃ range ∈ ranges, range.1 ≤ n ∧ n ≤ range.2 := by
  fun_induction Text.inRanges ranges n low high with
  | case1 => cases isIn
  | case2 low high _ middle first last found less ih => exact ih isIn
  | case3 low high _ middle first last found _ more ih => exact ih isIn
  | case4 low high _ middle first last found notLess notMore =>
    exact ⟨_, Array.mem_of_getElem? found, Nat.le_of_not_lt notLess, Nat.le_of_not_lt notMore⟩
  | case5 => cases isIn

theorem isKept_ranges {ranges : Array (Nat × Nat)} {c : Char}
    (between : ranges.all (fun range => 0x20 ≤ range.1 && range.2 < 0xfffe) = true)
    (isIn : Text.inRanges ranges c.toNat 0 ranges.size = true) : isKept c = true := by
  obtain ⟨range, isRange, low, high⟩ := inRanges_mem isIn
  have bounds := Array.all_eq_true_iff_forall_mem.mp between range isRange
  rw [Bool.and_eq_true, decide_eq_true_eq, decide_eq_true_eq] at bounds
  exact isKept_between (by omega) (by omega)

theorem isKept_name {c : Char} (isName_ : isNameChar c = true) : isKept c = true := by
  have letters : c.isAlpha = (c.isUpper || c.isLower) := rfl
  have upperBounds : c.isUpper = decide (65 ≤ c.val ∧ c.val ≤ 90) := rfl
  have lowerBounds : c.isLower = (decide (97 ≤ c.val) && decide (c.val ≤ 122)) := rfl
  simp only [isNameChar, isNameStart, letters, upperBounds, lowerBounds, Char.isDigit,
    Bool.or_eq_true, Bool.and_eq_true, decide_eq_true_eq, beq_iff_eq] at isName_
  rcases isName_ with ((((((upper | lower) | rfl) | letter) | digit) | rfl) | rfl) | extra
  case inl.inl.inl.inl.inl.inl.inl =>
    exact isKept_between (Nat.le_trans (by decide) upper.1) (Nat.lt_of_le_of_lt upper.2 (by decide))
  case inl.inl.inl.inl.inl.inl.inr =>
    exact isKept_between (Nat.le_trans (by decide) lower.1) (Nat.lt_of_le_of_lt lower.2 (by decide))
  case inl.inl.inl.inl.inl.inr => decide
  case inl.inl.inl.inl.inr => exact isKept_ranges (by decide +kernel) letter
  case inl.inl.inl.inr =>
    exact isKept_between (Nat.le_trans (by decide) digit.1) (Nat.lt_of_le_of_lt digit.2 (by decide))
  case inl.inl.inr => decide
  case inl.inr => decide
  case inr => exact isKept_ranges (by decide +kernel) extra

theorem kept_name {name : String} (isName_ : isName name = true) : Kept name.toList := by
  obtain ⟨-, all⟩ := Bool.and_eq_true _ _ ▸ isName_
  exact fun c listed => isKept_name (List.all_eq_true.mp all c listed)

theorem kept_tagName {name : String} (isTagName : IsTagName name) : Kept name.toList := by
  cases isTagName with
  | plain isLabel => exact kept_name isLabel
  | @short short label isShort isLabel =>
    have chars : (short ++ ":" ++ label).toList = short.toList ++ ':' :: label.toList := by simp
    rw [chars, kept_append, kept_cons]
    exact ⟨kept_name isShort, by decide, kept_name isLabel⟩

theorem kept_textChar {c : Char} (kept : isKept c = true) : Kept (textChar c).toList := by
  unfold textChar
  split
  · decide
  split
  · decide
  split
  · decide
  · rw [String.toList_singleton]
    exact List.forall_mem_singleton.mpr kept

theorem kept_attributeChar {c : Char} (allowed : isAllowed c = true) :
    Kept (attributeChar c).toList := by
  unfold attributeChar
  split
  · decide
  split
  · decide
  split
  · decide
  split
  · decide
  · next _ noReturn _ _ => exact kept_textChar (by simp [isKept, allowed, noReturn])

theorem kept_flatMap {α : Type} {items : List α} {text : α → List Char}
    (kept : ∀ item ∈ items, Kept (text item)) : Kept (items.flatMap text) := by
  intro c listed
  obtain ⟨item, isItem, isChar⟩ := List.mem_flatMap.mp listed
  exact kept item isItem c isChar

theorem kept_attributesText {entries : List (String × String)}
    (names : ∀ entry ∈ entries, IsTagName entry.1)
    (values : ∀ entry ∈ entries, entry.2.toList.all isAllowed = true) :
    Kept (attributesText entries) := by
  refine kept_flatMap fun entry listed => ?_
  have chars : (attributeText entry.1 (.text entry.2)).toList =
      ' ' :: (entry.1.toList ++ '=' :: '"' :: (escapedValue entry.2.toList ++ ['"'])) := by
    simp [attributeText, toList_valueText]
  have value : Kept (escapedValue entry.2.toList) := kept_flatMap fun c isChar =>
    kept_attributeChar (List.all_eq_true.mp (values entry listed) c isChar)
  rw [chars, kept_cons, kept_append, kept_cons, kept_cons, kept_append]
  exact ⟨by decide, kept_tagName (names entry listed), by decide, by decide, value, by decide⟩

/-! ## Trees -/

/-- A tree that a document can hold. -/
inductive Legal (known : List (String × String)) : Element → Prop where
  | node {tag : String} {attributes : List (String × AttributeValue)} {text : String}
      {children : List Element} (tagged : IsIn known tag)
      (keys : ∀ entry ∈ attributes, IsIn known entry.1)
      (values : ∀ entry ∈ attributes,
        ∃ value, entry.2 = .text value ∧ value.toList.all isAllowed = true)
      (distinct : (attributes.map (·.1)).Nodup) (kept : Kept text.toList)
      (inside : ∀ child ∈ children, Legal known child) :
      Legal known (.node tag attributes text children)

variable {known : List (String × String)} {element : Element}

/-- What holds of all names in a tree. -/
theorem forall_names {P : String → Prop} {tag text : String}
    {attributes : List (String × AttributeValue)} {children : List Element} :
    (∀ name ∈ names (.node tag attributes text children), P name) ↔
      P tag ∧ (∀ entry ∈ attributes, P entry.1) ∧
        ∀ child ∈ children, ∀ name ∈ names child, P name := by
  rw [names, List.cons_append, List.forall_mem_cons, List.forall_mem_append, allNames_eq]
  simp only [List.forall_mem_map, List.mem_flatMap]
  exact and_congr_right fun _ => and_congr_right fun _ =>
    ⟨fun all child isChild name isName_ => all name ⟨child, isChild, isName_⟩,
      fun all name ⟨child, isChild, isName_⟩ => all child isChild name isName_⟩

theorem Legal.isIn (legal : Legal known element) : ∀ name ∈ names element, IsIn known name := by
  induction legal with
  | node tagged keys values distinct kept inside ih => exact forall_names.mpr ⟨tagged, keys, ih⟩

theorem Legal.sound (legal : Legal known element) {scope : Scope} {name : String → String}
    (named : ∀ label ∈ names element, Names scope (name label) label) : Sound scope name element := by
  induction legal with
  | node tagged keys values distinct kept inside ih =>
    obtain ⟨own, ownKeys, others⟩ := forall_names.mp named
    refine .node own ownKeys (fun entry listed => ?_) distinct fun child isChild =>
      ih child isChild (others child isChild)
    obtain ⟨value, isValue, -⟩ := values entry listed
    exact ⟨value, isValue⟩

theorem kept_lineStart (depth : Nat) : Kept (lineStart depth).toList := by
  intro c listed
  simp [lineStart] at listed
  rcases listed with rfl | ⟨-, rfl⟩ <;> decide

theorem kept_childrenText {name : String → String} {children : List Element} {depth : Nat}
    (kept : ∀ child ∈ children, Kept (elementText name "" depth child).toList) :
    Kept (childrenText name depth children).toList := by
  induction children with
  | nil =>
    rw [childrenText]
    exact List.forall_mem_nil _
  | cons child children ih =>
    obtain ⟨first, others⟩ := List.forall_mem_cons.mp kept
    rw [childrenText, String.toList_append, String.toList_append, kept_append, kept_append]
    exact ⟨⟨kept_lineStart depth, first⟩, ih others⟩

theorem kept_tagEnd (closes : Bool) : Kept (tagEnd closes) := by
  cases closes <;> decide

/-- The text of a tree has only characters that stand for themselves. -/
theorem Legal.kept_elementText (legal : Legal known element) {scope : Scope}
    {name : String → String} (named : ∀ label ∈ names element, Names scope (name label) label)
    {declarations : String} (declared : Kept declarations.toList) (depth : Nat) :
    Kept (elementText name declarations depth element).toList := by
  induction legal generalizing declarations depth with
  | @node tag attributes text children tagged keys values distinct kept inside ih =>
    obtain ⟨own, ownKeys, others⟩ := forall_names.mp named
    have texts : ∀ entry ∈ attributes, ∃ value, entry.2 = .text value := fun entry listed =>
      (values entry listed).imp fun _ both => both.1
    have escapedKept : Kept (escapedText text.toList) := kept_flatMap fun c listed =>
      kept_textChar (kept c listed)
    have insideKept : Kept (insideText name depth text children) := by
      rw [insideText, toList_escaped, kept_append]
      refine ⟨escapedKept, ?_⟩
      split
      · exact List.forall_mem_nil _
      · rw [kept_append]
        have bare : Kept "".toList := by decide
        exact ⟨kept_childrenText fun child isChild => ih child isChild (others child isChild) bare _,
          kept_lineStart depth⟩
    have attributesKept : Kept (attributesText (writtenUnder name attributes)) := by
      refine kept_attributesText (writtenUnder_names ownKeys) fun entry listed => ?_
      obtain ⟨field, isField, rfl⟩ := List.mem_map.mp listed
      obtain ⟨value, isValue, allowed⟩ := values field isField
      rw [isValue]
      exact allowed
    have tagKept := kept_tagName own.isTagName
    rw [elementText_eq name declarations depth texts, kept_cons, kept_append, kept_append,
      kept_append]
    refine ⟨by decide, tagKept, declared, attributesKept, ?_⟩
    split
    · exact kept_tagEnd true
    · rw [kept_append, kept_append, kept_cons, kept_cons, kept_append]
      exact ⟨kept_tagEnd false, insideKept, by decide, by decide, tagKept, by decide⟩

/-! ## Documents -/

def heading : String :=
  "<?xml version='1.0' encoding='UTF-8'?>"

theorem declaration_heading (rest : List Char) :
    declaration (heading.toList ++ rest) = .ok (⟨some "UTF-8", false⟩, rest) :=
  rfl

theorem unifyLineEnds_append {text : List Char} (noReturn : '\r' ∉ text) (rest : List Char) :
    Text.unifyLineEnds (text ++ rest) = text ++ Text.unifyLineEnds rest := by
  induction text with
  | nil => rfl
  | cons c text ih =>
    rw [List.mem_cons, not_or] at noReturn
    have apart : c ≠ '\r' := fun same => noReturn.1 same.symm
    have step (rest : List Char) : Text.unifyLineEnds (c :: rest) = c :: Text.unifyLineEnds rest := by
      rw [Text.unifyLineEnds, if_neg apart]
      exact fun _ same => absurd same apart
    rw [List.cons_append, step, ih noReturn.2, List.cons_append]

theorem unifyLineEnds_kept {text : List Char} (kept : Kept text) :
    Text.unifyLineEnds text = text := by
  have noReturn : '\r' ∉ text := fun listed => absurd (kept _ listed) (by decide)
  simpa [Text.unifyLineEnds] using unifyLineEnds_append noReturn []

/-- The text of a document is read from its bytes, after the declaration. -/
theorem documentText_heading {text : String} {body : List Char}
    (isText : text.toList = heading.toList ++ body) (kept : Kept body) :
    documentText text.toUTF8.toList = .ok (⟨some "UTF-8", false⟩, body) := by
  have asString : text = heading ++ String.ofList body := by
    rw [← String.toList_inj, isText]
    simp
  have octets : text.toUTF8.toList =
      heading.toUTF8.data.toList ++ (String.ofList body).toUTF8.data.toList := by
    rw [Text.Utf8.toList_data, asString]
    exact congrArg (fun octets => octets.data.toList) String.toByteArray_append |>.trans
      ByteArray.toList_data_append
  have first : heading.toUTF8.data.toList = heading.toList.map fun c => UInt8.ofNat c.toNat := by
    decide +kernel
  have glanced : (heading.toUTF8.data.toList.map fun octet => Char.ofNat octet.toNat) =
      heading.toList := by
    decide +kernel
  have noReturn : '\r' ∉ heading.toList := by decide
  have detected : Encoding.detect text.toUTF8.toList = (.utf8, text.toUTF8.toList) := by
    rw [octets, first]
    rfl
  have decoded : Encoding.utf8.decode text.toUTF8.toList = some text.toList := by
    rw [Encoding.decode, Text.Utf8.toArray_toList, Text.Utf8.fromUTF8?_toUTF8]
    rfl
  have named : Encoding.utf8.ofName "UTF-8" = .ok .utf8 := rfl
  have plain (octets : List UInt8) : Encoding.utf8.glance octets =
      octets.map fun octet => Char.ofNat octet.toNat := rfl
  have glance : declaration (Text.unifyLineEnds (Encoding.utf8.glance text.toUTF8.toList)) =
      .ok (⟨some "UTF-8", false⟩, Text.unifyLineEnds
        ((String.ofList body).toUTF8.data.toList.map fun octet => Char.ofNat octet.toNat)) := by
    rw [octets, plain, List.map_append, glanced, unifyLineEnds_append noReturn,
      declaration_heading]
  have whole : Text.unifyLineEnds text.toList = heading.toList ++ body := by
    rw [isText, unifyLineEnds_append noReturn, unifyLineEnds_kept kept]
  unfold documentText
  rw [detected]
  simp only [bind, Except.bind, glance, named, decoded, whole, declaration_heading]

theorem cost_none (text : List Char) : Entities.cost {} 0 text = .ok 0 := by
  have none_ : ∀ names : List String, Sizes.total [] names = 0 := by
    intro names
    induction names with
    | nil => rfl
    | cons name rest ih => exact ih
  have sizes : Entities.sizes {} (0 + 1) = [] := rfl
  simp only [Entities.cost, sizes, none_]
  rfl

/-- Nothing stands between the line end in front and the root. -/
theorem skipMisc_tag {name : String} (isTagName : IsTagName name) (fuel : Nat) (rest : List Char) :
    skipMisc (fuel + 1) ('\n' :: '<' :: (name.toList ++ rest)) =
        .ok ('<' :: (name.toList ++ rest)) ∧
      skipMisc (fuel + 1) ('<' :: (name.toList ++ rest)) = .ok ('<' :: (name.toList ++ rest)) := by
  obtain ⟨c, tail, chars, isStart⟩ := isTagName.head
  have apart {d : Char} (noStart : isNameStart d = false) : c ≠ d := by
    rintro rfl
    rw [isStart] at noStart
    cases noStart
  have noMark : c ≠ '?' := apart (isNameStart_delimiter (by decide))
  have noBang : c ≠ '!' := apart (isNameStart_delimiter (by decide))
  have feed (rest : List Char) : skipSpace ('\n' :: '<' :: rest) = '<' :: rest := rfl
  have tag (rest : List Char) : skipSpace ('<' :: rest) = '<' :: rest := rfl
  rw [chars, List.cons_append]
  constructor
  all_goals
    unfold skipMisc
    simp only [feed, tag]
    split
    · next same => simp [noMark] at same
    · next same => simp [noBang] at same
    · rfl

/-- The root is cut into its tag and what the content is cut into. -/
theorem pieces_root {name : String} (isTagName : IsTagName name) {after rest : List Char}
    (ends : Ends after) {entries : List (String × String)} {closes : Bool}
    (tagged : attributes {} name after = .ok (entries, closes, rest))
    (shorter : rest.length ≤ after.length) {octets : List UInt8} {found : Heading}
    (isText : documentText octets = .ok (found, '\n' :: '<' :: (name.toList ++ after)))
    (kept : Kept ('\n' :: '<' :: (name.toList ++ after))) {inner : List Piece}
    (isInside : if closes then rest = ['\n'] ∧ inner = [.closing]
      else Yields [name] rest inner ['\n']) :
    pieces octets = .ok (.opening name entries :: inner) := by
  have allowed : ('\n' :: '<' :: (name.toList ++ after)).all isAllowed = true :=
    List.all_eq_true.mpr fun c listed => (Bool.and_eq_true _ _ ▸ kept c listed).1
  obtain ⟨skipped, skippedAgain⟩ := skipMisc_tag isTagName
    (2 * ('\n' :: '<' :: (name.toList ++ after)).length + 3) after
  have noType : after? "<!DOCTYPE" ('<' :: (name.toList ++ after)) = none := by
    obtain ⟨c, tail, chars, isStart⟩ := isTagName.head
    have noBang : '!' ≠ c := by
      rintro rfl
      rw [isNameStart_delimiter (by decide)] at isStart
      cases isStart
    have noPrefix : ¬ "<!DOCTYPE".toList.isPrefixOf ('<' :: (name.toList ++ after)) = true := by
      simp [chars, noBang]
    rw [after?, if_neg noPrefix]
  have opens : expect "<" ('<' :: (name.toList ++ after)) = .ok (name.toList ++ after) := rfl
  have ended : skipMisc (2 * ('\n' :: '<' :: (name.toList ++ after)).length + 3 + 1) ['\n'] =
      .ok [] := rfl
  unfold pieces
  rw [isText]
  simp only [bind, Except.bind, pure, Except.pure, allowed, skipped, skippedAgain, noType, opens,
    cost_none, fullName_append isTagName ends, tagged, Bool.not_true, Bool.false_eq_true, ↓reduceIte]
  cases closes with
  | true =>
    obtain ⟨rfl, rfl⟩ := isInside
    simp only [↓reduceIte, ended, List.isEmpty_nil]
  | false =>
    have isContent := isInside (2 * ('\n' :: '<' :: (name.toList ++ after)).length + 4)
      (by simp; omega)
    simp only [Bool.false_eq_true, ↓reduceIte, isContent, ended, List.isEmpty_nil]

/-! ## Declarations -/

section Declarations

variable {declared : List (String × String)} (areKnown : AreKnown declared)

include areKnown

theorem declarations_names : ∀ entry ∈ declarations declared, IsTagName entry.1 := by
  intro entry listed
  obtain ⟨known, isKnown, rfl⟩ := List.mem_map.mp listed
  have reserved : isName "xmlns" = true := isName_of_isAlpha rfl
  exact declaration_eq known.2 ▸ .short reserved (areKnown.names known isKnown).1

theorem declarations_distinct : ((declarations declared).map (·.1)).Nodup := by
  rw [declarations, List.map_map, List.Nodup, List.pairwise_map]
  refine (List.pairwise_map.mp areKnown.shorts).imp fun apart same => apart ?_
  exact (String.append_right_inj "xmlns:").mp same

theorem declarations_kept : Kept (attributesText (declarations declared)) := by
  refine kept_attributesText (declarations_names areKnown) fun entry listed => ?_
  obtain ⟨known, isKnown, rfl⟩ := List.mem_map.mp listed
  exact areKnown.allowed known isKnown

/-- Declarations have other names than attributes. -/
theorem declared_distinct {scope : Scope} {name : String → String}
    {attributes : List (String × AttributeValue)}
    (keys : ∀ entry ∈ attributes, Names scope (name entry.1) entry.1)
    (distinct : (attributes.map (·.1)).Nodup) :
    ((declarations declared ++ writtenUnder name attributes).map (·.1)).Nodup := by
  rw [List.map_append, List.nodup_append]
  refine ⟨declarations_distinct areKnown, writtenUnder_distinct keys distinct, ?_⟩
  intro one isOne other isOther same
  obtain ⟨declaration, isDeclaration, rfl⟩ := List.mem_map.mp isOne
  obtain ⟨known, -, rfl⟩ := List.mem_map.mp isDeclaration
  obtain ⟨written, isWritten, rfl⟩ := List.mem_map.mp isOther
  obtain ⟨field, isField, rfl⟩ := List.mem_map.mp isWritten
  have free := (keys field isField).free
  have same : "xmlns:" ++ known.2 = name field.1 := same
  rw [← same, declared?_declaration] at free
  cases free

/-- The root is opened with its name and attributes, and inside the declarations count. -/
theorem make_root {name : String → String} {tag : String}
    (named : Names (declaredScope declared) (name tag) tag)
    {attributes : List (String × AttributeValue)}
    (keys : ∀ entry ∈ attributes, Names (declaredScope declared) (name entry.1) entry.1)
    (distinct : (attributes.map (·.1)).Nodup) :
    OpenElement.make [("xml", xmlSpace)] (name tag)
        (declarations declared ++ writtenUnder name attributes) =
      .ok { name := tag, attributes := contents attributes, scope := declaredScope declared } := by
  have scope : declareAll [("xml", xmlSpace)] (declarations declared ++ writtenUnder name attributes) =
      .ok (declaredScope declared) :=
    (declareAll_declarations areKnown _ _).trans (declareAll_written keys)
  unfold OpenElement.make
  rw [scope]
  simp only [bind, Except.bind,
    resolveAttributes_declarations declared _ (resolveAttributes_written keys distinct),
    named.resolved]
  rfl

end Declarations

theorem toList_declarationsText (used : List (String × String)) :
    (declarationsText used).toList =
      attributesText (declarations (used.mergeSort fun a b => a.2 ≤ b.2)) := by
  rw [declarationsText, String.toList_join, List.flatMap_map, attributesText, declarations,
    List.flatMap_map]

/-- A root that is written with its declarations is read as it was written. -/
theorem Sound.read_root {declared : List (String × String)} (areKnown : AreKnown declared)
    {name : String → String} {root : Element} (sound : Sound (declaredScope declared) name root)
    {front : String} (isFront : front.toList = attributesText (declarations declared))
    (kept : Kept (elementText name front 0 root).toList) {text : String}
    (isText : text.toList =
      heading.toList ++ '\n' :: ((elementText name front 0 root).toList ++ ['\n'])) :
    ∃ read, Xml.read text.toUTF8.toList = .ok read ∧ alike read root = true := by
  cases sound with
  | @node tag attributes text_ children named keys values distinct inside =>
    have keptBody : Kept ('\n' :: ((elementText name front 0
        (.node tag attributes text_ children)).toList ++ ['\n'])) := by
      rw [kept_cons, kept_append]
      exact ⟨by decide, kept, by decide⟩
    have isBody := documentText_heading isText keptBody
    have names : ∀ entry ∈ declarations declared ++ writtenUnder name attributes,
        IsTagName entry.1 :=
      List.forall_mem_append.mpr ⟨declarations_names areKnown, writtenUnder_names keys⟩
    have apart := declared_distinct areKnown keys distinct
    have joined : attributesText (declarations declared ++ writtenUnder name attributes) =
        attributesText (declarations declared) ++ attributesText (writtenUnder name attributes) :=
      List.flatMap_append
    have opens (inner : List Piece) :
        build [] (.opening (name tag) (declarations declared ++ writtenUnder name attributes) ::
            inner) =
          build [{ name := tag, attributes := contents attributes,
                   scope := declaredScope declared }] inner := by
      simp only [build, List.head?_nil, Option.map_none, Option.getD_none,
        make_root areKnown named keys distinct]
      rfl
    rw [elementText_eq name front 0 values, isFront, ← List.append_assoc (attributesText _), ← joined]
      at isBody keptBody
    cases empty : children.isEmpty && text_.isEmpty with
    | true =>
      obtain ⟨noChildren, noText⟩ := Bool.and_eq_true _ _ ▸ empty
      obtain rfl := List.isEmpty_iff.mp noChildren
      have whole : [].flatten = text_.toList := by simp [String.isEmpty_iff.mp noText]
      have same : allAlike [] [] = true := rfl
      simp only [noText, List.isEmpty_nil, Bool.and_self, ↓reduceIte, List.cons_append,
        List.append_assoc] at isBody keptBody
      have cut := pieces_root named.isTagName (ends_attributes _ true _)
        (attributes_written names apart (name tag) true ['\n']) (by simp; omega) isBody keptBody
        ⟨rfl, rfl⟩
      refine ⟨_, ?_, alike_close (declaredScope declared) same fun _ => whole⟩
      rw [Xml.read, cut]
      exact opens [.closing]
    | false =>
      simp only [empty, Bool.false_eq_true, ↓reduceIte, List.cons_append, List.append_assoc,
        List.nil_append] at isBody keptBody
      obtain ⟨pieces, chunks, reads, same, whole, isInside, filled⟩ :=
        inside_read 0 text_ (fun child isChild => (inside child isChild).isRead 1)
          (List.cons_ne_nil (name tag) []) (by rfl) (yields_end named.isTagName ['\n'])
      have cut := pieces_root named.isTagName (ends_attributes _ false _)
        (attributes_written names apart (name tag) false _) (by simp; omega) isBody keptBody isInside
      refine ⟨_, ?_, alike_close (declaredScope declared) same whole⟩
      rw [Xml.read, cut]
      exact (opens _).trans (filled _ [] [.closing] rfl)

/-- A tree that a document can hold is read back from its text. -/
theorem Legal.carries {root : Element} (areKnown : AreKnown known) (legal : Legal known root) :
    Carries known root := by
  intro text isText
  unfold render? at isText
  obtain ⟨used, isUsed, isText⟩ := Option.bind_eq_some_iff.mp isText
  have isText := Option.some.inj isText
  have none_ : Notes known [] := ⟨List.nil_subset _, List.nodup_nil⟩
  obtain ⟨notes, -, areIn⟩ := useElement_notes areKnown root legal.isIn none_ isUsed
  have same := List.mergeSort_perm used fun a b => decide (a.2 ≤ b.2)
  have declaredKnown := (notes.areKnown areKnown).perm same
  have named : ∀ label ∈ names root,
      Names (declaredScope (used.mergeSort fun a b => a.2 ≤ b.2))
        (nameText (known ++ wellKnown) used label) label :=
    fun label isName_ => names_written areKnown notes same (areIn label isName_)
  have isFront := toList_declarationsText used
  have frontKept : Kept (declarationsText used).toList :=
    isFront ▸ declarations_kept declaredKnown
  refine (legal.sound named).read_root declaredKnown isFront
    (legal.kept_elementText named frontKept 0) ?_
  rw [← isText]
  simp [heading]

end Sysml.Xml
