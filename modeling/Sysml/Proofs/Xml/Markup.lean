import Sysml.Proofs.Xml

/-!
# Tags as they are written

A name is read up to the character after it, an escaped character as the character that it stands
for, and a tag with the names and values that were written into it (`attributes_written`).
-/

set_option autoImplicit false

namespace Sysml.Xml

/-! ## Names -/

def isName (name : String) : Bool :=
  name.toList.head?.any isNameStart && name.toList.all isNameChar

/-- Letters alone make a name. -/
theorem isName_of_isAlpha {name : String}
    (letters : (name.toList.head?.isSome && name.toList.all Char.isAlpha) = true) :
    isName name = true := by
  obtain ⟨some_, all⟩ := Bool.and_eq_true _ _ ▸ letters
  have start {c : Char} (isAlpha : c.isAlpha = true) : isNameStart c = true := by
    rw [isNameStart, isAlpha, Bool.true_or, Bool.true_or]
  have startAll (c : Char) (listed : c ∈ name.toList) : isNameStart c = true :=
    start (List.all_eq_true.mp all c listed)
  rw [isName, Bool.and_eq_true, List.all_eq_true]
  refine ⟨?_, fun c listed => ?_⟩
  · obtain ⟨c, isHead⟩ := Option.isSome_iff_exists.mp some_
    rw [isHead, Option.any_some]
    exact startAll c (List.mem_of_mem_head? isHead)
  · rw [isNameChar, startAll c listed, Bool.true_or, Bool.true_or, Bool.true_or, Bool.true_or]

def delimiters : List Char :=
  [' ', '\t', '\n', '\r', '=', '>', '/', '?', '!', '#', ';', ':', '\x7b', '\x7d']

theorem isNameChar_delimiter {c : Char} (isDelimiter : c ∈ delimiters) : isNameChar c = false := by
  have noNames : delimiters.all (fun c => !isNameChar c) = true := by decide +kernel
  simpa using List.all_eq_true.mp noNames c isDelimiter

theorem isNameStart_delimiter {c : Char} (isDelimiter : c ∈ delimiters) : isNameStart c = false := by
  have noChar := isNameChar_delimiter isDelimiter
  simp only [isNameChar, Bool.or_eq_false_iff] at noChar
  exact noChar.1.1.1.1

/-- The text does not go on with a name. -/
def Ends (rest : List Char) : Prop :=
  ∀ c ∈ rest.head?, isNameChar c = false ∧ c ≠ ':'

theorem ends_cons {c : Char} (apart : isNameChar c = false ∧ c ≠ ':') (rest : List Char) :
    Ends (c :: rest) := by
  intro d isHead
  rw [← Option.some.inj isHead]
  exact apart

theorem ends_blank (rest : List Char) : Ends (' ' :: rest) :=
  ends_cons ⟨isNameChar_delimiter (by decide), by decide⟩ rest

theorem ends_equals (rest : List Char) : Ends ('=' :: rest) :=
  ends_cons ⟨isNameChar_delimiter (by decide), by decide⟩ rest

theorem ends_greater (rest : List Char) : Ends ('>' :: rest) :=
  ends_cons ⟨isNameChar_delimiter (by decide), by decide⟩ rest

/-- What is taken while a condition holds ends where it first fails. -/
theorem takeWhile_dropWhile_append {α : Type} {p : α → Bool} {before rest : List α}
    (all : ∀ item ∈ before, p item = true) (stops : ∀ item ∈ rest.head?, p item = false) :
    (before ++ rest).takeWhile p = before ∧ (before ++ rest).dropWhile p = rest := by
  have none_ : rest.takeWhile p = [] ∧ rest.dropWhile p = rest := by
    cases rest with
    | nil => exact ⟨rfl, rfl⟩
    | cons item rest =>
      have fails := stops item rfl
      exact ⟨List.takeWhile_cons_of_neg (by simp [fails]), List.dropWhile_cons_of_neg (by simp [fails])⟩
  rw [List.takeWhile_append_of_pos all, List.dropWhile_append_of_pos all, none_.1, none_.2,
    List.append_nil]
  exact ⟨rfl, rfl⟩

theorem simpleName_append {name : String} (isName_ : isName name = true) {rest : List Char}
    (ends : ∀ c ∈ rest.head?, isNameChar c = false) :
    simpleName (name.toList ++ rest) = .ok (name.toList, rest) := by
  obtain ⟨starts, all⟩ := Bool.and_eq_true _ _ ▸ isName_
  obtain ⟨taken, dropped⟩ := takeWhile_dropWhile_append (List.all_eq_true.mp all) ends
  cases chars : name.toList with
  | nil => simp [chars] at starts
  | cons c others =>
    rw [chars] at taken dropped starts
    have isStart : isNameStart c = true := starts
    rw [List.cons_append] at taken dropped ⊢
    simp only [simpleName, isStart, ↓reduceIte, taken, dropped]

/-- A name as it is written: with or without an abbreviation in front. -/
inductive IsTagName : String → Prop where
  | plain {label : String} (isLabel : isName label = true) : IsTagName label
  | short {short label : String} (isShort : isName short = true) (isLabel : isName label = true) :
      IsTagName (short ++ ":" ++ label)

theorem fullName_append {name : String} (isTagName : IsTagName name) {rest : List Char}
    (ends : Ends rest) : fullName (name.toList ++ rest) = .ok (name, rest) := by
  have ends_ : ∀ c ∈ rest.head?, isNameChar c = false := fun c isHead => (ends c isHead).1
  cases isTagName with
  | plain isLabel =>
    rw [fullName, simpleName_append isLabel ends_]
    simp only [bind, Except.bind]
    split
    · exact absurd rfl (ends ':' rfl).2
    · rw [String.ofList_toList]
      rfl
  | @short short label isShort isLabel =>
    have colon : ∀ c ∈ (':' :: (label.toList ++ rest)).head?, isNameChar c = false := by
      rintro _ ⟨⟩
      exact isNameChar_delimiter (by decide)
    have whole : (short ++ ":" ++ label).toList ++ rest =
        short.toList ++ ':' :: (label.toList ++ rest) := by
      simp
    rw [whole, fullName, simpleName_append isShort colon]
    simp only [bind, Except.bind]
    rw [simpleName_append isLabel ends_]
    have same : String.ofList (short.toList ++ ':' :: label.toList) = short ++ ":" ++ label := by
      rw [← String.toList_inj]
      simp
    simp only [same]
    rfl

theorem IsTagName.head {name : String} (isTagName : IsTagName name) :
    ∃ c rest, name.toList = c :: rest ∧ isNameStart c = true := by
  have start {name : String} (isName_ : isName name = true) :
      ∃ c rest, name.toList = c :: rest ∧ isNameStart c = true := by
    obtain ⟨starts, -⟩ := Bool.and_eq_true _ _ ▸ isName_
    cases chars : name.toList with
    | nil => simp [chars] at starts
    | cons c rest => exact ⟨c, rest, rfl, by rwa [chars] at starts⟩
  cases isTagName with
  | plain isLabel => exact start isLabel
  | @short short label isShort isLabel =>
    obtain ⟨c, rest, chars, isStart⟩ := start isShort
    exact ⟨c, rest ++ ':' :: label.toList, by simp [chars], isStart⟩

/-! ## Escapes -/

theorem splitAt?_append {c : Char} {before : List Char} (apart : c ∉ before) (rest : List Char) :
    splitAt? [c] (before ++ c :: rest) = some (before, rest) := by
  induction before with
  | nil => simp [splitAt?]
  | cons first before ih =>
    rw [List.mem_cons, not_or] at apart
    obtain ⟨differs, others⟩ := apart
    have noPrefix : ¬ [c].isPrefixOf (first :: (before ++ c :: rest)) = true := by
      simpa using differs
    rw [List.cons_append, splitAt?, if_neg noPrefix, ih others]
    rfl

/-- The characters are a reference to a character, or the character itself, which is no markup. -/
def StandsFor (chars : List Char) (c : Char) : Prop :=
  (∃ tail, chars = '&' :: tail ∧ ∀ rest, reference (tail ++ rest) = .ok (.char c, rest)) ∨
    (chars = [c] ∧ c ≠ '<' ∧ c ≠ '&' ∧ c ≠ '>')

/-- An entity that every document knows is replaced. -/
theorem reference_predefined (name : String) {c : Char} (isName_ : isName name = true)
    (known : predefined.lookup name = some c) (rest : List Char) :
    reference (name.toList ++ ';' :: rest) = .ok (.char c, rest) := by
  have ends : ∀ c ∈ (';' :: rest).head?, isNameChar c = false := by
    rintro _ ⟨⟩
    exact isNameChar_delimiter (by decide)
  obtain ⟨first, others, chars, isStart⟩ := (IsTagName.plain isName_).head
  have noNumber : first ≠ '#' := by
    rintro rfl
    rw [isNameStart_delimiter (by decide)] at isStart
    cases isStart
  unfold reference
  split
  · next digits whole =>
    rw [chars] at whole
    exact absurd (List.cons.inj whole).1 noNumber
  · rw [simpleName_append isName_ ends]
    simp only [bind, Except.bind, expect, after?]
    rw [String.ofList_toList, known]
    rfl

/-- A numeral is replaced by the character of the number. -/
theorem reference_number {digits : List Char} {c : Char} (noEnd : ';' ∉ digits)
    (isChar : charOf digits = .ok c) (rest : List Char) :
    reference ('#' :: digits ++ ';' :: rest) = .ok (.char c, rest) := by
  have split_ : upTo ";" (digits ++ ';' :: rest) = .ok (digits, rest) := by
    have chars : ";".toList = [';'] := rfl
    rw [upTo, chars, splitAt?_append noEnd]
  simp only [reference, List.cons_append, split_, bind, Except.bind, isChar]
  rfl

theorem standsFor_textChar (c : Char) : StandsFor (textChar c).toList c := by
  unfold textChar
  split
  · next same => exact same ▸ .inl ⟨_, rfl, reference_predefined "amp" (isName_of_isAlpha rfl) rfl⟩
  split
  · next same => exact same ▸ .inl ⟨_, rfl, reference_predefined "lt" (isName_of_isAlpha rfl) rfl⟩
  split
  · next same => exact same ▸ .inl ⟨_, rfl, reference_predefined "gt" (isName_of_isAlpha rfl) rfl⟩
  · next noAmpersand noLess noGreater =>
    exact .inr ⟨String.toList_singleton c, noLess, noAmpersand, noGreater⟩

/-- A character of a value is written without quotes, and white space but a blank as a reference. -/
theorem standsFor_attributeChar (c : Char) :
    StandsFor (attributeChar c).toList c ∧ '"' ∉ (attributeChar c).toList ∧
      ((attributeChar c).toList = [c] → isSpace c = true → c = ' ') := by
  have number {digits : List Char} {c : Char} (noEnd : ';' ∉ digits)
      (isChar : charOf digits = .ok c) : StandsFor ('&' :: '#' :: digits ++ [';']) c :=
    .inl ⟨'#' :: digits ++ [';'], rfl, fun rest => by
      simpa using reference_number noEnd isChar rest⟩
  unfold attributeChar
  split
  · next same =>
    subst same
    exact ⟨.inl ⟨_, rfl, reference_predefined "quot" (isName_of_isAlpha rfl) rfl⟩, by decide, by decide⟩
  split
  · next same =>
    subst same
    have noEnd : ';' ∉ ['1', '3'] := by decide
    exact ⟨number noEnd rfl, by decide, by decide⟩
  split
  · next same =>
    subst same
    have noEnd : ';' ∉ ['1', '0'] := by decide
    exact ⟨number noEnd rfl, by decide, by decide⟩
  split
  · next same =>
    subst same
    have noEnd : ';' ∉ ['0', '9'] := by decide
    exact ⟨number noEnd rfl, by decide, by decide⟩
  · next noQuote noReturn noFeed noTab =>
    refine ⟨standsFor_textChar c, ?_, fun _ space => ?_⟩
    · unfold textChar
      split
      · decide
      split
      · decide
      split
      · decide
      · rw [String.toList_singleton, List.mem_singleton]
        exact fun same => noQuote same.symm
    · simpa [isSpace, noReturn, noFeed, noTab] using space

def escapedValue (value : List Char) : List Char :=
  value.flatMap fun c => (attributeChar c).toList

theorem toList_valueText (value : String) :
    (valueText (.text value)).toList = escapedValue value.toList := by
  rw [valueText, escaped, String.toList_join, List.flatMap_map, escapedValue]

theorem quote_not_mem (value : List Char) : '"' ∉ escapedValue value := by
  rw [escapedValue, List.mem_flatMap]
  rintro ⟨c, -, isQuote⟩
  exact (standsFor_attributeChar c).2.1 isQuote

/-- The characters of a value are read back. -/
theorem replaced_escapedValue (value : List Char) {fuel : Nat}
    (enough : (escapedValue value).length < fuel) :
    replaced {} fuel [] (escapedValue value) = .ok value := by
  induction value generalizing fuel with
  | nil =>
    cases fuel with
    | zero => cases enough
    | succ fuel => rfl
  | cons c value ih =>
    cases fuel with
    | zero => cases enough
    | succ fuel =>
      have chars : escapedValue (c :: value) = (attributeChar c).toList ++ escapedValue value :=
        List.flatMap_cons
      obtain ⟨stands, -, blank⟩ := standsFor_attributeChar c
      rw [chars] at enough ⊢
      rcases stands with ⟨tail, isReference, isRead⟩ | ⟨itself, noLess, noAmpersand, -⟩
      · rw [isReference] at enough ⊢
        simp only [List.cons_append, List.length_cons, List.length_append] at enough
        rw [List.cons_append, replaced, if_neg (by decide), if_pos rfl]
        simp only [isRead, bind, Except.bind]
        rw [ih (by omega)]
        rfl
      · have same : (if isSpace c then ' ' else c) = c := by
          split
          · next space => exact (blank itself space).symm
          · rfl
        rw [itself] at enough ⊢
        simp only [List.cons_append, List.nil_append, List.length_cons] at enough
        rw [List.cons_append, List.nil_append, replaced, if_neg noLess, if_neg noAmpersand,
          ih (by omega), same]
        rfl

/-- A value is read back from between its quotes. -/
theorem value_read (value : String) (rest : List Char) :
    literal ('"' :: ((valueText (.text value)).toList ++ '"' :: rest)) =
        .ok (escapedValue value.toList, rest) ∧
      attributeValue {} (escapedValue value.toList) = .ok value.toList := by
  constructor
  · have chars : "\"".toList = ['"'] := rfl
    rw [toList_valueText, literal, upTo, chars, splitAt?_append (quote_not_mem _)]
  · rw [attributeValue]
    exact replaced_escapedValue _ (Nat.lt_succ_self _)

/-! ## Tags -/

def attributesText (entries : List (String × String)) : List Char :=
  entries.flatMap fun entry => (attributeText entry.1 (.text entry.2)).toList

/-- How a tag ends that closes its element too, or does not. -/
def tagEnd (closes : Bool) : List Char :=
  if closes then [' ', '/', '>'] else ['>']

theorem skipSpace_start {c : Char} (isStart : isSpace c = false) (rest : List Char) :
    skipSpace (c :: rest) = c :: rest :=
  List.dropWhile_cons_of_neg (by simp [isStart])

theorem isSpace_nameStart {c : Char} (isStart : isNameStart c = true) : isSpace c = false := by
  rw [Bool.eq_false_iff]
  intro space
  have cases_ : c = ' ' ∨ c = '\t' ∨ c = '\n' ∨ c = '\r' := by simpa [isSpace, or_assoc] using space
  rcases cases_ with rfl | rfl | rfl | rfl
  all_goals
    rw [isNameStart_delimiter (by decide)] at isStart
    cases isStart

/-- The attributes of a tag are read back. -/
theorem writtenAttributes_text {entries : List (String × String)}
    (names : ∀ entry ∈ entries, IsTagName entry.1) (distinct : (entries.map (·.1)).Nodup)
    (closes : Bool) (rest : List Char) {fuel : Nat}
    (enough : (attributesText entries).length < fuel) :
    writtenAttributes {} fuel (attributesText entries ++ (tagEnd closes ++ rest)) =
      .ok (entries, closes, rest) := by
  induction entries generalizing fuel with
  | nil =>
    cases fuel with
    | zero => cases enough
    | succ fuel => cases closes <;> rfl
  | cons entry entries ih =>
    obtain ⟨name, value⟩ := entry
    obtain ⟨isTagName, others⟩ := List.forall_mem_cons.mp names
    obtain ⟨fresh, distinct⟩ := List.nodup_cons.mp distinct
    obtain ⟨c, tail, chars, isStart⟩ := isTagName.head
    have text : attributesText ((name, value) :: entries) ++ (tagEnd closes ++ rest) =
        ' ' :: (name.toList ++ '=' :: '"' :: ((valueText (.text value)).toList ++ '"' ::
          (attributesText entries ++ (tagEnd closes ++ rest)))) := by
      simp [attributesText, attributeText]
    have longer : (attributesText entries).length + 1 <
        (attributesText ((name, value) :: entries)).length := by
      simp [attributesText, attributeText]
      omega
    cases fuel with
    | zero => cases enough
    | succ fuel =>
      have isRead := ih others distinct (show (attributesText entries).length < fuel by omega)
      have absent : entries.lookup name = none := by
        rw [List.lookup_eq_none_iff]
        intro entry listed
        have apart : name ≠ entry.1 := fun same =>
          fresh (List.mem_map.mpr ⟨entry, listed, same.symm⟩)
        simpa using apart
      rw [text]
      generalize attributesText entries ++ (tagEnd closes ++ rest) = others at isRead
      have skipped : skipSpace (' ' :: (name.toList ++ '=' :: '"' ::
            ((valueText (.text value)).toList ++ '"' :: others))) =
          name.toList ++ '=' :: '"' :: ((valueText (.text value)).toList ++ '"' :: others) := by
        rw [chars, List.cons_append]
        exact skipSpace_start (isSpace_nameStart isStart) _
      have noEnd {d : Char} (noStart : isNameStart d = false) (rest : List Char) :
          name.toList ++ '=' :: '"' :: ((valueText (.text value)).toList ++ '"' :: others) ≠
            d :: rest := by
        rw [chars, List.cons_append]
        intro same
        rw [(List.cons.inj same).1, noStart] at isStart
        cases isStart
      unfold writtenAttributes
      rw [skipped]
      dsimp only
      split
      · next isEnd => exact absurd isEnd (noEnd (isNameStart_delimiter (by decide)) _)
      · next isEnd => exact absurd isEnd (noEnd (isNameStart_delimiter (by decide)) _)
      · have isEqual (rest : List Char) : expect "=" (skipSpace ('=' :: rest)) = .ok rest := rfl
        have isQuote (rest : List Char) : skipSpace ('"' :: rest) = '"' :: rest := rfl
        obtain ⟨isLiteral, isValue⟩ := value_read value others
        rw [if_neg (by simp), fullName_append isTagName (ends_equals _)]
        simp only [bind, Except.bind, isEqual, isQuote, isLiteral, isValue, isRead, absent,
          String.ofList_toList]
        rfl

/-- In a document that declares nothing, a tag has the attributes that were written into it. -/
theorem attributes_written {entries : List (String × String)}
    (names : ∀ entry ∈ entries, IsTagName entry.1) (distinct : (entries.map (·.1)).Nodup)
    (element : String) (closes : Bool) (rest : List Char) :
    attributes {} element (attributesText entries ++ (tagEnd closes ++ rest)) =
      .ok (entries, closes, rest) := by
  have isRead := writtenAttributes_text names distinct closes rest
    (show (attributesText entries).length <
      (attributesText entries ++ (tagEnd closes ++ rest)).length + 1 by
        rw [List.length_append]; omega)
  unfold attributes
  rw [isRead]
  simp [bind, Except.bind, pure, Except.pure, Declarations.rule?]

/-- What follows a name in a tag. -/
theorem ends_attributes (entries : List (String × String)) (closes : Bool) (rest : List Char) :
    Ends (attributesText entries ++ (tagEnd closes ++ rest)) := by
  cases entries with
  | nil =>
    cases closes with
    | false => exact ends_greater rest
    | true => exact ends_blank _
  | cons entry entries =>
    have chars : attributesText (entry :: entries) ++ (tagEnd closes ++ rest) =
        ' ' :: (entry.1.toList ++ ('=' :: '"' :: ((valueText (.text entry.2)).toList ++
          '"' :: (attributesText entries ++ (tagEnd closes ++ rest))))) := by
      simp [attributesText, attributeText]
    exact chars ▸ ends_blank _

end Sysml.Xml
