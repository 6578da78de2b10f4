import Sysml.Format
import Sysml.Proofs.Outcome

/-!
# Malformed input is reported

What the readers of documents do with whatever their bytes parse to. A reader takes apart a
value of which nothing is known; wherever that value is not what a document needs, it reports
malformed input (`Format.read_reports`). Three steps do not look at what they are given: the
metadata of JSON and YAML are made a mapping (`metadataOf_ok_iff` says of which values that
can be done), integers that are too long are made texts, and a manifest is asked for its model.
-/

set_option autoImplicit false

namespace Sysml

/-- The failure to report what is wrong with a document. -/
def Failure.IsMalformed (failure : Failure) : Prop :=
  ∃ reason problems, failure = .malformed reason problems

/-- There is an answer, or it is reported what is wrong. -/
abbrev Reports {α : Type} (result : Except Failure α) : Prop :=
  FailsOnly Failure.IsMalformed result

theorem reports_malformed {α : Type} (reason : String) (problems : List String) :
    Reports (.error (.malformed reason problems) : Except Failure α) :=
  .error ⟨reason, problems, rfl⟩

/-! ## Values that can be written -/

namespace Value

theorem areWritable_iff {items : List Value} :
    areWritable items = true ↔ ∀ item ∈ items, item.isWritable = true := by
  induction items with
  | nil => simp [areWritable]
  | cons item rest ih => simp [areWritable, ih]

theorem entriesWritable_iff {entries : List (Value × Value)} :
    entriesWritable entries = true ↔
      ∀ entry ∈ entries, entry.1.isWritable = true ∧ entry.2.isWritable = true := by
  induction entries with
  | nil => simp [entriesWritable]
  | cons entry rest ih => simp [entriesWritable, ih, and_assoc]

mutual

/-- A value that can be written stays so when one that can be written is put into it. -/
theorem isWritable_fill {label : Nat} {whole : Value} (isWhole : whole.isWritable = true) :
    ∀ value : Value, value.isWritable = true → (fill label whole value).isWritable = true
  | .again other => fun _ => by
    simp only [fill]
    split
    · exact isWhole
    · rfl
  | .shared other held => fun writable => by
    rw [isWritable] at writable
    rw [fill, isWritable, isWritable_fill isWhole held writable]
  | .list items | .set items => fun writable => by
    rw [isWritable] at writable
    rw [fill, isWritable, areWritable_fill isWhole items writable]
  | .map entries => fun writable => by
    rw [isWritable] at writable
    rw [fill, isWritable, entriesWritable_fill isWhole entries writable]
  | .pair first second => fun writable => by
    rw [isWritable, Bool.and_eq_true] at writable
    rw [fill, isWritable, isWritable_fill isWhole first writable.1,
      isWritable_fill isWhole second writable.2, Bool.and_self]
  | .null | .bool _ | .int _ | .double _ | .text _ | .bytes _ | .date _ | .time _ =>
    fun writable => by simpa only [fill] using writable

theorem areWritable_fill {label : Nat} {whole : Value} (isWhole : whole.isWritable = true) :
    ∀ items : List Value, areWritable items = true →
      areWritable (fillItems label whole items) = true
  | [] => fun _ => rfl
  | item :: rest => fun writable => by
    rw [areWritable, Bool.and_eq_true] at writable
    rw [fillItems, areWritable, isWritable_fill isWhole item writable.1,
      areWritable_fill isWhole rest writable.2, Bool.and_self]

theorem entriesWritable_fill {label : Nat} {whole : Value} (isWhole : whole.isWritable = true) :
    ∀ entries : List (Value × Value), entriesWritable entries = true →
      entriesWritable (fillEntries label whole entries) = true
  | [] => fun _ => rfl
  | (key, held) :: rest => fun writable => by
    rw [entriesWritable, Bool.and_eq_true, Bool.and_eq_true] at writable
    rw [fillEntries, entriesWritable, isWritable_fill isWhole key writable.1.1,
      isWritable_fill isWhole held writable.1.2, entriesWritable_fill isWhole rest writable.2,
      Bool.and_self, Bool.and_self]

end

variable {value : Value}

theorem isWritable_opened (writable : value.isWritable = true) :
    value.opened.isWritable = true := by
  cases value with
  | shared label held =>
    have whole : (shared label held).isWritable = true := writable
    exact isWritable_fill whole held writable
  | _ => exact writable

theorem items?_writable {items : List Value} (writable : value.isWritable = true)
    (isList : value.items? = some items) : ∀ item ∈ items, item.isWritable = true := by
  have opened := isWritable_opened writable
  simp only [items?] at isList
  split at isList
  · next held isHeld =>
    cases isList
    rw [isHeld] at opened
    exact areWritable_iff.mp opened
  · cases isList

theorem entries?_writable {entries : List (Value × Value)} (writable : value.isWritable = true)
    (isMap : value.entries? = some entries) :
    ∀ entry ∈ entries, entry.1.isWritable = true ∧ entry.2.isWritable = true := by
  have opened := isWritable_opened writable
  simp only [entries?] at isMap
  split at isMap
  · next held isHeld =>
    cases isMap
    rw [isHeld] at opened
    exact entriesWritable_iff.mp opened
  · cases isMap

/-- What a mapping holds under a key can be written, and so can what stands for a key that it
does not have. -/
theorem lookup_writable {entries : List (Value × Value)} {missing : Value} (key : Value)
    (writable : ∀ entry ∈ entries, entry.1.isWritable = true ∧ entry.2.isWritable = true)
    (isMissing : missing.isWritable = true) :
    ((entries.lookup key).getD missing).isWritable = true := by
  cases found : entries.lookup key with
  | none => exact isMissing
  | some held =>
    obtain ⟨other, _, listed⟩ := Entries.exists_mem_of_lookup found
    exact (writable _ listed).2

theorem field?_writable (key : String) (missing : Value) (writable : value.isWritable = true)
    (isMissing : missing.isWritable = true) :
    ((value.field? key).getD missing).isWritable = true := by
  simp only [field?]
  cases isMap : value.entries? with
  | none => exact isMissing
  | some entries => exact lookup_writable (.text key) (entries?_writable writable isMap) isMissing

theorem toText_ok (writable : value.isWritable = true) : value.toText = .ok value.display :=
  if_pos writable

theorem toShown_ok (writable : value.isWritable = true) : value.toShown = .ok value.inspect :=
  if_pos writable

end Value

/-! ## Elements and external references -/

namespace Record

theorem reports_referenced {value : Value} (writable : value.isWritable = true) :
    Reports (referenced value) := by
  have isReferred : (referred value).isWritable = true := by
    unfold referred
    split
    · exact Value.field?_writable "@id" .null writable rfl
    · exact writable
  unfold referenced
  split
  · exact .ok _
  · rw [Value.toText_ok isReferred]
    exact .ok _

/-- Whatever can be written is a record or is reported. -/
theorem reports_ofMapping {mapping : Value} (writable : mapping.isWritable = true) :
    Reports (ofMapping mapping) := by
  unfold ofMapping
  split
  · next entries isMap =>
    have field (key : String) : ((entries.lookup (.text key)).getD .null).isWritable = true :=
      Value.lookup_writable _ (Value.entries?_writable writable isMap) rfl
    simp only [Value.toText_ok (field "@id"), Value.toText_ok (field "@type"),
      Value.toShown_ok writable, ok_bind]
    split
    · exact reports_malformed _ _
    · split
      · exact reports_malformed _ _
      · apply FailsOnly.bind (reports_referenced (field "owner"))
        intro owner _
        apply FailsOnly.bind (reports_referenced (field "source"))
        intro source _
        apply FailsOnly.bind (reports_referenced (field "target"))
        intro target _
        exact .ok _
  · exact reports_malformed _ _

end Record

namespace Document

theorem reports_externalEntry {entry : Value} (writable : entry.isWritable = true) :
    Reports (externalEntry entry) := by
  unfold externalEntry
  have id := Value.field?_writable "@id" .null writable rfl
  have name := Value.field?_writable "qualifiedName" (.text "") writable rfl
  simp only [Value.toText_ok id, Value.toText_ok name, Value.toShown_ok writable, ok_bind]
  split
  · exact reports_malformed _ _
  · exact .ok _

theorem reports_externalPair {entry : Value × Value}
    (writable : entry.1.isWritable = true ∧ entry.2.isWritable = true) :
    Reports (externalPair entry) := by
  unfold externalPair
  rw [Value.toText_ok writable.1, Value.toText_ok writable.2]
  exact .ok _

theorem reports_externalsOf {value : Value} (writable : value.isWritable = true) :
    Reports (externalsOf value) := by
  have opened := Value.isWritable_opened writable
  unfold externalsOf
  split
  · exact .ok _
  · split
    · next entries isMap =>
      rw [isMap] at opened
      apply FailsOnly.map
      apply FailsOnly.mapM
      intro entry listed
      exact reports_externalPair (Value.entriesWritable_iff.mp opened entry listed)
    · next entries isList =>
      rw [isList] at opened
      apply FailsOnly.map
      apply FailsOnly.mapM
      intro entry listed
      exact reports_externalEntry (Value.areWritable_iff.mp opened entry listed)
    · exact reports_malformed _ _

/-! ## Metadata -/

/-- A value that stands for an entry: two parts, of which the first can be a key. -/
def IsEntry (pair : Value) : Prop :=
  ∃ key held, partsOf? pair = some [key, held] ∧ key.isKey = true

/-- A value that can be made a mapping: nothing, a mapping, or entries. -/
def IsConvertible (value : Value) : Prop :=
  value.isAbsent = true ∨ value.entries?.isSome = true ∨
    ∃ pairs, partsOf? value = some pairs ∧ ∀ pair ∈ pairs, IsEntry pair

theorem metadataEntry_ok_iff (pair : Value) :
    (∃ entry, metadataEntry pair = .ok entry) ↔ IsEntry pair := by
  unfold metadataEntry IsEntry
  constructor
  · rintro ⟨entry, made⟩
    split at made
    · cases made
    · next key held parts =>
      cases isKey : key.isKey with
      | true => exact ⟨key, held, parts, isKey⟩
      | false =>
        rw [isKey] at made
        cases made
    · cases made
  · rintro ⟨key, held, parts, isKey⟩
    rw [parts]
    exact ⟨(key, held), if_pos isKey⟩

theorem mapM_metadataEntry_ok_iff (pairs : List Value) :
    (∃ entries, pairs.mapM metadataEntry = .ok entries) ↔ ∀ pair ∈ pairs, IsEntry pair := by
  induction pairs with
  | nil =>
    constructor
    · intro _ pair listed
      cases listed
    · intro _
      exact ⟨[], rfl⟩
  | cons pair rest ih =>
    rw [List.mapM_cons, List.forall_mem_cons, ← metadataEntry_ok_iff, ← ih]
    constructor
    · rintro ⟨entries, made⟩
      obtain ⟨entry, first, made⟩ := result_bind_ok made
      obtain ⟨others, second, _⟩ := result_bind_ok made
      exact ⟨⟨entry, first⟩, others, second⟩
    · rintro ⟨⟨entry, first⟩, others, second⟩
      rw [first, second]
      exact ⟨entry :: others, rfl⟩

/-- Metadata are read exactly from the values that can be made a mapping. -/
theorem metadataOf_ok_iff (value : Value) :
    (∃ metadata, metadataOf value = .ok metadata) ↔ IsConvertible value := by
  unfold metadataOf IsConvertible
  cases absent : value.isAbsent with
  | true => simp
  | false =>
    cases isMap : value.entries? with
    | some entries => simp
    | none =>
      cases parts : partsOf? value with
      | none => simp
      | some pairs =>
        simp only [Bool.false_eq_true, ↓reduceIte, Option.isSome_none, Option.some.injEq,
          exists_eq_left', false_or, ← mapM_metadataEntry_ok_iff]
        constructor
        · rintro ⟨metadata, made⟩
          obtain ⟨entries, made, _⟩ := result_map_ok made
          exact ⟨entries, made⟩
        · rintro ⟨entries, made⟩
          rw [made]
          exact ⟨_, rfl⟩

theorem reports_metadataOf {value : Value} (convertible : IsConvertible value) :
    Reports (metadataOf value) := by
  obtain ⟨metadata, made⟩ := (metadataOf_ok_iff value).mpr convertible
  rw [made]
  exact .ok _

/-! ## JSON and YAML -/

theorem reports_jsonLdParts (payload : Value) : Reports (jsonLdParts payload) := by
  unfold jsonLdParts
  split
  · exact .ok _
  · split
    · exact .ok _
    · exact .ok _
    · exact reports_malformed _ _
  · exact reports_malformed _ _

/-- The parts of a JSON value that can be written can be written, and its metadata can be made a
mapping if those that it gives beside its graph can. -/
theorem jsonLdParts_ok {payload graph external metadata : Value}
    (writable : payload.isWritable = true)
    (convertible : ∀ metadata, (payload.field? "@graph").isSome = true →
      payload.field? "metadata" = some metadata → IsConvertible metadata)
    (parts : jsonLdParts payload = .ok (graph, external, metadata)) :
    graph.isWritable = true ∧ external.isWritable = true ∧ IsConvertible metadata := by
  have nothing : IsConvertible (.map []) := .inl rfl
  unfold jsonLdParts at parts
  split at parts
  · cases parts
    exact ⟨writable, rfl, nothing⟩
  · split at parts
    · next held graph isGraph =>
      cases parts
      have isWritable := Value.field?_writable "@graph" .null writable rfl
      rw [isGraph] at isWritable
      refine ⟨isWritable, Value.field?_writable "externalReferences" (.list []) writable rfl, ?_⟩
      split
      · exact nothing
      · next given =>
        cases isGiven : Value.field? "metadata" _ with
        | none => exact .inl rfl
        | some metadata => exact convertible metadata (by rw [isGraph]; rfl) isGiven
    · cases parts
      refine ⟨?_, rfl, nothing⟩
      rw [Value.isWritable, Value.areWritable, writable]
      rfl
    · cases parts
  · cases parts

theorem reports_ofJsonLdPayload {payload : Value} (writable : payload.isWritable = true)
    (convertible : ∀ metadata, (payload.field? "@graph").isSome = true →
      payload.field? "metadata" = some metadata → IsConvertible metadata) :
    Reports (ofJsonLdPayload payload) := by
  unfold ofJsonLdPayload
  apply FailsOnly.bind (reports_jsonLdParts payload)
  rintro ⟨graph, external, metadata⟩ parts
  obtain ⟨isGraph, isExternal, isMetadata⟩ := jsonLdParts_ok writable convertible parts
  dsimp only
  split
  · next elements isList =>
    apply FailsOnly.bind (FailsOnly.mapM fun element listed =>
      Record.reports_ofMapping (Value.items?_writable isGraph isList element listed))
    intro records _
    apply FailsOnly.bind (reports_externalsOf isExternal)
    intro external _
    apply FailsOnly.bind (reports_metadataOf isMetadata)
    intro metadata _
    exact .ok _
  · exact reports_malformed _ _

theorem reports_yamlElements (payload : Value) : Reports (yamlElements payload) := by
  unfold yamlElements
  split
  · exact .ok _
  · split
    · exact reports_malformed _ _
    · split
      · exact .ok _
      · exact reports_malformed _ _

theorem yamlElements_writable {payload : Value} {elements : List Value}
    (writable : payload.isWritable = true) (isElements : yamlElements payload = .ok elements) :
    ∀ element ∈ elements, element.isWritable = true := by
  unfold yamlElements at isElements
  split at isElements
  · next isList =>
    cases isElements
    exact Value.items?_writable writable isList
  · split at isElements
    · cases isElements
    · split at isElements
      · next isList =>
        cases isElements
        exact Value.items?_writable (Value.field?_writable "elements" (.list []) writable rfl) isList
      · cases isElements

theorem reports_ofYamlPayload {payload : Value} (writable : payload.isWritable = true)
    (convertible : ∀ metadata, payload.field? "metadata" = some metadata →
      IsConvertible metadata) :
    Reports (ofYamlPayload payload) := by
  unfold ofYamlPayload
  apply FailsOnly.bind (reports_yamlElements payload)
  intro elements isElements
  apply FailsOnly.bind (FailsOnly.mapM fun element listed =>
    Record.reports_ofMapping (yamlElements_writable writable isElements element listed))
  intro records _
  apply FailsOnly.bind
    (reports_externalsOf (Value.field?_writable "externalReferences" .null writable rfl))
  intro external _
  apply FailsOnly.bind
  · apply reports_metadataOf
    cases isGiven : payload.field? "metadata" with
    | none => exact .inl rfl
    | some metadata => exact convertible metadata isGiven
  · intro metadata _
    exact .ok _

/-! ## XMI -/

theorem reports_readExtensionChild (document : Document) (child : Xml.Element) :
    Reports (readExtensionChild document child) := by
  unfold readExtensionChild
  split
  · exact .ok _
  · split
    · exact reports_malformed _ _
    · split
      · exact reports_malformed _ _
      · exact .ok _
  · exact .ok _

mutual

/-- Whatever an element holds, it is read or reported. -/
theorem reports_readElement : ∀ (element : Xml.Element) (document : Document)
    (owner ownerName : Option String), Reports (readElement document owner ownerName element)
  | .node name attributes text children, document, owner, ownerName => by
    have inside := reports_readElements children
    unfold readElement
    extract_lets element label kind id
    by_cases isExtension : label = "Extension"
    · rw [if_pos isExtension]
      apply FailsOnly.foldlM
      intro before child _
      exact reports_readExtensionChild before child
    rw [if_neg isExtension]
    by_cases isDoc : label = "documentation"
    · rw [if_pos isDoc]
      exact .ok _
    rw [if_neg isDoc]
    split
    · exact inside document owner ownerName
    · split
      · exact reports_malformed _ _
      · exact inside _ _ _

theorem reports_readElements : ∀ (elements : List Xml.Element) (document : Document)
    (owner ownerName : Option String), Reports (readElements document owner ownerName elements)
  | [], document, _, _ => .ok document
  | element :: rest, document, owner, ownerName => by
    rw [readElements]
    apply FailsOnly.bind (reports_readElement element document owner ownerName)
    intro later _
    exact reports_readElements rest later owner ownerName

end

/-- Bytes that are XML, or that are seen not to be, are read or reported. -/
theorem reports_ofXmi {octets : ByteArray}
    (parsed : ∀ fault, Xml.read octets.toList = .error fault → fault = .malformed) :
    Reports (ofXmi octets) := by
  unfold ofXmi
  split
  · next fault failed =>
    rw [parsed fault failed]
    exact reports_malformed _ _
  · next root _ =>
    dsimp only
    split
    · exact reports_readElements _ _ _ _
    · exact reports_readElement _ _ _ _

end Document

/-! ## JSON texts -/

namespace Json

theorem outcome_ok {α β : Type} {result : Except Fault α} {next : α → Except Fault β} {last : β}
    (ran : (result >>= next) = .ok last) : ∃ value, result = .ok value ∧ next value = .ok last := by
  cases result with
  | error fault => cases ran
  | ok value => exact ⟨value, rfl, ran⟩

/-- A number of so many digits is below that power of ten. -/
theorem natOfDigits_lt {digits : List Char} (all : ∀ c ∈ digits, isDigit c = true) :
    natOfDigits digits < Nat.pow 10 digits.length := by
  have from_ (start : Nat) : ∀ digits : List Char, (∀ c ∈ digits, isDigit c = true) →
      digits.foldl (fun n c => 10 * n + (c.toNat - 48)) start <
        (start + 1) * Nat.pow 10 digits.length := by
    intro digits
    induction digits generalizing start with
    | nil => simp
    | cons c rest ih =>
      intro all
      have last := ih (10 * start + (c.toNat - 48)) fun other listed =>
        all other (List.mem_cons_of_mem _ listed)
      have small : c.toNat - 48 ≤ 9 := by
        have digit := all c List.mem_cons_self
        simp only [isDigit, Bool.and_eq_true, decide_eq_true_eq, Char.le_def] at digit
        have le : c.toNat ≤ 57 := by exact_mod_cast digit.2
        omega
      calc _ < (10 * start + (c.toNat - 48) + 1) * Nat.pow 10 rest.length := last
        _ ≤ ((start + 1) * 10) * Nat.pow 10 rest.length := Nat.mul_le_mul_right _ (by omega)
        _ = (start + 1) * Nat.pow 10 (c :: rest).length := by
          rw [List.length_cons, Nat.pow_eq, Nat.pow_eq, Nat.pow_succ', Nat.mul_assoc]
  have bound := from_ 0 digits all
  rwa [Nat.zero_add, Nat.one_mul] at bound

theorem isDigit_takeWhile (text : List Char) : ∀ c ∈ text.takeWhile isDigit, isDigit c = true :=
  List.all_eq_true.mp List.all_takeWhile

/-- The whole part of a number is made of digits. -/
theorem whole?_digits {text digits rest : List Char} {negative : Bool}
    (isWhole : whole? text = some (negative, digits, rest)) : ∀ c ∈ digits, isDigit c = true := by
  unfold whole? at isWhole
  split at isWhole
  split at isWhole
  · cases isWhole
    exact List.forall_mem_singleton.mpr rfl
  · extract_lets run at isWhole
    split at isWhole
    · cases isWhole
    · simp only [Option.some.injEq, Prod.mk.injEq] at isWhole
      obtain ⟨-, isRun, -⟩ := isWhole
      rw [← isRun]
      exact isDigit_takeWhile _

theorem number_writable {text rest : List Char} {read : Value}
    (isRead : number text = .ok (read, rest)) : read.isWritable = true := by
  unfold number at isRead
  cases isWhole : whole? text with
  | none => rw [isWhole] at isRead; cases isRead
  | some found =>
    obtain ⟨negative, digits, after⟩ := found
    rw [isWhole] at isRead
    have bound := natOfDigits_lt (whole?_digits isWhole)
    simp only [required, bind, Except.bind] at isRead
    split at isRead
    · split at isRead
      · cases isRead
      · next short =>
        cases isRead
        have grows (limit : Nat) (le : digits.length ≤ limit) :
            natOfDigits digits < Nat.pow 10 limit :=
          Nat.lt_of_lt_of_le bound (Nat.pow_le_pow_right (by decide) le)
        have within := grows Decimal.digitLimit (Nat.not_lt.mp short)
        rw [Value.isWritable, Decimal.hasText, decide_eq_true_eq]
        split <;> simpa using within
    · cases isRead
      rfl
    · cases isRead
      rfl

theorem scalar_writable {text rest : List Char} {read : Value}
    (isRead : scalar text = .ok (read, rest)) : read.isWritable = true := by
  unfold scalar at isRead
  extract_lets words at isRead
  split at isRead
  · next found isWord =>
    cases isRead
    obtain ⟨word, listed, isWord⟩ := List.exists_of_findSome?_eq_some isWord
    obtain ⟨_, _, same⟩ := Option.map_eq_some_iff.mp isWord
    cases same
    have all : ∀ word ∈ words, word.2.isWritable = true := by
      simp [words, Value.isWritable]
    exact all word listed
  · exact number_writable isRead

theorem put_writable {key held : Value} {entries : List (Value × Value)}
    (isKey : key.isWritable = true) (isHeld : held.isWritable = true)
    (writable : Value.entriesWritable entries = true) :
    Value.entriesWritable (Entries.put key held entries) = true := by
  induction entries with
  | nil => simp [Entries.put, Value.entriesWritable, isKey, isHeld]
  | cons entry rest ih =>
    simp only [Value.entriesWritable, Bool.and_eq_true] at writable
    rw [Entries.put]
    split
    · simp only [Value.entriesWritable, writable, isHeld, Bool.and_self]
    · simp only [Value.entriesWritable, writable, ih, Bool.and_self]

/-- What a JSON text says holds no integer that is too long: such a text is turned down. The
readers of values, items and members go down in step with the fuel. -/
theorem value_writable (fuel : Nat) :
    (∀ {text rest : List Char} {read : Value}, value fuel text = .ok (read, rest) →
      read.isWritable = true) ∧
    (∀ {items_ : List Value} {text rest : List Char} {read : Value},
      (∀ item ∈ items_, item.isWritable = true) → items fuel items_ text = .ok (read, rest) →
        read.isWritable = true) ∧
    (∀ {entries : List (Value × Value)} {text rest : List Char} {read : Value},
      Value.entriesWritable entries = true → members fuel entries text = .ok (read, rest) →
        read.isWritable = true) := by
  induction fuel with
  | zero =>
    refine ⟨?_, ?_, ?_⟩
    · intro _ _ _ isRead
      cases isRead
    · intro _ _ _ _ _ isRead
      cases isRead
    · intro _ _ _ _ _ isRead
      cases isRead
  | succ fuel ih =>
    obtain ⟨ofValue, ofItems, ofMembers⟩ := ih
    refine ⟨?_, ?_, ?_⟩
    · intro text rest read isRead
      unfold value at isRead
      split at isRead
      · obtain ⟨⟨s, after⟩, _, isRead⟩ := outcome_ok isRead
        cases isRead
        rfl
      · split at isRead
        · cases isRead
          rfl
        · exact ofItems (List.forall_mem_nil _) isRead
      · split at isRead
        · cases isRead
          rfl
        · exact ofMembers rfl isRead
      · exact scalar_writable isRead
    · intro items_ text rest read all isRead
      unfold items at isRead
      obtain ⟨⟨item, after⟩, isItem, isRead⟩ := outcome_ok isRead
      have more : ∀ other ∈ item :: items_, other.isWritable = true :=
        List.forall_mem_cons.mpr ⟨ofValue isItem, all⟩
      dsimp only at isRead
      split at isRead
      · exact ofItems more isRead
      · cases isRead
        rw [Value.isWritable, Value.areWritable_iff]
        intro other listed
        exact more other (List.mem_reverse.mp listed)
      · cases isRead
    · intro entries text rest read all isRead
      unfold members at isRead
      split at isRead
      · obtain ⟨⟨key, after⟩, _, isRead⟩ := outcome_ok isRead
        dsimp only at isRead
        split at isRead
        · obtain ⟨⟨held, after⟩, isHeld, isRead⟩ := outcome_ok isRead
          have isKey : (Value.text key).isWritable = true := rfl
          have more := put_writable isKey (ofValue isHeld) all
          dsimp only at isRead
          split at isRead
          · exact ofMembers more isRead
          · cases isRead
            exact more
          · cases isRead
        · cases isRead
      · cases isRead

theorem read_writable {text : String} {held : Value} (isRead : read text = .ok held) :
    held.isWritable = true := by
  unfold read at isRead
  obtain ⟨⟨found, rest⟩, isValue, isRead⟩ := outcome_ok isRead
  dsimp only at isRead
  split at isRead
  · cases isRead
    exact (value_writable _).1 isValue
  · cases isRead

end Json

/-! ## Archives -/

namespace Document

theorem readJson_writable {malformed : Failure} {octets : ByteArray} {payload : Value}
    (parsed : readJson malformed octets = .ok payload) : payload.isWritable = true := by
  unfold readJson at parsed
  split at parsed
  · cases parsed
  · next text _ =>
    cases isRead : Json.read text with
    | error fault =>
      rw [isRead] at parsed
      cases parsed
    | ok held =>
      rw [isRead] at parsed
      cases parsed
      exact Json.read_writable isRead

/-- An archive of which every entry can be taken out or is seen to be damaged, whose manifest is
a mapping or no JSON, and where no entry is in an encoding that XML does not know. -/
structure IsReadable (archive : Archive.Opened) : Prop where
  contents : ∀ name ∈ archive.names, Reports (entryContent archive name)
  manifest : ∀ content, entryContent archive manifestEntry = .ok content →
    Reports (readJson (.malformed "Invalid KPAR archive" []) ⟨content.toArray⟩) ∧
      ∀ manifest, readJson (.malformed "Invalid KPAR archive" []) ⟨content.toArray⟩ = .ok manifest →
        manifest.entries?.isSome = true
  models : ∀ name content fault, entryContent archive name = .ok content →
    Xml.read content = .error fault → fault = .malformed

variable {archive : Archive.Opened}

theorem reports_modelNamed (readable : IsReadable archive) : Reports (modelNamed archive) := by
  unfold modelNamed
  split
  · next listed =>
    apply FailsOnly.bind (readable.contents manifestEntry (List.contains_iff_mem.mp listed))
    intro content isContent
    obtain ⟨reports, isMapping⟩ := readable.manifest content isContent
    apply FailsOnly.bind reports
    intro manifest isManifest
    obtain ⟨entries, isMap⟩ := Option.isSome_iff_exists.mp (isMapping manifest isManifest)
    rw [isMap]
    exact .ok _
  · exact .ok _

theorem reports_ofKpar {octets : ByteArray} (parsed : Archive.read octets.toList = .ok archive)
    (readable : IsReadable archive) : Reports (ofKpar octets) := by
  unfold ofKpar
  rw [parsed]
  apply FailsOnly.bind (reports_modelNamed readable)
  intro named _
  dsimp only
  split
  · exact reports_malformed _ _
  · next name isChosen =>
    have listed : name ∈ archive.names := by
      rcases Option.or_eq_some_iff.mp isChosen with isNamed | ⟨_, isFirst⟩
      · exact List.mem_of_find?_eq_some isNamed
      · exact List.mem_of_find?_eq_some isFirst
    apply FailsOnly.bind (readable.contents name listed)
    intro content isContent
    apply reports_ofXmi
    intro fault failed
    rw [Text.Utf8.toList_data] at failed
    exact readable.models name content fault isContent failed

end Document

/-! ## The readers -/

namespace Format

open Document

/-- Bytes that the library of a format parses, to something that the reader does not ask for more
than it says: metadata that can be made a mapping, integers that are not too long, entries of an
archive that can be taken out. -/
inductive Parses : Format → ByteArray → Prop
  | xmi {octets : ByteArray} {root : Xml.Element}
      (parsed : Xml.read octets.toList = .ok root) : Parses .xmi octets
  | yaml {octets : ByteArray} {text : String} {payload : Value}
      (isText : String.fromUTF8? octets = some text) (parsed : Yaml.read text = .ok payload)
      (writable : payload.isWritable = true)
      (convertible : ∀ metadata, payload.field? "metadata" = some metadata →
        IsConvertible metadata) : Parses .yaml octets
  | jsonLd {octets : ByteArray} {payload : Value}
      (parsed : readJson (.malformed "Invalid JSON-LD" []) octets = .ok payload)
      (convertible : ∀ metadata, (payload.field? "@graph").isSome = true →
        payload.field? "metadata" = some metadata → IsConvertible metadata) :
      Parses .jsonLd octets
  | kpar {octets : ByteArray} {archive : Archive.Opened}
      (parsed : Archive.read octets.toList = .ok archive) (readable : IsReadable archive) :
      Parses .kpar octets

theorem reports_read {format : Format} {octets : ByteArray} (parses : format.Parses octets) :
    Reports (format.read octets) := by
  cases parses with
  | xmi parsed =>
    apply reports_ofXmi
    intro fault failed
    rw [parsed] at failed
    cases failed
  | yaml isText parsed writable convertible =>
    unfold Format.read ofYaml
    dsimp only
    rw [isText]
    dsimp only
    rw [parsed]
    exact reports_ofYamlPayload writable convertible
  | jsonLd parsed convertible =>
    unfold Format.read ofJsonLd
    dsimp only
    rw [parsed]
    exact reports_ofJsonLdPayload (readJson_writable parsed) convertible
  | kpar parsed readable => exact reports_ofKpar parsed readable

/-- From whatever the bytes parse to, a reader makes a document or reports malformed input. -/
theorem read_reports {format : Format} {octets : ByteArray} (parses : format.Parses octets) :
    (∃ document, format.read octets = .ok document) ∨
      ∃ reason problems, format.read octets = .error (.malformed reason problems) := by
  generalize isResult : format.read octets = result
  have reports := reports_read parses
  rw [isResult] at reports
  cases reports with
  | ok document => exact .inl ⟨document, rfl⟩
  | error isMalformed =>
    obtain ⟨reason, problems, same⟩ := isMalformed
    exact .inr ⟨reason, problems, congrArg Except.error same⟩

def pairedText : String :=
  "\x7b\"@graph\": [], \"metadata\": [[\"tool\", \"x\"]]\x7d"

theorem read_reports_paired :
    readJson (.malformed "Invalid JSON-LD" []) pairedText.toUTF8 =
        .ok (.object [("@graph", .list []), ("metadata", .list [.list [.text "tool", .text "x"]])]) ∧
      ((∃ document, Format.jsonLd.read pairedText.toUTF8 = .ok document) ∨
        ∃ reason problems,
          Format.jsonLd.read pairedText.toUTF8 = .error (.malformed reason problems)) := by
  have parsed : readJson (.malformed "Invalid JSON-LD" []) pairedText.toUTF8 =
      .ok (.object [("@graph", .list []),
        ("metadata", .list [.list [.text "tool", .text "x"]])]) := by
    rw [readJson, Text.Utf8.fromUTF8?_toUTF8]
    simp only [Json.read, pairedText, String.reduceToList]
    with_unfolding_all rfl
  refine ⟨parsed, read_reports (.jsonLd parsed ?_)⟩
  intro metadata _ isMetadata
  have same : metadata = .list [.list [.text "tool", .text "x"]] := by
    have found : Value.field? "metadata" (.object [("@graph", .list []),
        ("metadata", .list [.list [.text "tool", .text "x"]])]) =
        some (.list [.list [.text "tool", .text "x"]]) := by
      with_unfolding_all rfl
    exact Option.some.inj (isMetadata.symm.trans found)
  rw [same]
  refine .inr (.inr ⟨_, rfl, ?_⟩)
  rintro pair listed
  rw [List.mem_singleton.mp listed]
  exact ⟨_, _, rfl, rfl⟩

def countedText : String :=
  "\x7b\"@graph\": [], \"metadata\": 5\x7d"

/-- A number that stands where metadata should is not reported: it cannot be made a mapping. -/
theorem countedText_unreported :
    (∃ payload, readJson (.malformed "Invalid JSON-LD" []) countedText.toUTF8 = .ok payload) ∧
      ¬ ((∃ document, Format.jsonLd.read countedText.toUTF8 = .ok document) ∨
        ∃ reason problems,
          Format.jsonLd.read countedText.toUTF8 = .error (.malformed reason problems)) := by
  have parsed : readJson (.malformed "Invalid JSON-LD" []) countedText.toUTF8 =
      .ok (.object [("@graph", .list []), ("metadata", .int 5)]) := by
    rw [readJson, Text.Utf8.fromUTF8?_toUTF8]
    simp only [Json.read, countedText, String.reduceToList]
    with_unfolding_all rfl
  have fails : Format.jsonLd.read countedText.toUTF8 = .error .wrongKind := by
    unfold Format.read ofJsonLd
    dsimp only
    rw [parsed]
    with_unfolding_all rfl
  refine ⟨⟨_, parsed⟩, ?_⟩
  rw [fails]
  rintro (⟨_, isRead⟩ | ⟨_, _, isReported⟩)
  · cases isRead
  · cases isReported

end Format

end Sysml
