import Sysml.Format
import Sysml.Proofs.Format.Interchanged
import Sysml.Proofs.Outcome

/-!
# What readers give

No reader gives a record without an id or a kind. An id, or what refers to one, is a text, whatever
stood in its place, because a value that does not count as absent has a text with something in it
(`Value.display_ne`). Main statement: `Format.read_received`.
-/

set_option autoImplicit false

namespace Sysml

/-! ## Texts of values -/

theorem Decimal.Layout.magnitude_ne (layout : Layout) (s : Scientific) :
    layout.magnitude s ≠ [] := by
  unfold magnitude
  simp only
  split
  · simp
  · split
    · simp
    · split
      · simp
      · split <;> simp

theorem Decimal.Layout.text_ne (bits : UInt64) : plain.text bits ≠ "" := by
  unfold text
  split
  · decide
  · split
    · simp [magnitude_ne]
    · split <;> decide

theorem Text.quoted_ne (s : String) : quoted s ≠ "" := by
  simp [quoted]

theorem toString_int_ne (n : Int) : toString n ≠ "" := by
  cases n with
  | ofNat n =>
    change Nat.repr n ≠ ""
    simp [Nat.repr]
  | negSucc n =>
    change "-" ++ Nat.repr (n + 1) ≠ ""
    simp

theorem Moment.iso_ne (between : String) (moment : Moment) : moment.iso between ≠ "" := by
  unfold iso
  simp only
  split <;> simp

theorem Moment.call_ne (moment : Moment) : moment.call ≠ "" := by
  unfold call
  simp only
  split <;> simp

namespace Value

theorem ellipsis_ne (isMapping : Bool) : ellipsis isMapping ≠ "" := by
  cases isMapping <;> decide

/-- Inside of a container every value shows. -/
theorem inspectIn_ne : ∀ (value : Value) (around : List (Nat × Bool)), value.inspectIn around ≠ ""
  | .null, _ => by simp [inspectIn]
  | .bool b, _ => by cases b <;> simp [inspectIn]
  | .int n, _ => by simpa only [inspectIn] using toString_int_ne n
  | .double bits, _ => by simpa only [inspectIn] using Decimal.Layout.text_ne bits
  | .text s, _ => by simpa only [inspectIn] using Text.quoted_ne s
  | .bytes octets, _ => by simp [inspectIn, quotedBytes]
  | .date moment, _ => by simpa only [inspectIn] using Moment.call_ne moment
  | .time clock, _ => by simp [inspectIn]
  | .list items, _ => by simp [inspectIn]
  | .map entries, _ => by simp [inspectIn]
  | .set members, _ => by
    rw [inspectIn]
    split <;> simp
  | .pair first second, _ => by simp [inspectIn]
  | .shared label held, around => by
    rw [inspectIn]
    split
    · exact ellipsis_ne _
    · exact inspectIn_ne held _
  | .again label, around => by
    rw [inspectIn]
    exact ellipsis_ne _

theorem isAbsent_bare : ∀ value : Value, value.bare.isAbsent = value.isAbsent
  | .shared _ held => isAbsent_bare held
  | .null | .bool _ | .int _ | .double _ | .text _ | .bytes _ | .date _ | .time _ | .list _ |
    .map _ | .set _ | .pair _ _ | .again _ => rfl

/-- What does not count as absent shows. -/
theorem display_ne {value : Value} (present : value.isAbsent = false) : value.display ≠ "" := by
  unfold display
  split
  · next s isText =>
    rw [← isAbsent_bare, isText] at present
    simpa [isAbsent] using present
  · exact Moment.iso_ne _ _
  · simp [Moment.clockText]
  · exact inspectIn_ne value []

theorem toText_ne {value : Value} (present : value.isAbsent = false) {text : String}
    (isText : value.toText = .ok text) : text ≠ "" := by
  unfold toText at isText
  split at isText
  · cases isText
    exact display_ne present
  · cases isText

end Value

/-! ## Records -/

structure Record.Received (record : Record) : Prop where
  id : ∃ id, id ≠ "" ∧ record.id = .text id
  kind : record.kind ≠ ""
  owner : Key.IsSpelled record.owner
  source : ∀ id ∈ record.source, ∃ name, id = .text name
  target : ∀ id ∈ record.target, ∃ name, id = .text name

theorem Key.IsSpelled.isText {id? : Option Key} (spelled : Key.IsSpelled id?) :
    ∀ id ∈ id?, ∃ name, id = .text name := by
  intro id isId
  obtain ⟨name, -, isName⟩ := spelled id isId
  exact ⟨name, isName⟩

namespace Record

theorem referenced_spelled {value : Value} {id? : Option Key}
    (isReferenced : referenced value = .ok id?) : Key.IsSpelled id? := by
  unfold referenced at isReferenced
  cases present : (referred value).isAbsent with
  | true =>
    rw [present] at isReferenced
    cases isReferenced
    nofun
  | false =>
    rw [present] at isReferenced
    obtain ⟨text, isText, rfl⟩ := result_map_ok isReferenced
    rintro _ ⟨⟩
    exact ⟨text, Value.toText_ne present isText, rfl⟩

theorem ofMapping_received {mapping : Value} {record : Record}
    (isRecord : ofMapping mapping = .ok record) : record.Received := by
  unfold ofMapping at isRecord
  split at isRecord
  · extract_lets field id kind rest kindAndRest at isRecord
    cases someId : id.isAbsent with
    | true =>
      rw [someId, if_pos rfl] at isRecord
      obtain ⟨_, _, failed⟩ := result_bind_ok isRecord
      cases failed
    | false =>
      rw [someId, if_neg Bool.false_ne_true] at isRecord
      simp only [kindAndRest] at isRecord
      cases someKind : kind.isAbsent with
      | true =>
        rw [someKind, if_pos rfl] at isRecord
        obtain ⟨_, _, failed⟩ := result_bind_ok isRecord
        cases failed
      | false =>
        rw [someKind, if_neg Bool.false_ne_true] at isRecord
        obtain ⟨idText, isId, isRecord⟩ := result_bind_ok isRecord
        obtain ⟨kindText, isKind, isRecord⟩ := result_bind_ok isRecord
        obtain ⟨owner, isOwner, isRecord⟩ := result_bind_ok isRecord
        obtain ⟨source, isSource, isRecord⟩ := result_bind_ok isRecord
        obtain ⟨target, isTarget, isRecord⟩ := result_bind_ok isRecord
        cases isRecord
        exact
          { id := ⟨idText, Value.toText_ne someId isId, rfl⟩
            kind := Value.toText_ne someKind isKind
            owner := referenced_spelled isOwner
            source := (referenced_spelled isSource).isText
            target := (referenced_spelled isTarget).isText }
  · cases isRecord

end Record

/-! ## Documents -/

def namesAsKeys (names : List (String × String)) : List (Key × Key) :=
  names.map fun name => (.text name.1, .text name.2)

/-- Every id in the list is a text and is there once. -/
def IsListing (references : List (Key × Key)) : Prop :=
  ∃ names, references = namesAsKeys names ∧ (names.map (·.1)).Nodup

theorem put_namesAsKeys (id name : String) (names : List (String × String)) :
    Entries.put (Key.text id) (Key.text name) (namesAsKeys names) =
      namesAsKeys (Entries.put id name names) := by
  induction names with
  | nil => rfl
  | cons first rest ih =>
    change Entries.put (Key.text id) (Key.text name)
      ((Key.text first.1, Key.text first.2) :: namesAsKeys rest) = _
    rw [Entries.put, Entries.put, Key.text_beq]
    split
    · rfl
    · rw [ih]
      rfl

theorem IsListing.nil : IsListing [] :=
  ⟨[], rfl, .nil⟩

theorem IsListing.put {references : List (Key × Key)} (listing : IsListing references)
    (id name : String) : IsListing (Entries.put (.text id) (.text name) references) := by
  obtain ⟨names, rfl, distinct⟩ := listing
  exact ⟨_, put_namesAsKeys id name names, Entries.nodup_put id name distinct⟩

structure Document.Received (document : Document) : Prop where
  records : ∀ record ∈ document.records, record.Received
  external : IsListing document.externalRefs

namespace Document

theorem mapM_ok_forall {α β : Type} {step : α → Except Failure β} {holds : β → Prop}
    {items : List α} {results : List β} (ran : items.mapM step = .ok results)
    (each : ∀ item result, step item = .ok result → holds result) :
    ∀ result ∈ results, holds result := by
  induction items generalizing results with
  | nil =>
    cases ran
    exact List.forall_mem_nil _
  | cons item rest ih =>
    rw [List.mapM_cons] at ran
    obtain ⟨result, first, ran⟩ := result_bind_ok ran
    obtain ⟨others, later, ran⟩ := result_bind_ok ran
    cases ran
    exact List.forall_mem_cons.mpr ⟨each item result first, ih later⟩

/-- References of which each is a text and has a text are held as a listing. -/
theorem isListing_ofPairs {pairs : List (Key × Key)}
    (texts : ∀ pair ∈ pairs, ∃ id name, pair = (Key.text id, Key.text name)) :
    IsListing (Entries.ofPairs pairs) := by
  have put_ : ∀ references, IsListing references → IsListing
      (pairs.foldl (fun entries pair => Entries.put pair.1 pair.2 entries) references) := by
    induction pairs with
    | nil => exact fun _ listing => listing
    | cons pair rest ih =>
      obtain ⟨isText, others⟩ := List.forall_mem_cons.mp texts
      obtain ⟨id, name, rfl⟩ := isText
      exact fun references listing => ih others _ (listing.put id name)
  exact put_ [] .nil

theorem externalEntry_texts {entry : Value} {pair : Key × Key}
    (isEntry : externalEntry entry = .ok pair) :
    ∃ id name, pair = (Key.text id, Key.text name) := by
  unfold externalEntry at isEntry
  extract_lets id name rest at isEntry
  split at isEntry
  · obtain ⟨_, _, failed⟩ := result_bind_ok isEntry
    cases failed
  · obtain ⟨id, _, isEntry⟩ := result_bind_ok isEntry
    obtain ⟨name, _, isEntry⟩ := result_bind_ok isEntry
    cases isEntry
    exact ⟨id, name, rfl⟩

theorem externalPair_texts {entry : Value × Value} {pair : Key × Key}
    (isPair : externalPair entry = .ok pair) :
    ∃ id name, pair = (Key.text id, Key.text name) := by
  unfold externalPair at isPair
  obtain ⟨id, _, isPair⟩ := result_bind_ok isPair
  obtain ⟨name, _, isPair⟩ := result_bind_ok isPair
  cases isPair
  exact ⟨id, name, rfl⟩

theorem externalsOf_listing {value : Value} {references : List (Key × Key)}
    (isExternal : externalsOf value = .ok references) : IsListing references := by
  unfold externalsOf at isExternal
  split at isExternal
  · cases isExternal
    exact .nil
  · split at isExternal
    · obtain ⟨pairs, ran, rfl⟩ := result_map_ok isExternal
      exact isListing_ofPairs (mapM_ok_forall ran fun _ _ => externalPair_texts)
    · obtain ⟨pairs, ran, rfl⟩ := result_map_ok isExternal
      exact isListing_ofPairs (mapM_ok_forall ran fun _ _ => externalEntry_texts)
    · cases isExternal

theorem ofJsonLdPayload_received {payload : Value} {document : Document}
    (isRead : ofJsonLdPayload payload = .ok document) : document.Received := by
  unfold ofJsonLdPayload at isRead
  obtain ⟨⟨graph, external, metadata⟩, _, isRead⟩ := result_bind_ok isRead
  simp only at isRead
  split at isRead
  · obtain ⟨records, areRecords, isRead⟩ := result_bind_ok isRead
    obtain ⟨references, areExternal, isRead⟩ := result_bind_ok isRead
    obtain ⟨metadata, _, isRead⟩ := result_bind_ok isRead
    cases isRead
    exact
      { records := mapM_ok_forall areRecords fun _ _ => Record.ofMapping_received
        external := externalsOf_listing areExternal }
  · cases isRead

theorem ofYamlPayload_received {payload : Value} {document : Document}
    (isRead : ofYamlPayload payload = .ok document) : document.Received := by
  unfold ofYamlPayload at isRead
  obtain ⟨elements, _, isRead⟩ := result_bind_ok isRead
  obtain ⟨records, areRecords, isRead⟩ := result_bind_ok isRead
  obtain ⟨references, areExternal, isRead⟩ := result_bind_ok isRead
  obtain ⟨metadata, _, isRead⟩ := result_bind_ok isRead
  cases isRead
  exact
    { records := mapM_ok_forall areRecords fun _ _ => Record.ofMapping_received
      external := externalsOf_listing areExternal }

/-! ## Trees -/

theorem recordOf_received (element : Xml.Element) {id kind : String} {owner : Option String}
    (ownerName : Option String) (someId : id ≠ "") (someKind : kind ≠ "")
    (someOwner : ∀ id ∈ owner, id ≠ "") :
    (recordOf element id kind owner ownerName).Received where
  id := ⟨id, someId, rfl⟩
  kind := someKind
  owner := by
    intro key isKey
    obtain ⟨owner, isOwner, rfl⟩ := Option.map_eq_some_iff.mp isKey
    exact ⟨owner, someOwner owner isOwner, rfl⟩
  source := by
    intro key isKey
    obtain ⟨source, _, rfl⟩ := Option.map_eq_some_iff.mp isKey
    exact ⟨source, rfl⟩
  target := by
    intro key isKey
    obtain ⟨target, _, rfl⟩ := Option.map_eq_some_iff.mp isKey
    exact ⟨target, rfl⟩

theorem Received.add {document : Document} (received : document.Received) {record : Record}
    (isReceived : record.Received) :
    ({ document with records := document.records ++ [record] } : Document).Received where
  records := List.forall_mem_append.mpr
    ⟨received.records, List.forall_mem_singleton.mpr isReceived⟩
  external := received.external

theorem readExtensionChild_received {document again : Document} (received : document.Received)
    {child : Xml.Element} (isRead : readExtensionChild document child = .ok again) :
    again.Received := by
  unfold readExtensionChild at isRead
  split at isRead
  · cases isRead
    exact ⟨received.records, received.external⟩
  · split at isRead
    · cases isRead
    · split at isRead
      · cases isRead
      · cases isRead
        exact ⟨received.records, received.external.put _ _⟩
  · cases isRead
    exact received

theorem readExtension_received {children : List Xml.Element} {document again : Document}
    (received : document.Received)
    (isRead : children.foldlM readExtensionChild document = .ok again) : again.Received := by
  induction children generalizing document with
  | nil =>
    cases isRead
    exact received
  | cons child rest ih =>
    rw [List.foldlM_cons] at isRead
    obtain ⟨next, first, isRead⟩ := result_bind_ok isRead
    exact ih (readExtensionChild_received received first) isRead

mutual

/-- What an element adds is received, if its owner has an id that says something. -/
theorem readElement_received : ∀ (element : Xml.Element) {document again : Document}
    {owner ownerName : Option String}, document.Received → (∀ id ∈ owner, id ≠ "") →
      readElement document owner ownerName element = .ok again → again.Received
  | .node name attributes text children, document, again, owner, ownerName, received, someOwner,
      isRead => by
    have inside {document again : Document} {owner ownerName : Option String} :=
      @readElements_received children document again owner ownerName
    unfold readElement at isRead
    extract_lets element label kind id at isRead
    by_cases isExtension : label = "Extension"
    · rw [if_pos isExtension] at isRead
      exact readExtension_received received isRead
    rw [if_neg isExtension] at isRead
    by_cases isDoc : label = "documentation"
    · rw [if_pos isDoc] at isRead
      cases isRead
      exact received
    rw [if_neg isDoc] at isRead
    split at isRead
    · exact inside received someOwner isRead
    · next isKind =>
      have someKind : kind ≠ "" := by
        intro isEmpty
        simp [isEmpty] at isKind
      split at isRead
      · cases isRead
      · next given isGiven =>
        have someId : given ≠ "" := by
          have present := (Option.filter_eq_some_iff.mp isGiven).2
          simpa using present
        have isReceived := recordOf_received element ownerName someId someKind someOwner
        refine inside (received.add isReceived) ?_ isRead
        rintro _ ⟨⟩
        exact someId

theorem readElements_received : ∀ (elements : List Xml.Element) {document again : Document}
    {owner ownerName : Option String}, document.Received → (∀ id ∈ owner, id ≠ "") →
      readElements document owner ownerName elements = .ok again → again.Received
  | [], _, _, _, _, received, _, isRead => by
    cases isRead
    exact received
  | element :: rest, document, again, owner, ownerName, received, someOwner, isRead => by
    rw [readElements] at isRead
    obtain ⟨next, first, isRead⟩ := result_bind_ok isRead
    exact readElements_received rest (readElement_received element received someOwner first)
      someOwner isRead

end

theorem ofXmi_received {octets : ByteArray} {document : Document}
    (isRead : ofXmi octets = .ok document) : document.Received := by
  have received : (make [] [] []).Received := ⟨List.forall_mem_nil _, .nil⟩
  have noOwner : ∀ id ∈ (none : Option String), id ≠ "" := by simp
  unfold ofXmi at isRead
  split at isRead
  · cases isRead
  · dsimp only at isRead
    split at isRead
    · exact readElements_received _ received noOwner isRead
    · exact readElement_received _ received noOwner isRead

end Document

/-- Whatever a reader gives is received. -/
theorem Format.read_received {format : Format} {octets : ByteArray} {document : Document}
    (isRead : format.read octets = .ok document) : document.Received := by
  cases format with
  | xmi => exact Document.ofXmi_received isRead
  | yaml =>
    change Document.ofYaml octets = .ok document at isRead
    unfold Document.ofYaml at isRead
    split at isRead
    · cases isRead
    · obtain ⟨payload, _, isRead⟩ := result_bind_ok isRead
      exact Document.ofYamlPayload_received isRead
  | jsonLd =>
    obtain ⟨payload, _, isRead⟩ := result_bind_ok isRead
    exact Document.ofJsonLdPayload_received isRead
  | kpar =>
    change Document.ofKpar octets = .ok document at isRead
    unfold Document.ofKpar at isRead
    split at isRead
    · cases isRead
    · obtain ⟨named, _, isRead⟩ := result_bind_ok isRead
      simp only at isRead
      split at isRead
      · cases isRead
      · obtain ⟨content, _, isRead⟩ := result_bind_ok isRead
        exact Document.ofXmi_received isRead

end Sysml
