import Sysml.Archive.Reader
import Sysml.Text.Utf8

/-!
# Archives as they are written

An archive that is written is opened with the same entries, and each gives its bytes back
(`carries`), as long as no number in it is too long for its place.
-/

set_option autoImplicit false

namespace Sysml.Archive

/-! ## Names -/

theorem toList_toUTF8 (text : String) :
    text.toUTF8.toList = text.toList.flatMap String.utf8EncodeChar := by
  have asList : text.toUTF8 = text.toList.utf8Encode := by
    rw [← String.ofList_toList (s := text)]
    simp
  rw [Text.Utf8.toList_data, asList, List.utf8Encode, List.toList_data_toByteArray]

/-- The bytes of a text of ASCII are the numbers of its characters. -/
theorem flatMap_ascii {chars : List Char} (ascii : chars.all (·.toNat < 128) = true) :
    chars.flatMap String.utf8EncodeChar = chars.map fun c => UInt8.ofNat c.toNat := by
  induction chars with
  | nil => rfl
  | cons c chars ih =>
    rw [List.all_cons, Bool.and_eq_true, decide_eq_true_eq] at ascii
    have single : String.utf8EncodeChar c = [UInt8.ofNat c.toNat] := by
      have small : c.val.toNat ≤ 127 := Nat.le_of_lt_succ ascii.1
      unfold String.utf8EncodeChar
      exact if_pos small
    rw [List.flatMap_cons, single, ih ascii.2]
    rfl

theorem decode_ascii {page : Text.CodePage} (alike : page.alike = 0x80) {chars : List Char}
    (ascii : chars.all (·.toNat < 128) = true) :
    page.decode (chars.map fun c => UInt8.ofNat c.toNat) = some chars := by
  have single : ∀ c ∈ chars, (if (UInt8.ofNat c.toNat).toNat < page.alike then
      some (Char.ofNat (UInt8.ofNat c.toNat).toNat)
      else (page.rows.flatMap String.toList).toArray[(UInt8.ofNat c.toNat).toNat -
        page.alike]?.filter (· != '?')) = some c := by
    intro c listed
    have small : c.toNat < 128 := by simpa using List.all_eq_true.mp ascii c listed
    have same : (UInt8.ofNat c.toNat).toNat = c.toNat := 
      UInt8.toNat_ofNat_of_lt' (Nat.lt_trans small (by decide))
    rw [same, alike, if_pos small, Char.ofNat_toNat]
  rw [Text.CodePage.decode]
  clear ascii
  induction chars with
  | nil => rfl
  | cons c chars ih =>
    obtain ⟨first, others⟩ := List.forall_mem_cons.mp single
    rw [List.map_cons, List.mapM_cons, first, ih others]
    rfl

/-- A name is read back from its bytes by its flag. -/
theorem nameOf?_nameOctets (name : String) :
    nameOf? (nameFlag name) (nameOctets name) = some name := by
  unfold nameFlag
  split
  · next ascii =>
    have octets : nameOctets name = name.toList.map fun c => UInt8.ofNat c.toNat := by
      rw [nameOctets, toList_toUTF8, flatMap_ascii ascii]
    have noFlag : Nat.testBit 0 11 = false := by decide
    rw [nameOf?, if_neg (by simp [noFlag]), octets, decode_ascii rfl ascii]
    simp
  · have flag : Nat.testBit 0x800 11 = true := by decide
    rw [nameOf?, if_pos flag, nameOctets, Text.Utf8.toArray_toList, Text.Utf8.fromUTF8?_toUTF8]

/-! ## The directory -/

/-- What the directory tells of an entry whose record begins at a place. -/
def listing (place : Nat) (entry : ArchiveEntry) : Listing where
  fullName := entry.name
  flags := nameFlag entry.name
  method := 0
  checksum := (Digest.crc32 entry.octets).toNat
  heldSize := entry.octets.length
  size := entry.octets.length
  place := place

def told (place : Nat) : List ArchiveEntry → List Listing
  | [] => []
  | entry :: rest => listing place entry :: told (place + (localRecord entry).length) rest

theorem length_localRecord (entry : ArchiveEntry) :
    (localRecord entry).length = 30 + (nameOctets entry.name).length + entry.octets.length := by
  simp [localRecord, facts, length_littleEndian]
  omega

theorem length_centralRecord (place : Nat) (entry : ArchiveEntry) :
    (centralRecord place entry).length = 46 + (nameOctets entry.name).length := by
  simp [centralRecord, facts, length_littleEndian]
  omega

theorem nameFlag_lt (name : String) : nameFlag name < Nat.pow 256 2 := by
  unfold nameFlag
  split <;> decide

section Header

variable (place : Nat) (entry : ArchiveEntry) (rest : List UInt8)

/-- The numbers in the header of an entry. -/
theorem numbers_centralRecord :
    numberAt (centralRecord place entry ++ rest) 6 1 = number (littleEndian 1 20) ∧
      numberAt (centralRecord place entry ++ rest) 8 2 =
        number (littleEndian 2 (nameFlag entry.name)) ∧
      numberAt (centralRecord place entry ++ rest) 10 2 = number (littleEndian 2 0) ∧
      numberAt (centralRecord place entry ++ rest) 16 4 =
        number (littleEndian 4 (Digest.crc32 entry.octets).toNat) ∧
      numberAt (centralRecord place entry ++ rest) 20 4 =
        number (littleEndian 4 entry.octets.length) ∧
      numberAt (centralRecord place entry ++ rest) 24 4 =
        number (littleEndian 4 entry.octets.length) ∧
      numberAt (centralRecord place entry ++ rest) 28 2 =
        number (littleEndian 2 (nameOctets entry.name).length) ∧
      numberAt (centralRecord place entry ++ rest) 30 2 = number (littleEndian 2 0) ∧
      numberAt (centralRecord place entry ++ rest) 32 2 = number (littleEndian 2 0) ∧
      numberAt (centralRecord place entry ++ rest) 42 4 = number (littleEndian 4 place) := by
  simp only [centralRecord, facts, numberAt, slice, littleEndian, List.cons_append,
    List.nil_append, List.drop_succ_cons, List.drop_zero, List.take_succ_cons, List.take_zero,
    and_self]

theorem slices_centralRecord :
    (centralRecord place entry ++ rest).take 4 = [0x50, 0x4b, 1, 2] ∧
      slice (centralRecord place entry ++ rest) 46 (nameOctets entry.name).length =
        nameOctets entry.name ∧
      (centralRecord place entry ++ rest).drop (46 + (nameOctets entry.name).length) = rest := by
  have whole : (centralRecord place entry ++ rest).drop (centralRecord place entry).length = rest :=
    List.drop_left
  rw [length_centralRecord] at whole
  refine ⟨?_, ?_, whole⟩
  all_goals
    simp only [centralRecord, facts, slice, littleEndian, List.cons_append, List.nil_append,
      List.drop_succ_cons, List.drop_zero, List.take_succ_cons, List.take_zero, List.take_left]

/-- The numbers in the record of an entry. -/
theorem numbers_localRecord :
    numberAt (localRecord entry ++ rest) 6 2 =
        number (littleEndian 2 (nameFlag entry.name)) ∧
      numberAt (localRecord entry ++ rest) 26 2 =
        number (littleEndian 2 (nameOctets entry.name).length) ∧
      numberAt (localRecord entry ++ rest) 28 2 = number (littleEndian 2 0) := by
  simp only [localRecord, facts, numberAt, slice, littleEndian, List.cons_append,
    List.nil_append, List.drop_succ_cons, List.drop_zero, List.take_succ_cons, List.take_zero,
    and_self]

theorem slices_localRecord :
    (localRecord entry ++ rest).take 4 = [0x50, 0x4b, 3, 4] ∧
      slice (localRecord entry ++ rest) 30 (nameOctets entry.name).length =
        nameOctets entry.name ∧
      (localRecord entry ++ rest).drop (30 + (nameOctets entry.name).length) =
        entry.octets ++ rest := by
  refine ⟨?_, ?_, ?_⟩
  · simp only [localRecord, facts, littleEndian, List.cons_append, List.nil_append,
      List.take_succ_cons, List.take_zero]
  · simp only [localRecord, facts, slice, littleEndian, List.cons_append, List.nil_append,
      List.append_assoc, List.drop_succ_cons, List.drop_zero, List.take_left]
  · rw [← List.drop_drop]
    simp only [localRecord, facts, littleEndian, List.cons_append, List.nil_append,
      List.append_assoc, List.drop_succ_cons, List.drop_zero, List.drop_left]

end Header

/-- The lengths of an entry fit their places in its headers. -/
structure Fits (entry : ArchiveEntry) : Prop where
  name : (nameOctets entry.name).length < Nat.pow 256 2
  octets : entry.octets.length < Nat.pow 256 4

theorem listingOf_centralRecord {entry : ArchiveEntry} (fits : Fits entry) {place : Nat}
    (near : place < Nat.pow 256 4) (rest : List UInt8) :
    listingOf 0 (centralRecord place entry ++ rest) = .ok (listing place entry) := by
  obtain ⟨version, flags, method, checksum, heldSize, size, nameLength, fields, -, isPlace⟩ :=
    numbers_centralRecord place entry rest
  obtain ⟨mark, name, -⟩ := slices_centralRecord place entry rest
  have small : (Digest.crc32 entry.octets).toNat < Nat.pow 256 4 := UInt32.toNat_lt _
  rw [number_littleEndian _ _ (by decide)] at version method fields
  rw [number_littleEndian _ _ (nameFlag_lt entry.name)] at flags
  rw [number_littleEndian _ _ small] at checksum
  rw [number_littleEndian _ _ fits.octets] at heldSize size
  rw [number_littleEndian _ _ fits.name] at nameLength
  rw [number_littleEndian _ _ near] at isPlace
  have long : ¬ (centralRecord place entry ++ rest).length < 46 := by
    rw [List.length_append, length_centralRecord]
    omega
  have noFields : slice (centralRecord place entry ++ rest) (46 + (nameOctets entry.name).length) 0 =
      [] := List.take_zero
  unfold listingOf
  simp only [nameLength, flags, name, nameOf?_nameOctets, mark, long, version, method, checksum,
    heldSize, size, isPlace, fields, noFields]
  rfl

/-- The directory is read to what it tells. -/
theorem listings_directory {entries : List ArchiveEntry} (fits : ∀ entry ∈ entries, Fits entry)
    {place : Nat} (near : place + (entries.flatMap localRecord).length < Nat.pow 256 4)
    {budget : Nat} (enough : (directory place entries).length < budget) :
    listings 0 budget (directory place entries) = .ok (told place entries) := by
  induction entries generalizing place budget with
  | nil => cases budget <;> rfl
  | cons entry rest ih =>
    obtain ⟨first, others⟩ := List.forall_mem_cons.mp fits
    rw [List.flatMap_cons, List.length_append] at near
    rw [directory, List.length_append, length_centralRecord] at enough
    cases budget with
    | zero => cases enough
    | succ budget =>
      have isFirst := listingOf_centralRecord first (Nat.lt_of_le_of_lt (Nat.le_add_right ..) near)
        (directory (place + (localRecord entry).length) rest)
      obtain ⟨-, -, -, -, -, -, nameLength, fields, comment, -⟩ := numbers_centralRecord place entry
        (directory (place + (localRecord entry).length) rest)
      rw [number_littleEndian _ _ first.name] at nameLength
      rw [number_littleEndian _ _ (by decide)] at fields comment
      obtain ⟨-, -, dropped⟩ := slices_centralRecord place entry
        (directory (place + (localRecord entry).length) rest)
      have isRest := @ih others (place + (localRecord entry).length) (by omega) budget (by omega)
      have start : ∃ octet tail, centralRecord place entry ++
          directory (place + (localRecord entry).length) rest = octet :: tail := ⟨_, _, rfl⟩
      obtain ⟨octet, tail, chars⟩ := start
      rw [directory, chars, listings]
      · rw [← chars]
        simp only [bind, Except.bind, isFirst, nameLength, fields, comment, Nat.add_zero, dropped,
          isRest]
        rfl
      · exact List.cons_ne_nil _ _

/-! ## Opening -/

def opened (entries : List ArchiveEntry) : Opened where
  octets := write entries
  directory := (entries.flatMap localRecord).length
  listings := told 0 entries

theorem length_endRecord (count size offset : Nat) : (endRecord count size offset).length = 22 := by
  simp [endRecord, length_littleEndian]

theorem numbers_endRecord (count size offset : Nat) :
    (endRecord count size offset).take 4 = [0x50, 0x4b, 5, 6] ∧
      (endRecord count size offset).drop 20 = littleEndian 2 0 ∧
      numberAt (endRecord count size offset) 12 4 = number (littleEndian 4 size) ∧
      numberAt (endRecord count size offset) 16 4 = number (littleEndian 4 offset) := by
  simp only [endRecord, numberAt, slice, littleEndian, List.cons_append, List.nil_append,
    List.drop_succ_cons, List.drop_zero, List.take_succ_cons, List.take_zero, and_self]

/-- Where the directory of an archive ends and the record at the end begins. -/
def endPlace (entries : List ArchiveEntry) : Nat :=
  (entries.flatMap localRecord).length + (directory 0 entries).length

/-- No number in an archive is too long, and the directory does not end in what looks like the
mark of a long archive. -/
structure Holds (entries : List ArchiveEntry) : Prop where
  fits : ∀ entry ∈ entries, Fits entry
  records : (entries.flatMap localRecord).length < Nat.pow 256 4
  directory : (directory 0 entries).length < Nat.pow 256 4
  plain : (slice (write entries) (endPlace entries - 20) 20).take 4 ≠ [0x50, 0x4b, 6, 7]

variable {entries : List ArchiveEntry}

theorem drop_endPlace (entries : List ArchiveEntry) :
    (write entries).drop (endPlace entries) =
      endRecord entries.length (directory 0 entries).length
        (entries.flatMap localRecord).length := by
  rw [endPlace, ← List.length_append]
  exact List.drop_left

theorem length_write (entries : List ArchiveEntry) :
    (write entries).length = endPlace entries + 22 := by
  simp [write, endPlace, length_endRecord]
  omega

theorem endPlace?_write (entries : List ArchiveEntry) :
    endPlace? (write entries) = some (endPlace entries) := by
  obtain ⟨mark, comment, -, -⟩ := numbers_endRecord entries.length (directory 0 entries).length
    (entries.flatMap localRecord).length
  have place : (write entries).length - 22 = endPlace entries := by
    rw [length_write, Nat.add_sub_cancel]
  unfold endPlace?
  simp only [place, drop_endPlace, length_endRecord, mark, comment]
  rfl

theorem extentOf_write (holds : Holds entries) :
    extentOf (write entries) (endPlace entries) =
      .ok ⟨endPlace entries, (directory 0 entries).length, (entries.flatMap localRecord).length⟩ := by
  have shifted (start : Nat) : numberAt (write entries) (endPlace entries + start) 4 =
      numberAt (endRecord entries.length (directory 0 entries).length
        (entries.flatMap localRecord).length) start 4 := by
    rw [numberAt, slice, ← List.drop_drop, drop_endPlace]
    rfl
  obtain ⟨-, -, size, offset⟩ := numbers_endRecord entries.length (directory 0 entries).length
    (entries.flatMap localRecord).length
  rw [number_littleEndian _ _ holds.directory] at size
  rw [number_littleEndian _ _ holds.records] at offset
  have noLocator : ((slice (write entries) (endPlace entries - 20) 20).length ≠ 20 ||
      (slice (write entries) (endPlace entries - 20) 20).take 4 != [0x50, 0x4b, 6, 7]) = true := by
    simp [holds.plain]
  unfold extentOf
  simp only [shifted, size, offset, noLocator, ↓reduceIte]

/-- An archive that is written is opened. -/
theorem read_write (holds : Holds entries) : read (write entries) = .ok (opened entries) := by
  have start : ((endPlace entries : Nat) : Int) - ((directory 0 entries).length : Nat) =
      ((entries.flatMap localRecord).length : Nat) := by
    rw [endPlace]
    omega
  have central : slice (write entries) (entries.flatMap localRecord).length
      (directory 0 entries).length = directory 0 entries := by
    rw [slice, write, List.append_assoc, List.drop_left, List.take_left]
  have listed := listings_directory holds.fits
    (show 0 + (entries.flatMap localRecord).length < Nat.pow 256 4 by
      rw [Nat.zero_add]; exact holds.records) (Nat.lt_succ_self (directory 0 entries).length)
  unfold read
  rw [endPlace?_write]
  simp only [bind, Except.bind, extentOf_write holds, start, Int.toNat_natCast, central]
  rw [if_neg (by omega), Int.sub_self, listed]
  rfl

/-! ## Contents -/

theorem told_append (place : Nat) (before after : List ArchiveEntry) :
    told place (before ++ after) =
      told place before ++ told (place + (before.flatMap localRecord).length) after := by
  induction before generalizing place with
  | nil => simp [told]
  | cons entry before ih =>
    rw [List.cons_append, told, told, ih, List.flatMap_cons, List.length_append, Nat.add_assoc,
      List.cons_append]

theorem length_told (place : Nat) (entries : List ArchiveEntry) :
    (told place entries).length = entries.length := by
  induction entries generalizing place with
  | nil => rfl
  | cons entry rest ih => rw [told, List.length_cons, List.length_cons, ih]

/-- Records begin one after the other. -/
theorem told_places (place : Nat) (entries : List ArchiveEntry) :
    ∀ listing ∈ told place entries, (place : Int) ≤ listing.place ∧
      listing.place < (place + (entries.flatMap localRecord).length : Nat) := by
  induction entries generalizing place with
  | nil => exact List.forall_mem_nil _
  | cons entry rest ih =>
    have length := length_localRecord entry
    rw [told, List.forall_mem_cons, List.flatMap_cons, List.length_append]
    refine ⟨⟨Int.le_refl _, ?_⟩, fun other listed => ?_⟩
    · simp only [listing]
      omega
    · have bounds := ih _ other listed
      omega

theorem told_names (place : Nat) {entries : List ArchiveEntry}
    (plain : ∀ entry ∈ entries, '\x00' ∉ entry.name.toList) :
    (told place entries).map Listing.name = entries.map (·.name) := by
  induction entries generalizing place with
  | nil => rfl
  | cons entry rest ih =>
    obtain ⟨first, others⟩ := List.forall_mem_cons.mp plain
    have all : ∀ c ∈ entry.name.toList, (c != '\x00') = true := by
      intro c listed
      have apart : c ≠ '\x00' := fun same => first (same ▸ listed)
      simpa using apart
    have same : (listing place entry).name = entry.name := by
      have whole : entry.name.toList.takeWhile (· != '\x00') = entry.name.toList := by
        rw [← List.append_nil entry.name.toList, List.takeWhile_append_of_pos all,
          List.takeWhile_nil]
      simp only [Listing.name, listing, whole, String.ofList_toList]
    rw [told, List.map_cons, List.map_cons, same, ih _ others]

theorem le_foldl_min {bound : Int} {places : List Int} (all : ∀ place ∈ places, bound ≤ place)
    (start : Option Int) (starts : ∀ place ∈ start, bound ≤ place) :
    ∀ least ∈ places.foldl
      (fun least place => some ((least.map (min place)).getD place)) start, bound ≤ least := by
  induction places generalizing start with
  | nil => exact starts
  | cons place rest ih =>
    obtain ⟨first, others⟩ := List.forall_mem_cons.mp all
    refine ih others _ ?_
    rintro _ ⟨⟩
    cases start with
    | none => exact first
    | some least => exact Int.le_min.mpr ⟨first, starts least rfl⟩

section Content

variable {before after : List ArchiveEntry} {entry : ArchiveEntry}

/-- Where the record of an entry begins. -/
def placeOf (before : List ArchiveEntry) : Nat :=
  (before.flatMap localRecord).length

theorem told_split (before : List ArchiveEntry) (entry : ArchiveEntry)
    (after : List ArchiveEntry) :
    told 0 (before ++ entry :: after) = told 0 before ++ listing (placeOf before) entry ::
      told (placeOf before + (localRecord entry).length) after := by
  rw [told_append, told, Nat.zero_add, placeOf]

/-- The content of an entry has room up to its limit. -/
theorem le_limit (before : List ArchiveEntry) (entry : ArchiveEntry) (after : List ArchiveEntry) :
    ((placeOf before + (localRecord entry).length : Nat) : Int) ≤
      (opened (before ++ entry :: after)).limit before.length (placeOf before) := by
  have length := length_localRecord entry
  have earlier : ((told 0 (before ++ entry :: after)).take before.length).any
      (·.place == (placeOf before : Int)) = false := by
    rw [told_split, ← length_told 0 before, List.take_left, List.any_eq_false]
    intro other listed same
    have bounds := told_places 0 before other listed
    rw [Nat.zero_add, beq_iff_eq.mp same, placeOf] at bounds
    exact Int.lt_irrefl _ bounds.2
  have total : placeOf before + (localRecord entry).length ≤
      ((before ++ entry :: after).flatMap localRecord).length := by
    rw [List.flatMap_append, List.flatMap_cons, List.length_append, List.length_append, placeOf]
    omega
  unfold Opened.limit
  rw [opened, earlier]
  simp only [Bool.false_eq_true, ↓reduceIte]
  have later : ∀ place ∈ ((told 0 (before ++ entry :: after)).map Listing.place).filter
      ((placeOf before : Int) < ·),
      ((placeOf before + (localRecord entry).length : Nat) : Int) ≤ place := by
    intro place isLater
    rw [List.mem_filter, decide_eq_true_eq, told_split] at isLater
    obtain ⟨isPlace, later⟩ := isLater
    obtain ⟨other, isOther, rfl⟩ := List.mem_map.mp isPlace
    rcases List.mem_append.mp isOther with isBefore | isHere
    · have bounds := told_places 0 before other isBefore
      rw [Nat.zero_add] at bounds
      exact absurd (Int.lt_trans later bounds.2) (Int.lt_irrefl _)
    · rcases List.mem_cons.mp isHere with rfl | isAfter
      · exact absurd later (Int.lt_irrefl _)
      · exact (told_places _ after other isAfter).1
  have least := le_foldl_min later none nofun
  cases found : (((told 0 (before ++ entry :: after)).map Listing.place).filter
      ((placeOf before : Int) < ·)).foldl
      (fun least place => some ((least.map (min place)).getD place)) none with
  | none => exact Int.ofNat_le.mpr total
  | some place => exact least place found

theorem drop_placeOf (before : List ArchiveEntry) (entry : ArchiveEntry)
    (after : List ArchiveEntry) :
    ∃ rest, (write (before ++ entry :: after)).drop (placeOf before) = localRecord entry ++ rest ∧
      (write (before ++ entry :: after)).length =
        placeOf before + (localRecord entry).length + rest.length := by
  have split_ : ∃ rest, write (before ++ entry :: after) =
      before.flatMap localRecord ++ (localRecord entry ++ rest) := by
    refine ⟨after.flatMap localRecord ++ directory 0 (before ++ entry :: after) ++
      endRecord (before ++ entry :: after).length (directory 0 (before ++ entry :: after)).length
        ((before ++ entry :: after).flatMap localRecord).length, ?_⟩
    simp only [write, List.flatMap_append, List.flatMap_cons, List.append_assoc]
  obtain ⟨rest, whole⟩ := split_
  refine ⟨rest, by rw [whole, placeOf, List.drop_left], ?_⟩
  rw [whole, List.length_append, List.length_append, placeOf, Nat.add_assoc]

theorem checked_listing (place : Nat) (entry : ArchiveEntry) :
    checked (listing place entry) entry.octets = .ok entry.octets := by
  have whole : ¬ (entry.octets.isEmpty && decide (0 < entry.octets.length)) = true := by
    cases entry.octets <;> simp
  unfold checked
  refine (if_neg whole).trans ?_
  simp only [listing, expand, bind, Except.bind, List.take_length, decide_true, Bool.or_true,
    Bool.not_true, Bool.false_eq_true, ↓reduceIte]
  rfl

/-- The content of an entry is found through its own record. -/
theorem contentOf_write (holds : Holds (before ++ entry :: after)) :
    contentOf (write (before ++ entry :: after))
        ((opened (before ++ entry :: after)).limit before.length (placeOf before))
        (listing (placeOf before) entry) = .ok entry.octets := by
  obtain ⟨rest, record, total⟩ := drop_placeOf before entry after
  have fits := holds.fits entry (List.mem_append_right _ List.mem_cons_self)
  have length := length_localRecord entry
  have room := le_limit before entry after
  obtain ⟨flags, nameLength, fields⟩ := numbers_localRecord entry rest
  obtain ⟨mark, name, content⟩ := slices_localRecord entry rest
  rw [number_littleEndian _ _ (nameFlag_lt entry.name)] at flags
  rw [number_littleEndian _ _ fits.name] at nameLength
  rw [number_littleEndian _ _ (by decide)] at fields
  have near : placeOf before < Nat.pow 256 4 := by
    have records := holds.records
    rw [List.flatMap_append, List.length_append] at records
    exact Nat.lt_of_le_of_lt (Nat.le_add_right ..) records
  have inReach : ¬ (decide ((0x7fffffffffffffff : Int) < (placeOf before : Nat)) ||
      decide (((placeOf before : Nat) : Int) < -0x7fffffffffffffff - 1)) = true := by
    have far : Nat.pow 256 4 ≤ 0x7fffffffffffffff := by decide
    simp only [Bool.or_eq_true, decide_eq_true_eq]
    omega
  have notBefore : ¬ ((placeOf before : Nat) : Int) < 0 := by omega
  have isRecord : ¬ (decide ((localRecord entry ++ rest).length < 30) ||
      ([0x50, 0x4b, 3, 4] : List UInt8) != [0x50, 0x4b, 3, 4]) = true := by
    have long : ¬ (localRecord entry ++ rest).length < 30 := by
      rw [List.length_append]
      omega
    rw [decide_eq_false long]
    decide
  have noFlags : nameFlag entry.name = 0 ∨ nameFlag entry.name = 0x800 := by
    unfold nameFlag
    split
    · exact .inl rfl
    · exact .inr rfl
  have isKnown : ¬ ((nameFlag entry.name).testBit 5 || (nameFlag entry.name).testBit 6) = true := by
    rcases noFlags with flag | flag <;> rw [flag] <;> decide
  have isOpen : ¬ (nameFlag entry.name).testBit 0 = true := by
    rcases noFlags with flag | flag <;> rw [flag] <;> decide
  have isNamed : ¬ (some entry.name != some entry.name) = true := by simp
  have hasRoom : ¬ (opened (before ++ entry :: after)).limit before.length (placeOf before : Nat) <
      ((write (before ++ entry :: after)).length : Int) - (entry.octets ++ rest).length +
        entry.octets.length := by
    rw [List.length_append]
    omega
  unfold contentOf
  simp only [listing, Int.toNat_natCast, record, flags, nameLength, fields, mark, name,
    nameOf?_nameOctets, Nat.add_zero, content]
  refine (if_neg inReach).trans ?_
  refine (if_neg notBefore).trans ?_
  refine (if_neg isRecord).trans ?_
  refine (if_neg isKnown).trans ?_
  refine (if_neg isNamed).trans ?_
  refine (if_neg hasRoom).trans ?_
  refine (if_neg isOpen).trans ?_
  rw [if_neg (by decide), List.take_left]
  exact checked_listing (placeOf before) entry

end Content

/-! ## Carrying -/

/-- An archive of these entries is opened with their names, and each gives its bytes back. -/
def Carries (entries : List ArchiveEntry) : Prop :=
  ∃ archive, read (write entries) = .ok archive ∧ archive.names = entries.map (·.name) ∧
    ∀ entry ∈ entries, archive.content? entry.name = some (.ok entry.octets)

/-- The only item that meets a condition is found. -/
theorem find?_only {α : Type} {p : α → Bool} {items : List α} {item : α} (listed : item ∈ items)
    (meets : p item = true) (only : ∀ other ∈ items, p other = true → other = item) :
    items.find? p = some item := by
  cases found : items.find? p with
  | none => exact absurd meets (List.find?_eq_none.mp found item listed)
  | some other =>
    rw [only other (List.mem_of_find?_eq_some found) (List.find?_some found)]

/-- Of entries with different names, each is found by its name. -/
theorem content?_write {before after : List ArchiveEntry} {entry : ArchiveEntry}
    (holds : Holds (before ++ entry :: after))
    (distinct : ((before ++ entry :: after).map (·.name)).Nodup)
    (plain : ∀ other ∈ before ++ entry :: after, '\x00' ∉ other.name.toList) :
    (opened (before ++ entry :: after)).content? entry.name = some (.ok entry.octets) := by
  have names := told_names 0 plain
  have here : (told 0 (before ++ entry :: after))[before.length]? =
      some (listing (placeOf before) entry) := by
    rw [told_split, ← length_told 0 before, List.getElem?_append_right (Nat.le_refl _),
      Nat.sub_self, List.getElem?_cons_zero]
  have named {place : Nat} {listing : Listing}
      (listed : (told 0 (before ++ entry :: after))[place]? = some listing) :
      ((before ++ entry :: after).map (·.name))[place]? = some listing.name := by
    rw [← names, List.getElem?_map, listed, Option.map_some]
  have own : (listing (placeOf before) entry).name = entry.name := by
    have isNamed := named here
    rw [List.map_append, List.map_cons, List.getElem?_append_right (by simp), List.length_map,
      Nat.sub_self, List.getElem?_cons_zero] at isNamed
    exact (Option.some.inj isNamed).symm
  have isFound : ((told 0 (before ++ entry :: after)).zipIdx.reverse.find?
      fun found => found.1.name == entry.name) =
        some (listing (placeOf before) entry, before.length) := by
    apply find?_only
    · exact List.mem_reverse.mpr (List.mem_zipIdx_iff_getElem?.mpr here)
    · exact beq_iff_eq.mpr own
    · rintro ⟨other, place⟩ listed same
      have there := List.mem_zipIdx_iff_getElem?.mp (List.mem_reverse.mp listed)
      -- names are distinct, so the same name stands at the same place
      have isPlace : place = before.length := by
        apply (List.getElem?_inj _ distinct).mp
        · rw [named there, named here, own, beq_iff_eq.mp same]
        · exact (List.getElem?_eq_some_iff.mp (named there)).1
      subst isPlace
      exact congrArg (·, before.length) (Option.some.inj (there.symm.trans here))
  rw [Opened.content?, opened, isFound]
  exact congrArg some (contentOf_write holds)

/-- An archive of entries with different names gives all of them back. -/
theorem carries (holds : Holds entries) (distinct : (entries.map (·.name)).Nodup)
    (plain : ∀ entry ∈ entries, '\x00' ∉ entry.name.toList) : Carries entries := by
  refine ⟨opened entries, read_write holds, told_names 0 plain, fun entry listed => ?_⟩
  obtain ⟨before, after, rfl⟩ := List.append_of_mem listed
  exact content?_write holds distinct plain

end Sysml.Archive
