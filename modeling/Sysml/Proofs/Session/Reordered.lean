import Mathlib.Data.List.Pairwise
import Sysml.Proofs.Document.Reread
import Sysml.Proofs.Session.Pinned

/-!
# The order of entries

An entry of companion data for a relationship gives its id to the first reference or import that
fits and has none yet. Where the first places of entries are different, no entry takes what another
would have taken, and their order does not matter; where two entries have one first place, the
earlier gets it (`applyEntries_reordered`).
-/

set_option autoImplicit false

namespace Sysml

/-!
## Places that are taken
-/

namespace Pin

def Relating (pin : Pin) : Prop :=
  ∃ id source kind target, pin = relationship id source (.text kind) (.text target)

theorem Relating.textual {pin : Pin} (relating : pin.Relating) : pin.Textual := by
  obtain ⟨id, source, kind, target, rfl⟩ := relating
  exact ⟨⟨kind, rfl⟩, target, rfl⟩

theorem fitsReference_free {kind target : Value} {reference : Reference}
    (fits : passes (fitsReference kind target) reference = true) :
    Key.given? reference.elementId = none := by
  unfold passes fitsReference at fits
  split at fits
  · cases fits
  · next free => simpa using free

theorem fitsReference_withId {kind target : Value} {reference : Reference} {one other : Option Key}
    (free : Key.given? other = none)
    (fits : passes (fitsReference kind target) (reference.withId one) = true) :
    passes (fitsReference kind target) (reference.withId other) = true := by
  have isFree : Key.given? one = none := fitsReference_free fits
  have same : fitsReference kind target (reference.withId other) =
      fitsReference kind target (reference.withId one) := by
    have read (id : Option Key) : (reference.withId id).elementId = id := rfl
    unfold fitsReference
    rw [read, read, free, isFree]
    rfl
  rw [passes, same]
  exact fits

theorem fitsImport_free {target : Value} {i : Import} (fits : fitsImport target i = true) :
    Key.given? i.elementId = none := by
  unfold fitsImport at fits
  simpa using (Bool.and_eq_true_iff.mp fits).2

theorem fitsImport_withId {target : Value} {i : Import} {one other : Option Key}
    (free : Key.given? other = none) (fits : fitsImport target (i.withId one) = true) :
    fitsImport target (i.withId other) = true := by
  have same : fitsImport target (i.withId other) = fitsImport target (i.withId one) := by
    have isFree : Key.given? one = none := fitsImport_free fits
    have read (id : Option Key) : (i.withId id).elementId = id := rfl
    unfold fitsImport
    rw [read, read, free, isFree]
    rfl
  rw [same]
  exact fits

section Items

variable {α : Type} {withId : Option Key → α → α} {fits : α → Bool} {placeOf : Nat → IdPlace}
  {ids : Ids} {items : List α}

/-- The first item that fits stays the first when a free place that is not its own is taken. -/
theorem findIdx?_update {taken : IdPlace} {id : Option Key}
    (frees : ∀ (item : α) (one other : Option Key), Key.given? other = none →
      fits (withId one item) = true → fits (withId other item) = true)
    (free : Key.given? (ids taken) = none)
    (apart : ((items.mapIdx fun i => withId (ids (placeOf i))).findIdx? fits).map placeOf ≠
      some taken) :
    (items.mapIdx fun i => withId (Function.update ids taken id (placeOf i))).findIdx? fits =
      (items.mapIdx fun i => withId (ids (placeOf i))).findIdx? fits := by
  -- A place that is taken fits no more items than a free one, so none comes before the first.
  have fewer (i : Nat) (item : α)
      (fit : fits (withId (Function.update ids taken id (placeOf i)) item) = true) :
      fits (withId (ids (placeOf i)) item) = true := by
    by_cases isTaken : placeOf i = taken
    · rw [isTaken]
      exact frees item _ _ free fit
    · rwa [Function.update_of_ne isTaken] at fit
  cases found : (items.mapIdx fun i => withId (ids (placeOf i))).findIdx? fits with
  | none =>
    rw [List.findIdx?_eq_none_iff] at found ⊢
    intro item listed
    obtain ⟨i, inside, rfl⟩ := List.mem_mapIdx.mp listed
    refine Bool.eq_false_iff.mpr fun fit => ?_
    have missed := found _ (List.mem_mapIdx.mpr ⟨i, inside, rfl⟩)
    rw [fewer i _ fit] at missed
    cases missed
  | some i =>
    rw [found] at apart
    have isOther : placeOf i ≠ taken := fun isTaken => apart (congrArg some isTaken)
    rw [List.findIdx?_eq_some_iff_getElem] at found ⊢
    obtain ⟨inside, fit, before⟩ := found
    refine ⟨by simpa using inside, ?_, fun j earlier fitToo => ?_⟩
    · rw [List.getElem_mapIdx] at fit ⊢
      rw [Function.update_of_ne isOther]
      exact fit
    · rw [List.getElem_mapIdx] at fitToo
      apply before j earlier
      rw [List.getElem_mapIdx]
      exact fewer j _ fitToo

end Items

variable {pin : Pin} {symbol : Symbol} {ids : Ids} {place : IdPlace}

theorem placeIn?_free (relating : pin.Relating)
    (isPlace : pin.placeIn? (symbol.withIds ids) = some place) : Key.given? (ids place) = none := by
  obtain ⟨id, source, kind, target, rfl⟩ := relating
  rw [placeIn?] at isPlace
  split at isPlace
  · obtain ⟨i, found, rfl⟩ := Option.map_eq_some_iff.mp isPlace
    obtain ⟨inside, fits, _⟩ := List.findIdx?_eq_some_iff_getElem.mp found
    simpa [Symbol.withIds, Import.withId] using fitsImport_free fits
  · obtain ⟨i, found, rfl⟩ := Option.map_eq_some_iff.mp isPlace
    obtain ⟨inside, fits, _⟩ := List.findIdx?_eq_some_iff_getElem.mp found
    simpa [Symbol.withIds, Reference.withId] using fitsReference_free fits

/-- Where another place is taken that was free, a relationship keeps its own. -/
theorem placeIn?_update (relating : pin.Relating) {taken : IdPlace} {id : Option Key}
    (free : Key.given? (ids taken) = none)
    (apart : pin.placeIn? (symbol.withIds ids) ≠ some taken) :
    pin.placeIn? (symbol.withIds (Function.update ids taken id)) =
      pin.placeIn? (symbol.withIds ids) := by
  obtain ⟨own, source, kind, target, rfl⟩ := relating
  simp only [placeIn?] at apart ⊢
  split
  · next imports =>
    rw [if_pos imports] at apart
    exact congrArg (Option.map _)
      (findIdx?_update (fun item one other => fitsImport_withId) free apart)
  · next imports =>
    rw [if_neg imports] at apart
    exact congrArg (Option.map _)
      (findIdx?_update (fun item one other => fitsReference_withId) free apart)

theorem place?_withIds (pin : Pin) (symbols : List Symbol) (ids : Ids) :
    pin.place? (symbols.map (Symbol.withIds ids)) =
      (symbols.find? fun symbol => symbol.qualifiedName == pin.subject).bind fun symbol =>
        pin.placeIn? (symbol.withIds ids) := by
  rw [place?, List.find?_map]
  change (Option.map _ (symbols.find? fun symbol => symbol.qualifiedName == pin.subject)).bind _ = _
  cases symbols.find? fun symbol => symbol.qualifiedName == pin.subject <;> rfl

theorem eq_of_withIds {one other : Ids} (same : symbol.withIds one = symbol.withIds other)
    (isPlace : pin.placeIn? symbol = some place) : one place = other place := by
  cases pin with
  | element id name =>
    cases isPlace
    exact congrArg Symbol.elementId same
  | relationship id source kind target =>
    rw [placeIn?] at isPlace
    split at isPlace
    · obtain ⟨i, found, rfl⟩ := Option.map_eq_some_iff.mp isPlace
      obtain ⟨inside, _⟩ := List.findIdx?_eq_some_iff_getElem.mp found
      have item := congrArg (fun symbol => symbol.imports[i]?) same
      simpa [Symbol.withIds, Import.withId, inside] using item
    · obtain ⟨i, found, rfl⟩ := Option.map_eq_some_iff.mp isPlace
      obtain ⟨inside, _⟩ := List.findIdx?_eq_some_iff_getElem.mp found
      have item := congrArg (fun symbol => symbol.references[i]?) same
      simpa [Symbol.withIds, Reference.withId, inside] using item

end Pin

/-!
## Runs of pins
-/

namespace Workspace

variable {w later : Workspace} {ids : Ids} (tidy : w.Tidy) (identified : Identified w ids later)

section Steps

variable {pin : Pin}

include identified

theorem Identified.place?_free (relating : pin.Relating) {place : IdPlace}
    (isPlace : pin.place? later.symbols = some place) : Key.given? (ids place) = none := by
  rw [identified.symbols, Pin.place?_withIds] at isPlace
  obtain ⟨symbol, _, isPlace⟩ := Option.bind_eq_some_iff.mp isPlace
  exact Pin.placeIn?_free relating isPlace

theorem Identified.place?_put {next : Workspace} {other : Pin} (relating : pin.Relating)
    (relatingToo : other.Relating)
    (put : Identified w (ids.put (pin.place? later.symbols) pin.id) next)
    (apart : ∀ place, pin.place? later.symbols = some place →
      other.place? later.symbols ≠ some place) :
    other.place? next.symbols = other.place? later.symbols := by
  cases isPlace : pin.place? later.symbols with
  | none =>
    rw [isPlace] at put
    rw [put.symbols, identified.symbols]
    rfl
  | some place =>
    have isOther := apart place isPlace
    rw [isPlace] at put
    have free := identified.place?_free relating isPlace
    rw [identified.symbols, Pin.place?_withIds] at isOther ⊢
    rw [put.symbols, Pin.place?_withIds]
    cases found : w.symbols.find? fun symbol => symbol.qualifiedName == other.subject with
    | none => rfl
    | some symbol =>
      rw [found] at isOther
      exact Pin.placeIn?_update relatingToo free isOther

include tidy

/-- A pin that texts tell applies where there is a place for it, and does not fail. -/
theorem Identified.applyPin_place (textual : pin.Textual) :
    ∃ next, later.applyPin pin = .ok (next, (pin.place? later.symbols).isSome) ∧
      Identified w (ids.put (pin.place? later.symbols) pin.id) next := by
  have ran : ∃ next applied, later.applyPin pin = .ok (next, applied) := by
    rw [Workspace.applyPin, Pin.change?_eq]
    cases later.symbols.find? fun symbol => symbol.qualifiedName == pin.subject with
    | none => exact ⟨_, _, rfl⟩
    | some symbol =>
      obtain ⟨changed?, changes⟩ := Pin.changed?_ok textual symbol
      dsimp only
      rw [changes]
      cases changed? with
      | none => exact ⟨_, _, rfl⟩
      | some changed => exact ⟨_, _, rfl⟩
  obtain ⟨next, applied, ran⟩ := ran
  obtain ⟨rfl, put⟩ := identified.applyPin tidy ran
  exact ⟨next, ran, put⟩

end Steps

end Workspace

def Ids.putAll (place? : Pin → Option IdPlace) (ids : Ids) (pins : List Pin) : Ids :=
  pins.foldl (fun ids pin => ids.put (place? pin) pin.id) ids

theorem exists_perm_of_twice {α β : Type} {read : α → Option β} {items : List α} {answer : β}
    (twice : [answer, answer].Sublist (items.filterMap read)) :
    ∃ one other rest, items.Perm (one :: other :: rest) ∧ read one = some answer ∧
      read other = some answer := by
  obtain ⟨listed, inside, isTwice⟩ := List.sublist_filterMap_iff.mp twice
  obtain ⟨before, one, others, rfl, -, isOne, isTwice⟩ := List.filterMap_eq_cons_iff.mp isTwice.symm
  obtain ⟨between, other, last, rfl, -, isOther, -⟩ := List.filterMap_eq_cons_iff.mp isTwice
  have pair : [one, other].Sublist (before ++ one :: (between ++ other :: last)) :=
    .trans (.cons_cons one (List.singleton_sublist.mpr (by simp))) (List.sublist_append_right _ _)
  obtain ⟨rest, order⟩ := (pair.trans inside).exists_perm_append
  exact ⟨one, other, rest, order, isOne, isOther⟩

section Order

variable {place? : Pin → Option IdPlace} {pins order : List Pin}

theorem Pin.eq_of_place (apart : (pins.filterMap place?).Nodup) {one other : Pin}
    (first : one ∈ pins) (second : other ∈ pins) {place : IdPlace}
    (isPlace : place? one = some place) (isPlaceToo : place? other = some place) :
    one = other := by
  let Same (one other : Pin) : Prop :=
    ∀ place, place? one = some place → place? other = some place → one = other
  have pairwise : pins.Pairwise Same := by
    refine (List.pairwise_filterMap.mp apart).imp fun differ place isPlace isPlaceToo => ?_
    exact absurd rfl (differ place isPlace place isPlaceToo)
  have symmetric : Std.Symm Same :=
    ⟨fun one other same place isPlace isPlaceToo => (same place isPlaceToo isPlace).symm⟩
  exact pairwise.forall_of_forall (fun _ _ _ _ _ => rfl) first second place isPlace isPlaceToo

/-- Ids in different places can be put there in any order. -/
theorem Ids.putAll_perm (ids : Ids) (apart : (pins.filterMap place?).Nodup)
    (reordered : pins.Perm order) :
    ids.putAll place? pins = ids.putAll place? order := by
  refine reordered.foldl_eq' (fun one first other second ids => ?_) ids
  cases isPlace : place? one with
  | none => rfl
  | some place =>
    cases isPlaceToo : place? other with
    | none => rfl
    | some another =>
      by_cases same : place = another
      · subst same
        rw [Pin.eq_of_place apart first second isPlace isPlaceToo]
      · exact Function.update_comm same _ _ ids

end Order

namespace Workspace

variable {w later : Workspace} {ids : Ids} (tidy : w.Tidy) (identified : Identified w ids later)

include tidy identified

/-- Pins for relationships whose first places are different all apply, each in its first place. -/
theorem Identified.applyPinsFrom_apart {place? : Pin → Option IdPlace} {pins : List Pin}
    (relating : ∀ pin ∈ pins, pin.Relating)
    (places : ∀ pin ∈ pins, pin.place? later.symbols = place? pin)
    (apart : (pins.filterMap place?).Nodup) (count : Nat) :
    ∃ final, later.applyPinsFrom count pins =
        (.ok (count + (pins.filterMap place?).length), final) ∧
      Identified w (ids.putAll place? pins) final := by
  induction pins generalizing later ids count with
  | nil => exact ⟨later, rfl, identified⟩
  | cons pin rest ih =>
    obtain ⟨first, others⟩ := List.forall_mem_cons.mp relating
    obtain ⟨isPlace, onward⟩ := List.forall_mem_cons.mp places
    obtain ⟨next, ran, put⟩ := identified.applyPin_place tidy first.textual
    -- The places of the rest stay the same, for none of them is the one that is taken.
    have kept : ∀ other ∈ rest, other.place? next.symbols = place? other := by
      intro other listed
      rw [← onward other listed]
      refine identified.place?_put first (others other listed) put fun place isFirst isOther => ?_
      rw [isPlace] at isFirst
      rw [onward other listed] at isOther
      rw [List.filterMap_cons_some isFirst, List.nodup_cons] at apart
      exact apart.1 (List.mem_filterMap.mpr ⟨other, listed, isOther⟩)
    have apartToo : (rest.filterMap place?).Nodup :=
      apart.sublist ((List.sublist_cons_self _ _).filterMap _)
    obtain ⟨final, ranOn, isFinal⟩ := ih put others kept apartToo
      (if (pin.place? later.symbols).isSome then count + 1 else count)
    refine ⟨final, ?_, ?_⟩
    · rw [Workspace.applyPinsFrom, ran]
      dsimp only
      rw [ranOn, isPlace]
      cases isSome : place? pin with
      | none => rw [List.filterMap_cons_none isSome]; rfl
      | some place =>
        have total : count + 1 + (rest.filterMap place?).length =
            count + ((rest.filterMap place?).length + 1) := by omega
        rw [List.filterMap_cons_some isSome, List.length_cons, ← total]
        rfl
    · rw [isPlace] at isFinal
      exact isFinal

theorem Identified.applyPinsFrom_keeps {pins : List Pin} (relating : ∀ pin ∈ pins, pin.Relating)
    {place : IdPlace} {id : Key} (holds : ids place = some id) (given : id.isAbsent = false)
    (count : Nat) :
    ∃ total final last, later.applyPinsFrom count pins = (.ok total, final) ∧
      Identified w last final ∧ last place = some id := by
  induction pins generalizing later ids count with
  | nil => exact ⟨count, later, ids, rfl, identified, holds⟩
  | cons pin rest ih =>
    obtain ⟨first, others⟩ := List.forall_mem_cons.mp relating
    obtain ⟨next, ran, put⟩ := identified.applyPin_place tidy first.textual
    -- A place that has an id is not free, so the pin takes another one.
    have kept : ids.put (pin.place? later.symbols) pin.id place = some id := by
      cases isPlace : pin.place? later.symbols with
      | none => exact holds
      | some taken =>
        have free := identified.place?_free first isPlace
        refine (Function.update_of_ne ?_ _ _).trans holds
        rintro rfl
        rw [holds, Key.given?, Option.filter_some, given] at free
        cases free
    obtain ⟨total, final, last, ranOn, isLast, held⟩ := ih put others kept _
    refine ⟨total, final, last, ?_, isLast, held⟩
    rw [Workspace.applyPinsFrom, ran]
    exact ranOn

theorem Identified.applyPinsFrom_first {pin : Pin} {rest : List Pin}
    (relating : ∀ one ∈ pin :: rest, one.Relating) {place : IdPlace}
    (isPlace : pin.place? later.symbols = some place) (given : pin.id.isAbsent = false)
    (count : Nat) :
    ∃ total final last, later.applyPinsFrom count (pin :: rest) = (.ok total, final) ∧
      Identified w last final ∧ last place = some pin.id := by
  obtain ⟨first, others⟩ := List.forall_mem_cons.mp relating
  obtain ⟨next, ran, put⟩ := identified.applyPin_place tidy first.textual
  have holds : ids.put (pin.place? later.symbols) pin.id place = some pin.id := by
    rw [isPlace]
    exact Function.update_self ..
  obtain ⟨total, final, last, ranOn, isLast, held⟩ :=
    put.applyPinsFrom_keeps tidy others holds given _
  refine ⟨total, final, last, ?_, isLast, held⟩
  rw [Workspace.applyPinsFrom, ran]
  exact ranOn

omit tidy identified

/-- Which id a place has can be told from the files. -/
theorem Identified.eq_of_files {one other : Workspace} {first second : Ids}
    (identified : Identified w first one) (identifiedToo : Identified w second other)
    (same : one.files = other.files) {pin : Pin} {place : IdPlace}
    (isPlace : pin.place? w.symbols = some place) : first place = second place := by
  obtain ⟨symbol, found, isPlace⟩ := Option.bind_eq_some_iff.mp isPlace
  have symbols : w.symbols.map (Symbol.withIds first) = w.symbols.map (Symbol.withIds second) := by
    rw [← identified.symbols, ← identifiedToo.symbols, Workspace.symbols, same]
    rfl
  have each := List.map_inj_left.mp symbols symbol (List.mem_of_find?_eq_some found)
  exact Pin.eq_of_withIds each isPlace

end Workspace

/-!
## Entries
-/

namespace Pin

def described? (entry : Value) : Option Pin :=
  (ofValue? entry).toOption.join

def entryPlace? (symbols : List Symbol) (entry : Value) : Option IdPlace :=
  (described? entry).bind (place? · symbols)

/-- An entry for a relationship: it is not refused, and gives the kind and the target as texts.
Without an id it describes nothing. -/
def TellsRelationship (entry : Value) : Prop :=
  ∃ pin?, ofValue? entry = .ok pin? ∧ ∀ pin ∈ pin?, pin.Relating

theorem tellsRelationship_of_texts {id kind source target : String} (some_ : id ≠ "") :
    TellsRelationship (.object [("id", .text id), ("kind", .text kind), ("source", .text source),
      ("target", .text target)]) := by
  refine ⟨_, ofValue?_relationship some_, ?_⟩
  rintro _ ⟨⟩
  exact ⟨_, _, _, _, rfl⟩

variable {entries : List Value}

theorem ofValues_described (tell : ∀ entry ∈ entries, TellsRelationship entry) :
    ofValues entries = (entries.filterMap described?, none) := by
  induction entries with
  | nil => rfl
  | cons entry rest ih =>
    obtain ⟨⟨pin?, isPin, _⟩, others⟩ := List.forall_mem_cons.mp tell
    have described : described? entry = pin? := by
      rw [described?, isPin]
      rfl
    rw [ofValues, isPin, ih others]
    cases pin? with
    | none => rw [List.filterMap_cons_none described]; rfl
    | some pin => rw [List.filterMap_cons_some described]; rfl

theorem filterMap_described (symbols : List Symbol) (entries : List Value) :
    (entries.filterMap described?).filterMap (place? · symbols) =
      entries.filterMap (entryPlace? symbols) :=
  List.filterMap_filterMap

theorem relating_described (tell : ∀ entry ∈ entries, TellsRelationship entry) :
    ∀ pin ∈ entries.filterMap described?, pin.Relating := by
  intro pin listed
  obtain ⟨entry, member, described⟩ := List.mem_filterMap.mp listed
  obtain ⟨pin?, isPin, relating⟩ := tell entry member
  rw [described?, isPin] at described
  exact relating pin described

theorem entryId?_described {entry : Value} {pin : Pin} (described : described? entry = some pin) :
    entryId? entry = some pin.id ∧ pin.id.isAbsent = false := by
  have isPin := toOption_join_eq_some.mp described
  have isId := ofValue?_id isPin
  refine ⟨isId, ?_⟩
  simpa using (Option.filter_eq_some_iff.mp isId).2

end Pin

namespace Session

variable {session : Session}

theorem Read.proper (read : session.Read) :
    (session.workspace.symbols.any fun symbol => !symbol.qualifiedName.isProper) = false := by
  rw [List.any_eq_false]
  intro symbol known
  obtain ⟨_, _, written⟩ := read.written [] symbol known
  obtain ⟨name, isName⟩ := written.qualifiedName
  rw [isName]
  exact Bool.false_ne_true

theorem Read.outcome_applyEntries (read : session.Read) {entries : List Value}
    (tell : ∀ entry ∈ entries, Pin.TellsRelationship entry) {count : Nat} {final : Workspace}
    (ran : session.workspace.applyPinsFrom 0 (entries.filterMap Pin.described?) =
      (.ok count, final)) :
    ∃ later, outcome (applyEntries entries) session = (.ok count, later) ∧
      later.workspace.files = final.files := by
  have applied : session.workspace.applyEntries entries =
      (.ok count, if count = 0 then final else { final with index := none }) := by
    rw [Workspace.applyEntries, read.proper, if_neg Bool.false_ne_true,
      Pin.ofValues_described tell]
    dsimp only
    rw [Workspace.applyPins, ran]
  rw [Session.outcome_applyEntries, applied]
  by_cases isZero : count = 0
  · exact ⟨_, rfl, by rw [if_pos isZero, if_pos isZero]⟩
  · exact ⟨_, rfl, by rw [if_neg isZero, if_neg isZero]; rfl⟩

/-- Entries whose first places are different all apply, each in its first place. -/
theorem Read.outcome_applyEntries_apart (read : session.Read) (tidy : session.workspace.Tidy)
    {entries : List Value} (tell : ∀ entry ∈ entries, Pin.TellsRelationship entry)
    (apart : (entries.filterMap (Pin.entryPlace? session.workspace.symbols)).Nodup) :
    ∃ later, outcome (applyEntries entries) session =
        (.ok (entries.filterMap (Pin.entryPlace? session.workspace.symbols)).length, later) ∧
      later.workspace.files = session.workspace.files.map (SourceFile.recast (Symbol.withIds
        (Ids.putAll (·.place? session.workspace.symbols) (fun _ => none)
          (entries.filterMap Pin.described?)))) := by
  rw [← Pin.filterMap_described] at apart ⊢
  have identified := Workspace.identified_nothing read.idless
  obtain ⟨final, ran, isFinal⟩ := identified.applyPinsFrom_apart tidy
    (Pin.relating_described tell) (fun _ _ => rfl) apart 0
  rw [Nat.zero_add] at ran
  obtain ⟨later, applied, kept⟩ := read.outcome_applyEntries tell ran
  exact ⟨later, applied, kept.trans isFinal.files⟩

/-- Of two entries with one first place, the one that comes first gets it. So the other order gives
other files. -/
theorem Read.files_of_shared (read : session.Read) (tidy : session.workspace.Tidy)
    {one other : Value} {rest : List Value}
    (tell : ∀ entry ∈ one :: other :: rest, Pin.TellsRelationship entry) {first second : Pin}
    (isFirst : Pin.described? one = some first) (isSecond : Pin.described? other = some second)
    {place : IdPlace} (isPlace : first.place? session.workspace.symbols = some place)
    (isPlaceToo : second.place? session.workspace.symbols = some place)
    (apart : (first.id == second.id) = false) {files : List SourceFile}
    (same : ∀ order, order.Perm (one :: other :: rest) → ∃ count later,
      outcome (applyEntries order) session = (.ok count, later) ∧ later.workspace.files = files) :
    False := by
  have identified := Workspace.identified_nothing read.idless
  -- Whichever of the two comes first, its id is in the place in the end.
  have put {head next : Value} {pin : Pin} (isPin : Pin.described? head = some pin)
      (found : pin.place? session.workspace.symbols = some place)
      (order : (head :: next :: rest).Perm (one :: other :: rest)) :
      ∃ final last, Workspace.Identified session.workspace last final ∧
        last place = some pin.id ∧ final.files = files := by
    have tellToo : ∀ entry ∈ head :: next :: rest, Pin.TellsRelationship entry :=
      fun entry listed => tell entry (order.mem_iff.mp listed)
    have relating := Pin.relating_described tellToo
    have described := List.filterMap_cons_some isPin (l := next :: rest)
    rw [described] at relating
    obtain ⟨count, final, last, ran, isLast, held⟩ := identified.applyPinsFrom_first tidy relating
      found (Pin.entryId?_described isPin).2 0
    rw [← described] at ran
    obtain ⟨later, applied, kept⟩ := read.outcome_applyEntries tellToo ran
    obtain ⟨total, laterToo, appliedToo, files⟩ := same _ order
    obtain ⟨-, rfl⟩ := Prod.mk.inj (applied.symm.trans appliedToo)
    exact ⟨final, last, isLast, held, kept.symm.trans files⟩
  obtain ⟨_, firstIds, identifiedFirst, holdsFirst, files⟩ := put isFirst isPlace (.refl _)
  obtain ⟨_, secondIds, identifiedSecond, holdsSecond, filesToo⟩ :=
    put isSecond isPlaceToo (.swap one other rest)
  have agree := identifiedFirst.eq_of_files identifiedSecond (files.trans filesToo.symm) isPlace
  rw [holdsFirst, holdsSecond] at agree
  rw [Option.some.inj agree, BEq.rfl] at apart
  cases apart

/-- Entries for relationships, with different ids, pin the same ids and count the same in any order
exactly where no two of them have one first place. -/
theorem applyEntries_reordered {changes : List Change} {entries : List Value}
    (reads : ∀ change ∈ changes, change.reads = true)
    (tell : ∀ entry ∈ entries, Pin.TellsRelationship entry)
    (apart : (entries.filterMap Pin.entryId?).Pairwise fun one other => (one == other) = false) :
    (∃ count files, ∀ order, order.Perm entries → ∃ later,
        outcome (applyEntries order) (after changes) = (.ok count, later) ∧
          later.workspace.files = files) ↔
      (entries.filterMap (Pin.entryPlace? (after changes).workspace.symbols)).Nodup := by
  have read := after_read reads
  have tidy := (after_consistent changes).tidy
  generalize after changes = session at *
  constructor
  · rintro ⟨count, files, same⟩
    rw [List.nodup_iff_sublist]
    intro place twice
    obtain ⟨one, other, rest, order, isOne, isOther⟩ := exists_perm_of_twice twice
    obtain ⟨first, isFirst, isPlace⟩ := Option.bind_eq_some_iff.mp isOne
    obtain ⟨second, isSecond, isPlaceToo⟩ := Option.bind_eq_some_iff.mp isOther
    have apartIds : (first.id == second.id) = false := by
      have symmetric : ∀ {one other : Key}, (one == other) = false → (other == one) = false :=
        fun differ => BEq.comm.trans differ
      have pairwise := (order.filterMap Pin.entryId?).pairwise apart symmetric
      rw [List.filterMap_cons_some (Pin.entryId?_described isFirst).1,
        List.filterMap_cons_some (Pin.entryId?_described isSecond).1] at pairwise
      exact (List.pairwise_cons.mp pairwise).1 _ List.mem_cons_self
    exact read.files_of_shared tidy (fun entry listed => tell entry (order.mem_iff.mpr listed))
      isFirst isSecond isPlace isPlaceToo apartIds fun another reordered =>
        ⟨count, same another (reordered.trans order.symm)⟩
  · intro different
    obtain ⟨first, -, isFirst⟩ := read.outcome_applyEntries_apart tidy tell different
    refine ⟨(entries.filterMap (Pin.entryPlace? session.workspace.symbols)).length,
      first.workspace.files, fun order reordered => ?_⟩
    have places := reordered.filterMap (Pin.entryPlace? session.workspace.symbols)
    obtain ⟨later, applied, files⟩ := read.outcome_applyEntries_apart tidy
      (fun entry listed => tell entry (reordered.mem_iff.mp listed)) (places.symm.nodup different)
    have sameIds := Ids.putAll_perm (fun _ => none)
      ((Pin.filterMap_described _ entries).symm ▸ different)
      (reordered.symm.filterMap Pin.described?)
    rw [places.length_eq] at applied
    rw [← sameIds, ← isFirst] at files
    exact ⟨later, applied, files⟩

def typingEntry (id target : String) : Value :=
  .object [("id", .text id), ("kind", .text "FeatureTyping"), ("source", .text "P::x"),
    ("target", .text target)]

/-- A part with two definitions, the second of which has the name of the first inside of a
package. -/
def nestedName : List Change :=
  [.load "m.sysml"
    "package P \x7b part def T; package Q \x7b part def T; \x7d part x : Q::T, T; \x7d" false]

/-- Where the longer target is written first, both typings are found in either order. -/
theorem applyEntries_reordered_nested :
    ∃ count files, ∀ order, order.Perm [typingEntry "i" "P::Q::T", typingEntry "o" "P::T"] →
      ∃ later, outcome (applyEntries order) (after nestedName) = (.ok count, later) ∧
        later.workspace.files = files := by
  refine (applyEntries_reordered (by decide) ?_ (by decide +kernel)).mpr (by decide +kernel)
  intro entry listed
  rcases List.mem_pair.mp listed with rfl | rfl
  · exact Pin.tellsRelationship_of_texts (by decide)
  · exact Pin.tellsRelationship_of_texts (by decide)

/-- A part with two definitions, the first of which has the name that the second has inside of a
package. -/
def nestedNameLast : List Change :=
  [.load "m.sysml"
    "package P \x7b part def T; package Q \x7b part def T; \x7d part x : T, Q::T; \x7d" false]

/-- Where the shorter target is written first, the longer one ends in it: if the entry for the longer
one comes first it takes the reference to the other, which is lost. -/
theorem nestedTyping_taken :
    (outcome (applyEntries [typingEntry "o" "P::T", typingEntry "i" "P::Q::T"])
        (after nestedNameLast)).1.toOption = some 2 ∧
      (outcome (applyEntries [typingEntry "i" "P::Q::T", typingEntry "o" "P::T"])
        (after nestedNameLast)).1.toOption = some 1 := by
  decide +kernel

end Session

end Sysml
