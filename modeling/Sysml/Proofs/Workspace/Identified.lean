import Mathlib.Logic.Function.Basic
import Sysml.Proofs.Workspace.Pinning
import Sysml.Proofs.Workspace.Recasting

/-!
# Where pins put ids

Each pin that applies puts its id in one place: a symbol, or one of a symbol's references or
imports. So pins leave all else of a workspace as it was, and ids that are different stand in
different places (`applyEntries_identified`).
-/

set_option autoImplicit false

namespace Sysml

open Scope

/-- A place for an id: a symbol, told by its serial number, or one of its references or imports,
told by its position. -/
inductive IdPlace where
  | element (serial : Nat)
  | reference (serial position : Nat)
  | imported (serial position : Nat)
  deriving DecidableEq

def IdPlace.serial : IdPlace → Nat
  | element serial | reference serial _ | imported serial _ => serial

abbrev Ids := IdPlace → Option Key

def Ids.put (ids : Ids) (place? : Option IdPlace) (id : Key) : Ids :=
  place?.elim ids fun place => Function.update ids place (some id)

def Reference.withId (id : Option Key) (reference : Reference) : Reference :=
  { reference with elementId := id }

def Import.withId (id : Option Key) (i : Import) : Import :=
  { i with elementId := id }

namespace Symbol

def withIds (ids : Ids) (symbol : Symbol) : Symbol :=
  { symbol with
    references := symbol.references.mapIdx fun i => .withId (ids (.reference symbol.serial i))
    imports := symbol.imports.mapIdx fun i => .withId (ids (.imported symbol.serial i))
    elementId := ids (.element symbol.serial) }

structure Idless (symbol : Symbol) : Prop where
  element : symbol.elementId = none
  references : ∀ reference ∈ symbol.references, reference.withId none = reference
  imports : ∀ i ∈ symbol.imports, i.withId none = i

variable {ids : Ids} {symbol : Symbol}

theorem recasts_withIds (ids : Ids) : Recasts (withIds ids) := by
  refine ⟨fun symbol => ?_, fun _ _ => Iff.rfl⟩
  have references : (symbol.withIds ids).references.map Reference.bare =
      symbol.references.map Reference.bare := by
    apply List.ext_getElem
    · simp [withIds]
    · intro i _ _
      simp [withIds, Reference.bare, Reference.withId]
  have imports : (symbol.withIds ids).imports.map Import.bare = symbol.imports.map Import.bare := by
    apply List.ext_getElem
    · simp [withIds]
    · intro i _ _
      simp [withIds, Import.bare, Import.withId]
  rw [bare, references, imports]
  rfl

/-- Without ids a symbol stays one that has none. -/
theorem Idless.withIds_nothing (idless : symbol.Idless) :
    symbol.withIds (fun _ => none) = symbol := by
  have references : symbol.references.mapIdx (fun _ => Reference.withId none) =
      symbol.references := by
    apply List.ext_getElem
    · simp
    · intro i _ inside
      rw [List.getElem_mapIdx]
      exact idless.references _ (List.getElem_mem inside)
  have imports : symbol.imports.mapIdx (fun _ => Import.withId none) = symbol.imports := by
    apply List.ext_getElem
    · simp
    · intro i _ inside
      rw [List.getElem_mapIdx]
      exact idless.imports _ (List.getElem_mem inside)
  rw [withIds, references, imports, ← idless.element]

/-- An id in a place of another symbol leaves a symbol as it is. -/
theorem withIds_update_of_ne {place : IdPlace} (apart : symbol.serial ≠ place.serial)
    (id : Option Key) : symbol.withIds (Function.update ids place id) = symbol.withIds ids := by
  have kept (other : IdPlace) (same : other.serial = symbol.serial) :
      Function.update ids place id other = ids other :=
    Function.update_of_ne (fun isPlace => apart (by rw [← isPlace, same])) _ _
  have element := kept (.element symbol.serial) rfl
  have references (i : Nat) := kept (.reference symbol.serial i) rfl
  have imports (i : Nat) := kept (.imported symbol.serial i) rfl
  simp only [withIds, element, references, imports]

theorem withIds_update_element (id : Key) :
    symbol.withIds (Function.update ids (.element symbol.serial) (some id)) =
      { symbol.withIds ids with elementId := some id } := by
  simp [withIds]

theorem withIds_update_reference (i : Nat) (id : Key) :
    symbol.withIds (Function.update ids (.reference symbol.serial i) (some id)) =
      { symbol.withIds ids with
        references := (symbol.withIds ids).references.modify i fun reference =>
          { reference with elementId := some id } } := by
  have references : (symbol.withIds (Function.update ids (.reference symbol.serial i)
      (some id))).references = (symbol.withIds ids).references.modify i fun reference =>
        { reference with elementId := some id } := by
    apply List.ext_getElem
    · simp [withIds]
    · intro j _ _
      by_cases same : i = j
      · simp [withIds, same, Reference.withId]
      · have apart : IdPlace.reference symbol.serial j ≠ .reference symbol.serial i := by
          rintro ⟨⟩
          exact same rfl
        simp [withIds, same, Function.update_of_ne apart]
  rw [← references]
  simp [withIds]

theorem withIds_update_imported (i : Nat) (id : Key) :
    symbol.withIds (Function.update ids (.imported symbol.serial i) (some id)) =
      { symbol.withIds ids with
        imports := (symbol.withIds ids).imports.modify i fun imported =>
          { imported with elementId := some id } } := by
  have imports : (symbol.withIds (Function.update ids (.imported symbol.serial i)
      (some id))).imports = (symbol.withIds ids).imports.modify i fun imported =>
        { imported with elementId := some id } := by
    apply List.ext_getElem
    · simp [withIds]
    · intro j _ _
      by_cases same : i = j
      · simp [withIds, same, Import.withId]
      · have apart : IdPlace.imported symbol.serial j ≠ .imported symbol.serial i := by
          rintro ⟨⟩
          exact same rfl
        simp [withIds, same, Function.update_of_ne apart]
  rw [← imports]
  simp [withIds]

end Symbol

namespace Pin

def id : Pin → Key
  | element id _ | relationship id _ _ _ => id

/-- The id that an entry of companion data gives, if it gives one. -/
def entryId? (entry : Value) : Option Key :=
  Key.given? ((entry.field? "id").map Key.mk)

variable {pin : Pin} {symbol : Symbol} {ids : Ids}

abbrev passes {α : Type} (fits : α → Except Failure Bool) (item : α) : Bool :=
  (fits item).toOption.getD false

/-- The first item that fits is changed, if one does. -/
theorem changeFirst?_findIdx? {α : Type} {fits : α → Except Failure Bool} {change : α → α}
    {items : List α} {changed? : Option (List α)}
    (ran : changeFirst? fits change items = .ok changed?) :
    changed? = (items.findIdx? (passes fits)).map fun i => items.modify i change := by
  induction items generalizing changed? with
  | nil =>
    cases ran
    rfl
  | cons item rest ih =>
    rw [changeFirst?] at ran
    obtain ⟨fit, isFit, ran⟩ := result_bind_ok ran
    rw [List.findIdx?_cons, passes, isFit]
    cases fit with
    | true =>
      cases ran
      rfl
    | false =>
      obtain ⟨others, found, ran⟩ := result_bind_ok ran
      cases ran
      rw [ih found]
      cases rest.findIdx? (passes fits) <;> rfl

def placeIn? (pin : Pin) (symbol : Symbol) : Option IdPlace :=
  match pin with
  | element _ _ => some (.element symbol.serial)
  | relationship _ _ kind target =>
    if isImportKind kind then
      (symbol.imports.findIdx? (fitsImport target)).map (.imported symbol.serial)
    else
      (symbol.references.findIdx? (passes (fitsReference kind target))).map
        (.reference symbol.serial)

/-- Where a pin applies: in the first symbol of its name, to the first reference or import that
fits and has no id yet. -/
def place? (pin : Pin) (symbols : List Symbol) : Option IdPlace :=
  (symbols.find? fun symbol => symbol.qualifiedName == pin.subject).bind pin.placeIn?

theorem placeIn?_serial {place : IdPlace} (isPlace : pin.placeIn? symbol = some place) :
    place.serial = symbol.serial := by
  cases pin with
  | element id name =>
    cases isPlace
    rfl
  | relationship id source kind target =>
    rw [placeIn?] at isPlace
    split at isPlace
    · obtain ⟨i, _, rfl⟩ := Option.map_eq_some_iff.mp isPlace
      rfl
    · obtain ⟨i, _, rfl⟩ := Option.map_eq_some_iff.mp isPlace
      rfl

/-- A pin puts its id in the place where it applies, if there is one. -/
theorem changed?_place {next : Option Symbol}
    (changes : pin.changed? (symbol.withIds ids) = .ok next) :
    next = (pin.placeIn? (symbol.withIds ids)).map fun place =>
      symbol.withIds (Function.update ids place (some pin.id)) := by
  cases pin with
  | element id name =>
    cases changes
    exact congrArg some (Symbol.withIds_update_element id).symm
  | relationship id source kind target =>
    simp only [changed?, onSymbol?] at changes
    rw [placeIn?]
    split at changes
    · next imports =>
      obtain ⟨found, ran, changes⟩ := result_bind_ok changes
      cases changes
      rw [changeFirst?_findIdx? ran, if_pos imports]
      simp only [Option.map_map]
      exact congrArg (Option.map · _)
        (funext fun i => (Symbol.withIds_update_imported i id).symm)
    · next imports =>
      obtain ⟨found, ran, changes⟩ := result_bind_ok changes
      cases changes
      rw [changeFirst?_findIdx? ran, if_neg imports]
      simp only [Option.map_map]
      exact congrArg (Option.map · _)
        (funext fun i => (Symbol.withIds_update_reference i id).symm)

theorem ofValue?_id {entry : Value} {pin : Pin} (isPin : ofValue? entry = .ok (some pin)) :
    entryId? entry = some pin.id := by
  have given (present : ¬ Key.isAbsent ⟨(entry.field? "id").getD (.text "")⟩ = true) :
      entryId? entry = some ⟨(entry.field? "id").getD (.text "")⟩ := by
    unfold entryId?
    cases found : entry.field? "id" with
    | none =>
      rw [found] at present
      exact absurd rfl present
    | some id =>
      rw [found] at present
      rw [Option.map_some, Key.given?, Option.filter_some, if_pos (by simpa using present)]
      rfl
  unfold ofValue? at isPin
  dsimp only at isPin
  split at isPin
  · cases isPin
  · split at isPin
    · cases isPin
    · next present =>
      split at isPin
      · obtain ⟨_, _, same⟩ := result_bind_ok isPin
        cases same
        exact given present
      · obtain ⟨_, _, same⟩ := result_bind_ok isPin
        cases same
        exact given present

/-- The pins of entries have ids that the entries give, in their order. -/
theorem ofValues_ids (entries : List Value) :
    ((ofValues entries).1.map Pin.id).Sublist (entries.filterMap entryId?) := by
  induction entries with
  | nil => exact List.Sublist.refl _
  | cons entry rest ih =>
    rw [ofValues]
    split
    · exact List.nil_sublist _
    · next pin? isPin =>
      cases pin? with
      | none =>
        refine List.Sublist.trans ih (List.Sublist.filterMap _ (List.sublist_cons_self _ _))
      | some pin =>
        rw [List.filterMap_cons_some (ofValue?_id isPin)]
        exact List.Sublist.cons_cons _ ih

end Pin

/-- Ids from a pool, different ones in different places. -/
structure Ids.Drawn (pool : List Key) (ids : Ids) : Prop where
  known : ∀ place id, ids place = some id → id ∈ pool
  apart : ∀ one other first second, ids one = some first → ids other = some second →
    (first == second) = true → one = other

theorem Ids.drawn_nothing : Ids.Drawn [] fun _ => none :=
  ⟨fun _ _ none_ => (by cases none_), fun _ _ _ _ none_ => (by cases none_)⟩

theorem Ids.Drawn.grow {pool more : List Key} {ids : Ids} (drawn : Ids.Drawn pool ids)
    (inside : pool ⊆ more) : Ids.Drawn more ids :=
  ⟨fun place id holds => inside (drawn.known place id holds), drawn.apart⟩

/-- One more id, from a larger pool. -/
theorem Ids.Drawn.put {pool : List Key} {ids : Ids} (drawn : Ids.Drawn pool ids) {id : Key}
    (fresh : ∀ known ∈ pool, (known == id) = false) (place? : Option IdPlace) :
    Ids.Drawn (pool ++ [id]) (ids.put place? id) := by
  cases place? with
  | none => exact drawn.grow (List.subset_append_left _ _)
  | some place =>
    change Ids.Drawn _ (Function.update ids place (some id))
    have read (other : IdPlace) (found : Key)
        (holds : Function.update ids place (some id) other = some found) :
        other = place ∧ found = id ∨ other ≠ place ∧ ids other = some found := by
      by_cases same : other = place
      · subst same
        rw [Function.update_self] at holds
        exact .inl ⟨rfl, (Option.some.inj holds).symm⟩
      · rw [Function.update_of_ne same] at holds
        exact .inr ⟨same, holds⟩
    refine ⟨fun other found holds => ?_, fun one other first second isFirst isSecond same => ?_⟩
    · rcases read other found holds with ⟨_, rfl⟩ | ⟨_, old⟩
      · exact List.mem_append_right _ (List.mem_singleton_self _)
      · exact List.mem_append_left _ (drawn.known other found old)
    · rcases read one first isFirst with ⟨rfl, rfl⟩ | ⟨_, oldFirst⟩ <;>
        rcases read other second isSecond with ⟨rfl, rfl⟩ | ⟨_, oldSecond⟩
      · rfl
      · rw [BEq.comm, fresh second (drawn.known other second oldSecond)] at same
        cases same
      · rw [fresh first (drawn.known one first oldFirst)] at same
        cases same
      · exact drawn.apart one other first second oldFirst oldSecond same

namespace Workspace

variable {w later : Workspace} {ids : Ids}

/-- A current index holds no symbols but those of the workspace. -/
theorem Current.adjust_congr {index : Index} (current : w.Current index)
    {change other : Symbol → Symbol} (same : ∀ symbol ∈ w.symbols, change symbol = other symbol) :
    w.adjust change = w.adjust other := by
  have known {symbol : Symbol} (held : symbol ∈ index.symbols) : change symbol = other symbol :=
    same symbol (current.symbols ▸ held)
  have files : w.files.map (fun file => { file with symbols := file.symbols.map change }) =
      w.files.map fun file => { file with symbols := file.symbols.map other } := by
    refine List.map_congr_left fun file member => ?_
    rw [List.map_congr_left fun symbol has => same symbol (List.mem_flatMap_of_mem member has)]
  have indexed : index.adjust change = index.adjust other := by
    have symbols : index.symbols.map change = index.symbols.map other :=
      List.map_congr_left fun symbol held => known held
    have byId : index.byId.map (fun entry => (entry.1, change entry.2)) =
        index.byId.map fun entry => (entry.1, other entry.2) :=
      List.map_congr_left fun entry held => by rw [known (current.ids entry held)]
    rw [Index.adjust, symbols, byId]
    rfl
  have memo : w.memo.map (fun entry => (entry.1, entry.2.map change)) =
      w.memo.map fun entry => (entry.1, entry.2.map other) := by
    refine List.map_congr_left fun entry held => ?_
    refine congrArg (Prod.mk entry.1) ?_
    cases found : entry.2 with
    | none => rfl
    | some symbol => exact congrArg some (known (current.memo entry held symbol found))
  simp only [Workspace.adjust, current.found, files, Option.map_some, indexed, memo]

/-- The second workspace is the first with ids in places. -/
structure Identified (w : Workspace) (ids : Ids) (later : Workspace) : Prop where
  files : later.files = w.files.map (SourceFile.recast (Symbol.withIds ids))
  whole : ∀ index, w.Current index → later = w.adjust (Symbol.withIds ids)

theorem Identified.symbols (identified : Identified w ids later) :
    later.symbols = w.symbols.map (Symbol.withIds ids) :=
  symbols_recast identified.files

theorem Identified.rootImports (identified : Identified w ids later) :
    later.rootImports = w.rootImports :=
  rootImports_recast identified.files

/-- A workspace that has no ids is itself without any. -/
theorem identified_nothing (idless : ∀ symbol ∈ w.symbols, symbol.Idless) :
    Identified w (fun _ => none) w := by
  have same : ∀ symbol ∈ w.symbols, symbol.withIds (fun _ => none) = id symbol :=
    fun symbol known => (idless symbol known).withIds_nothing
  refine ⟨?_, fun index current => ?_⟩
  · refine ((List.map_congr_left fun file member => ?_).trans (List.map_id _)).symm
    rw [SourceFile.recast, List.map_congr_left fun symbol has =>
      same symbol (List.mem_flatMap_of_mem member has), List.map_id]
    rfl
  · rw [current.adjust_congr same]
    simp [adjust, Index.adjust]

/-- A pin applies where there is a place for it, and puts its id there. -/
theorem Identified.applyPin (tidy : w.Tidy) (identified : Identified w ids later) {pin : Pin}
    {next : Workspace} {applied : Bool} (ran : later.applyPin pin = .ok (next, applied)) :
    applied = (pin.place? later.symbols).isSome ∧
      Identified w (ids.put (pin.place? later.symbols) pin.id) next := by
  obtain ⟨changed?, changes, ran⟩ := result_bind_ok ran
  rw [Pin.change?_eq, identified.symbols] at changes
  rw [Pin.place?, identified.symbols]
  split at changes
  · next missed =>
    cases changes
    cases ran
    rw [missed]
    exact ⟨rfl, identified⟩
  · next found looked =>
    obtain ⟨symbol, known, rfl⟩ := List.mem_map.mp (List.mem_of_find?_eq_some looked)
    rw [looked, Option.bind_some]
    rw [Pin.changed?_place changes] at ran
    cases isPlace : pin.placeIn? (symbol.withIds ids) with
    | none =>
      rw [isPlace] at ran
      cases ran
      exact ⟨rfl, identified⟩
    | some place =>
      rw [isPlace] at ran
      cases ran
      refine ⟨rfl, ?_⟩
      change Identified w (Function.update ids place (some pin.id)) _
      have each : ∀ other ∈ w.symbols,
          (if (other.withIds ids).serial =
              (symbol.withIds (Function.update ids place (some pin.id))).serial then
            symbol.withIds (Function.update ids place (some pin.id)) else other.withIds ids) =
          other.withIds (Function.update ids place (some pin.id)) := by
        intro other isOther
        by_cases same : other.serial = symbol.serial
        · obtain rfl := tidy.eq_of_serial isOther known same
          exact if_pos rfl
        · refine (if_neg same).trans (Symbol.withIds_update_of_ne ?_ _).symm
          rw [Pin.placeIn?_serial isPlace]
          exact same
      refine ⟨?_, fun index current => ?_⟩
      · change later.files.map _ = _
        rw [identified.files, List.map_map]
        refine List.map_congr_left fun file member => ?_
        refine congrArg (fun symbols => { file with symbols }) ?_
        change (file.symbols.map _).map _ = _
        rw [List.map_map]
        exact List.map_congr_left fun other has => each other (List.mem_flatMap_of_mem member has)
      · rw [identified.whole index current, Unindexed.adjust_adjust]
        exact current.adjust_congr each

/-- Pins put ids in places, different ones in different places. -/
theorem Identified.applyPinsFrom (tidy : w.Tidy) (identified : Identified w ids later)
    {pool : List Key} (drawn : Ids.Drawn pool ids) (count : Nat) (pins : List Pin)
    (apart : (pool ++ pins.map Pin.id).Pairwise fun one other => (one == other) = false) :
    ∃ final : Ids, Identified w final (later.applyPinsFrom count pins).2 ∧
      Ids.Drawn (pool ++ pins.map Pin.id) final := by
  induction pins generalizing later ids pool count with
  | nil => exact ⟨ids, identified, drawn.grow (List.subset_append_left _ _)⟩
  | cons pin rest ih =>
    rw [Workspace.applyPinsFrom]
    split
    · exact ⟨ids, identified, drawn.grow (List.subset_append_left _ _)⟩
    · next next applied ran =>
      have split_ : pool ++ (pin :: rest).map Pin.id = (pool ++ [pin.id]) ++ rest.map Pin.id := by
        rw [List.map_cons, List.append_assoc, List.singleton_append]
      have fresh : ∀ known ∈ pool, (known == pin.id) = false := fun known member =>
        (List.pairwise_append.mp apart).2.2 known member pin.id List.mem_cons_self
      rw [split_] at apart ⊢
      exact ih (identified.applyPin tidy ran).2 (drawn.put fresh _) _ apart

/-- Entries whose ids are different put these in different places, and leave the index as it is
unless they drop it. -/
theorem applyEntries_identified (tidy : w.Tidy) (idless : ∀ symbol ∈ w.symbols, symbol.Idless)
    {entries : List Value}
    (apart : (entries.filterMap Pin.entryId?).Pairwise fun one other => (one == other) = false) :
    ∃ ids later, Identified w ids later ∧ Ids.Drawn (entries.filterMap Pin.entryId?) ids ∧
      ((w.applyEntries entries).2 = later ∧
          (∀ count, (w.applyEntries entries).1 = .ok count → count = 0) ∨
        ∃ count, count ≠ 0 ∧
          w.applyEntries entries = (.ok count, { later with index := none })) := by
  have start := identified_nothing idless
  have listed := Pin.ofValues_ids entries
  obtain ⟨ids, identified, drawn⟩ := start.applyPinsFrom tidy Ids.drawn_nothing 0
    (Pin.ofValues entries).1 (apart.sublist listed)
  rw [List.nil_append] at drawn
  have drawn := drawn.grow listed.subset
  unfold applyEntries
  split
  · exact ⟨_, w, start, Ids.drawn_nothing.grow (List.nil_subset _), .inl ⟨rfl, fun _ same =>
      (by cases same)⟩⟩
  · refine ⟨ids, _, identified, drawn, ?_⟩
    rcases Pin.ofValues entries with ⟨pins, _ | refused⟩
    · dsimp only
      unfold applyPins
      rcases w.applyPinsFrom 0 pins with ⟨failure | count, later⟩
      · exact .inl ⟨rfl, fun _ same => (by cases same)⟩
      · by_cases isZero : count = 0
        · refine .inl ⟨?_, fun _ same => (Except.ok.inj same) ▸ isZero⟩
          dsimp only
          rw [if_pos isZero]
        · refine .inr ⟨count, isZero, ?_⟩
          dsimp only
          rw [if_neg isZero]
    · dsimp only
      rcases w.applyPinsFrom 0 pins with ⟨failure | count, later⟩ <;>
        exact .inl ⟨rfl, fun _ same => (by cases same)⟩

end Workspace

end Sysml
