import Sysml.Proofs.Document.Gathering
import Sysml.Proofs.Workspace.Identified

/-!
# Ids that stand for each other

What is issued an id in an export has one that was put in its place, or one that is minted. Where no
two of these are equal, the ids of the symbols with and without ids in places stand for each other
one for one (`elements_oneForOne`).
-/

set_option autoImplicit false

namespace Sysml

open Scope

/-! ## Ids that are issued -/

/-- The relationships that a symbol may have, whatever its references and imports lead to. -/
def possibleLinks (index : Index) (symbol : Symbol) : List Link :=
  index.symbols.flatMap fun target =>
    (symbol.references.filterMap fun reference => reference.link? symbol (some target)) ++
      symbol.imports.filterMap fun i => (i.link? symbol (some target)).toOption.join

/-- All that ids may be minted from in an export, whatever references and imports lead to. -/
def exportKeys (index : Index) : List (String × String) :=
  index.symbols.map elementKey ++
    index.symbols.flatMap fun symbol =>
      (possibleLinks index symbol).flatMap fun link => link.keys (totalWeight index.symbols)

/-- Ids of which no two are equal, and none is one that may be minted. -/
structure Ids.Apart (index : Index) (ids : Ids) : Prop where
  distinct : ∀ one other first second, ids one = some first → ids other = some second →
    (first == second) = true → one = other
  unminted : ∀ place id, ids place = some id → ∀ key ∈ exportKeys index,
    (id == .text (Document.mintId key.1 key.2)) = false

/-- What is issued an id for its place: the id there, or one that is minted from its key. -/
def Ids.Issues (ids : Ids) (place : IdPlace) (key : String × String) (id : Key) : Prop :=
  ids place = some id ∨ id = .text (Document.mintId key.1 key.2)

section Issuing

variable {index : Index} {ids : Ids}

theorem Ids.apart_nothing (index : Index) : Ids.Apart index fun _ => none :=
  ⟨fun _ _ _ _ none_ => (by cases none_), fun _ _ none_ => (by cases none_)⟩

theorem elementKey_exported {symbol : Symbol} (known : symbol ∈ index.symbols) :
    elementKey symbol ∈ exportKeys index :=
  List.mem_append_left _ (List.mem_map_of_mem known)

theorem linkKeys_exported {symbol : Symbol} (known : symbol ∈ index.symbols) {link : Link}
    (possible : link ∈ possibleLinks index symbol) :
    link.keys (totalWeight index.symbols) ⊆ exportKeys index :=
  fun _ listed => List.mem_append_right _
    (List.mem_flatMap_of_mem known (List.mem_flatMap_of_mem possible listed))

variable (mints : MintsApart (exportKeys index)) (apart : ids.Apart index)

include mints apart

/-- Equal ids are issued for one place or are minted from one key. -/
theorem Ids.Apart.issued {place other : IdPlace} {key again : String × String} {first second : Key}
    (listed : key ∈ exportKeys index) (listedToo : again ∈ exportKeys index)
    (one : ids.Issues place key first) (two : ids.Issues other again second)
    (same : (first == second) = true) : place = other ∨ key = again := by
  rcases one with held | rfl <;> rcases two with heldToo | rfl
  · exact .inl (apart.distinct place other first second held heldToo same)
  · rw [apart.unminted place first held again listedToo] at same
    cases same
  · rw [BEq.comm, apart.unminted other second heldToo key listed] at same
    cases same
  · rw [Key.text_beq, beq_iff_eq] at same
    exact .inr (mints key listed again listedToo same)

/-- A relationship is issued no id of an element. -/
theorem Ids.Apart.no_element {place : IdPlace} (linked : ∀ serial, place ≠ .element serial)
    {key : String × String} (listed : key ∈ exportKeys index)
    (kind : Record.isRelationshipKind key.1 = true) {symbol : Symbol}
    (known : symbol ∈ index.symbols) {first second : Key} (one : ids.Issues place key first)
    (two : ids.Issues (.element symbol.serial) (elementKey symbol) second) :
    (first == second) = false := by
  rw [Bool.eq_false_iff]
  intro same
  rcases apart.issued mints listed (elementKey_exported known) one two same with isPlace | isKey
  · exact linked symbol.serial isPlace
  · rw [isKey, elementKey, SymbolKind.metaclass_no_relationship] at kind
    cases kind

/-- Symbols that are issued equal ids are pieces of one package. -/
theorem Ids.Apart.canonical (written : index.Written)
    (serials : (index.symbols.map (·.serial)).Nodup) (share : index.PackagesShare)
    {one other : Symbol} (known : one ∈ index.symbols) (knownToo : other ∈ index.symbols)
    {first second : Key}
    (isFirst : ids.Issues (.element (Draft.canonical index one).serial)
      (elementKey (Draft.canonical index one)) first)
    (isSecond : ids.Issues (.element (Draft.canonical index other).serial)
      (elementKey (Draft.canonical index other)) second)
    (same : (first == second) = true) :
    Draft.canonical index one = Draft.canonical index other := by
  have inside := canonical_mem known
  have insideToo := canonical_mem knownToo
  rcases apart.issued mints (elementKey_exported inside) (elementKey_exported insideToo) isFirst
    isSecond same with isPlace | isKey
  · exact List.inj_on_of_nodup_map serials inside insideToo (IdPlace.element.inj isPlace)
  · exact canonical_of_name written share known knownToo
      (name_of_elementKey written known knownToo isKey)

end Issuing

/-! ## Ids one for one -/

/-- Pairs of ids in which none is paired with two others. -/
structure OneForOne (pairs : List (Key × Key)) : Prop where
  left : ∀ pair ∈ pairs, ∀ other ∈ pairs, (pair.1 == other.1) = true → pair = other
  right : ∀ pair ∈ pairs, ∀ other ∈ pairs, (pair.2 == other.2) = true → pair = other

namespace OneForOne

variable {pairs : List (Key × Key)} (oneForOne : OneForOne pairs)

include oneForOne

theorem beq_eq {pair other : Key × Key} (listed : pair ∈ pairs) (listedToo : other ∈ pairs) :
    (pair.2 == other.2) = (pair.1 == other.1) := by
  rw [Bool.eq_iff_iff]
  constructor
  · intro same
    rw [oneForOne.right pair listed other listedToo same]
    exact BEq.rfl
  · intro same
    rw [oneForOne.left pair listed other listedToo same]
    exact BEq.rfl

/-- Two ids that are not paired yet may be. -/
theorem snoc {one other : Key} (fresh : ∀ pair ∈ pairs, (pair.1 == one) = false)
    (freshToo : ∀ pair ∈ pairs, (pair.2 == other) = false) :
    OneForOne (pairs ++ [(one, other)]) := by
  constructor
  · intro pair listed again listedToo same
    rcases List.mem_append.mp listed with old | new <;>
      rcases List.mem_append.mp listedToo with oldToo | newToo
    · exact oneForOne.left pair old again oldToo same
    · rw [List.mem_singleton.mp newToo, fresh pair old] at same
      cases same
    · rw [List.mem_singleton.mp new, BEq.comm, fresh again oldToo] at same
      cases same
    · rw [List.mem_singleton.mp new, List.mem_singleton.mp newToo]
  · intro pair listed again listedToo same
    rcases List.mem_append.mp listed with old | new <;>
      rcases List.mem_append.mp listedToo with oldToo | newToo
    · exact oneForOne.right pair old again oldToo same
    · rw [List.mem_singleton.mp newToo, freshToo pair old] at same
      cases same
    · rw [List.mem_singleton.mp new, BEq.comm, freshToo again oldToo] at same
      cases same
    · rw [List.mem_singleton.mp new, List.mem_singleton.mp newToo]

end OneForOne

/-- Two ids that stand for each other, if there are any. -/
abbrev Paired (pairs : List (Key × Key)) : Option Key → Option Key → Prop :=
  Option.Rel fun one other => (one, other) ∈ pairs

structure Record.Twin (pairs : List (Key × Key)) (record twin : Record) : Prop where
  same : twin = { record with
    id := twin.id, owner := twin.owner, source := twin.source, target := twin.target }
  id : (record.id, twin.id) ∈ pairs
  owner : Paired pairs record.owner twin.owner
  source : Paired pairs record.source twin.source
  target : Paired pairs record.target twin.target

theorem Paired.mono {pairs more : List (Key × Key)} (grows : pairs ⊆ more) {one other : Option Key}
    (paired : Paired pairs one other) : Paired more one other := by
  cases paired with
  | none => exact .none
  | some listed => exact .some (grows listed)

theorem Record.Twin.mono {pairs more : List (Key × Key)} (grows : pairs ⊆ more)
    {record twin : Record} (isTwin : record.Twin pairs twin) : record.Twin more twin :=
  ⟨isTwin.same, grows isTwin.id, isTwin.owner.mono grows, isTwin.source.mono grows,
    isTwin.target.mono grows⟩

/-- An id is a record's where the id that stands for it is one of a twin. -/
theorem any_twins {pairs : List (Key × Key)} (oneForOne : OneForOne pairs) {id again : Key}
    (paired : (id, again) ∈ pairs) {records twins : List Record}
    (related : List.Forall₂ (Record.Twin pairs) records twins) :
    (twins.any fun twin => twin.id == again) = records.any fun record => record.id == id := by
  induction related with
  | nil => rfl
  | @cons record twin rest more first _ ih =>
    have same : (twin.id == again) = (record.id == id) := oneForOne.beq_eq first.id paired
    rw [List.any_cons, List.any_cons, same, ih]

def ListedAlike (pairs : List (Key × Key)) (entry again : Key × Key) : Prop :=
  (entry.1, again.1) ∈ pairs ∧ again.2 = entry.2

section Entries

variable {pairs : List (Key × Key)} (oneForOne : OneForOne pairs) {one other : Key}
  (paired : (one, other) ∈ pairs) {entries again : List (Key × Key)}
  (alike : List.Forall₂ (ListedAlike pairs) entries again)

include oneForOne paired alike

theorem listedAlike_put (name : Key) :
    List.Forall₂ (ListedAlike pairs) (Entries.put one name entries)
      (Entries.put other name again) := by
  induction alike with
  | nil => exact .cons ⟨paired, rfl⟩ .nil
  | @cons entry twin rest more first others ih =>
    have same : (twin.1 == other) = (entry.1 == one) := oneForOne.beq_eq first.1 paired
    rw [Entries.put, Entries.put, same]
    split
    · exact .cons ⟨first.1, rfl⟩ others
    · exact .cons first ih

theorem listedAlike_erase :
    List.Forall₂ (ListedAlike pairs) (Entries.erase one entries) (Entries.erase other again) := by
  induction alike with
  | nil => exact .nil
  | @cons entry twin rest more first others ih =>
    have same : (twin.1 == other) = (entry.1 == one) := oneForOne.beq_eq first.1 paired
    unfold Entries.erase at ih ⊢
    rw [List.filter_cons, List.filter_cons, same]
    split
    · exact .cons first ih
    · exact ih

end Entries

/-! ## Symbols under other ids -/

/-- An index over symbols as texts give them, and one over the same symbols with ids in places. -/
structure Pinned (ids : Ids) (index other : Index) : Prop where
  recast : Recast (Symbol.withIds ids) index other
  written : index.Written
  within : index.IdsWithin
  serials : (index.symbols.map (·.serial)).Nodup
  share : index.PackagesShare
  mints : MintsApart (exportKeys index)
  usable : ∀ place id, ids place = some id → id.isAbsent = false ∧ id.isProper = true
  apart : ids.Apart index

/-- The ids of the symbols without and with ids in places. -/
def elementPairs (ids : Ids) (index other : Index) : List (Key × Key) :=
  index.symbols.map fun symbol => (Draft.idOf index symbol, Draft.idOf other (symbol.withIds ids))

namespace Pinned

variable {ids : Ids} {index other : Index} (pinned : Pinned ids index other)

include pinned

theorem given (place : IdPlace) : Key.given? (ids place) = ids place := by
  cases held : ids place with
  | none => rfl
  | some id =>
    have present := (pinned.usable place id held).1
    rw [Key.given?, Option.filter_some, present]
    rfl

theorem canonical (symbol : Symbol) :
    Draft.canonical other (symbol.withIds ids) = (Draft.canonical index symbol).withIds ids := by
  have looked : other.lookup (symbol.withIds ids).qualifiedName =
      (index.lookup symbol.qualifiedName).map (Symbol.withIds ids) := pinned.recast.lookup _
  unfold Draft.canonical
  rw [looked]
  change (if symbol.kind.isPackage then _ else _) = _
  split
  · cases index.lookup symbol.qualifiedName with
    | none => rfl
    | some first =>
      change (if first.kind.isPackage then first.withIds ids else symbol.withIds ids) =
        (if first.kind.isPackage then first else symbol).withIds ids
      split <;> rfl
  · rfl

/-- The id of a symbol is the one in the place of its first piece, or else is minted. -/
theorem idOf (symbol : Symbol) :
    Draft.idOf other (symbol.withIds ids) =
      (ids (.element (Draft.canonical index symbol).serial)).getD
        (.text (Document.mintId (elementKey (Draft.canonical index symbol)).1
          (elementKey (Draft.canonical index symbol)).2)) := by
  have held := pinned.given (.element (Draft.canonical index symbol).serial)
  rw [Draft.idOf, pinned.canonical]
  change (Key.given? (ids (.element (Draft.canonical index symbol).serial))).getD _ = _
  rw [held]
  rfl

theorem issued (symbol : Symbol) :
    ids.Issues (.element (Draft.canonical index symbol).serial)
      (elementKey (Draft.canonical index symbol)) (Draft.idOf other (symbol.withIds ids)) := by
  rw [pinned.idOf]
  cases held : ids (.element (Draft.canonical index symbol).serial) with
  | none => exact .inr rfl
  | some id => exact .inl held

theorem issued_plain {symbol : Symbol} (known : symbol ∈ index.symbols) :
    Ids.Issues (fun _ => none) (.element (Draft.canonical index symbol).serial)
      (elementKey (Draft.canonical index symbol)) (Draft.idOf index symbol) :=
  .inr (pinned.written.idOf known)

omit pinned in
theorem mem_elementPairs {symbol : Symbol} (known : symbol ∈ index.symbols) :
    (Draft.idOf index symbol, Draft.idOf other (symbol.withIds ids)) ∈
      elementPairs ids index other :=
  List.mem_map_of_mem known

/-- The ids of the symbols stand for each other one for one. -/
theorem elements_oneForOne : OneForOne (elementPairs ids index other) := by
  have paired {one two : Symbol}
      (same : Draft.canonical index one = Draft.canonical index two) :
      (Draft.idOf index one, Draft.idOf other (one.withIds ids)) =
        (Draft.idOf index two, Draft.idOf other (two.withIds ids)) := by
    rw [pinned.idOf, pinned.idOf, Draft.idOf, Draft.idOf, same]
  constructor
  · intro pair listed again listedToo same
    obtain ⟨one, known, rfl⟩ := List.mem_map.mp listed
    obtain ⟨two, knownToo, rfl⟩ := List.mem_map.mp listedToo
    exact paired ((Ids.apart_nothing index).canonical pinned.mints pinned.written pinned.serials
      pinned.share known knownToo (pinned.issued_plain known) (pinned.issued_plain knownToo) same)
  · intro pair listed again listedToo same
    obtain ⟨one, known, rfl⟩ := List.mem_map.mp listed
    obtain ⟨two, knownToo, rfl⟩ := List.mem_map.mp listedToo
    exact paired (pinned.apart.canonical pinned.mints pinned.written pinned.serials pinned.share
      known knownToo (pinned.issued one) (pinned.issued two) same)

theorem ownerOf (symbol : Symbol) :
    Draft.ownerOf other (symbol.withIds ids) =
      (Draft.ownerOf index symbol).map (Symbol.withIds ids) := by
  change (Key.given? symbol.owner).bind other.lookup =
    ((Key.given? symbol.owner).bind index.lookup).map _
  cases Key.given? symbol.owner with
  | none => rfl
  | some owner => exact pinned.recast.lookup owner

/-- The record of a symbol, under the ids of its places. -/
theorem elementRecord_twin {symbol : Symbol} (known : symbol ∈ index.symbols)
    (provenance : String) :
    (Draft.elementRecord index provenance symbol).Twin (elementPairs ids index other)
      (Draft.elementRecord other provenance (symbol.withIds ids)) := by
  refine ⟨rfl, mem_elementPairs known, ?_, .none, .none⟩
  change Paired _ ((Draft.ownerOf index symbol).map (Draft.idOf index))
    ((Draft.ownerOf other (symbol.withIds ids)).map (Draft.idOf other))
  rw [pinned.ownerOf]
  cases owned : Draft.ownerOf index symbol with
  | none => exact .none
  | some owner => exact .some (mem_elementPairs (Draft.ownerOf_mem owned))

end Pinned

end Sysml
