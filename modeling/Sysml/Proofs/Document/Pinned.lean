import Sysml.Proofs.Document.Paired

/-!
# Documents under other ids

Ids in the places of symbols, references and imports change nothing in a document but its ids.
Composing goes side by side with and without them, and the ids of the one draft stand for those of
the other one for one (`compose_pinned`).
-/

set_option autoImplicit false

namespace Sysml

open Scope

/-! ## Relationships under other ids -/

/-- A relationship that a text gives, and the same one with what stands in its place as its id. -/
structure Link.Twin (ids : Ids) (index : Index) (link twin : Link) : Prop where
  same : twin = { link with goal := twin.goal, carried := twin.carried }
  goal : ∃ target ∈ index.symbols,
    link.goal = .loaded target ∧ twin.goal = .loaded (target.withIds ids)
  bare : link.carried = none
  place : ∃ place : IdPlace, (∀ serial, place ≠ .element serial) ∧ twin.carried = ids place
  keys : link.keys (totalWeight index.symbols) ⊆ exportKeys index
  kind : Record.isRelationshipKind link.kind = true

namespace Draft

variable {ids : Ids} {index other : Index} {draft twin : Draft} {selfContained : Bool}
  {provenance : String}

/-- The id of a relationship is the one in its place, or else is minted. -/
theorem linkId_issued {link : Link} {place : IdPlace} {id : Key} {most : Nat}
    (few : draft.records.length ≤ most) (carried : link.carried = ids place)
    (given : draft.linkId link = .ok id) : ∃ key ∈ link.keys most, ids.Issues place key id := by
  rcases linkId_names few given with came | ⟨key, listed, minted⟩
  · have listed : (link.kind, numberedKey link.key 1) ∈ link.keys most :=
      List.mem_map.mpr ⟨1, by simp [List.mem_range'_1], rfl⟩
    have held : link.carried = some id := (Option.filter_eq_some_iff.mp came).1
    exact ⟨_, listed, .inl (carried ▸ held)⟩
  · exact ⟨key, listed, .inr minted⟩

theorem kind_of_keys {link : Link} {most : Nat} {key : String × String}
    (listed : key ∈ link.keys most) : key.1 = link.kind := by
  obtain ⟨_, _, rfl⟩ := List.mem_map.mp listed
  rfl

/-! ## Drafts under other ids -/

/-- Two drafts of which one is the other under the ids that the pairs tell. -/
structure TwinBy (ids : Ids) (index other : Index) (pairs : List (Key × Key))
    (draft twin : Draft) : Prop where
  oneForOne : OneForOne pairs
  elements : elementPairs ids index other ⊆ pairs
  held : ∀ pair ∈ pairs, pair ∈ elementPairs ids index other ∨
    draft.holds pair.1 = true ∧ twin.holds pair.2 = true
  records : List.Forall₂ (Record.Twin pairs) draft.records twin.records
  external : List.Forall₂ (ListedAlike pairs) draft.externalRefs twin.externalRefs
  visited : twin.visited = draft.visited
  pending : twin.pending = draft.pending.map (Symbol.withIds ids)
  queued : draft.pending ⊆ index.symbols
  memo : twin.memo = draft.memo.recast (Symbol.withIds ids)
  within : draft.memo.Within index

namespace TwinBy

variable {pairs : List (Key × Key)} (isTwin : TwinBy ids index other pairs draft twin)

include isTwin

theorem holds_eq {id again : Key} (paired : (id, again) ∈ pairs) :
    twin.holds again = draft.holds id :=
  any_twins isTwin.oneForOne paired isTwin.records

theorem paired {symbol : Symbol} (known : symbol ∈ index.symbols) :
    (idOf index symbol, idOf other (symbol.withIds ids)) ∈ pairs :=
  isTwin.elements (Pinned.mem_elementPairs known)

theorem mention {target : Symbol} (known : target ∈ index.symbols) :
    TwinBy ids index other pairs (draft.mention index selfContained target)
      (twin.mention other selfContained (target.withIds ids)) := by
  have paired := isTwin.paired known
  have same : ((target.withIds ids).isLibrary && !twin.holds (idOf other (target.withIds ids))) =
      (target.isLibrary && !draft.holds (idOf index target)) := by
    rw [isTwin.holds_eq paired]
    rfl
  unfold Draft.mention
  rw [same]
  split
  · split
    · refine { isTwin with pending := ?_, queued := ?_ }
      · rw [isTwin.pending, List.map_append]
        rfl
      · have alone : [target] ⊆ index.symbols := List.cons_subset.mpr ⟨known, List.nil_subset _⟩
        exact List.append_subset.mpr ⟨isTwin.queued, alone⟩
    · exact { isTwin with external := listedAlike_put isTwin.oneForOne paired isTwin.external _ }
  · exact isTwin

/-- One more record, under an id that is paired with that of its twin. -/
theorem add {more : List (Key × Key)} (oneForOne : OneForOne more) (grows : pairs ⊆ more)
    {record again : Record}
    (covered : ∀ pair ∈ more, pair ∈ pairs ∨ pair = (record.id, again.id))
    (twins : record.Twin more again) :
    TwinBy ids index other more (draft.add record) (twin.add again) := by
  refine ⟨oneForOne, List.Subset.trans isTwin.elements grows, fun pair listed => ?_, ?_, ?_,
    isTwin.visited, isTwin.pending, isTwin.queued, isTwin.memo, isTwin.within⟩
  · rcases covered pair listed with old | rfl
    · refine (isTwin.held pair old).imp_right fun ⟨held, heldToo⟩ => ?_
      rw [holds_add, holds_add, held, heldToo]
      exact ⟨rfl, rfl⟩
    · rw [holds_add, holds_add, BEq.rfl, BEq.rfl, Bool.or_true, Bool.or_true]
      exact .inr ⟨rfl, rfl⟩
  · have before := isTwin.records.imp fun _ _ twins => twins.mono grows
    exact List.rel_append before (.cons twins .nil)
  · exact isTwin.external.imp fun _ _ listed => ⟨grows listed.1, listed.2⟩

variable (pinned : Pinned ids index other)

include pinned

theorem declare {symbol : Symbol} (known : symbol ∈ index.symbols) :
    TwinBy ids index other pairs (draft.declare index selfContained provenance symbol)
      (twin.declare other selfContained provenance (symbol.withIds ids)) := by
  unfold Draft.declare
  rw [isTwin.holds_eq (isTwin.paired known), pinned.ownerOf]
  split
  · exact isTwin
  · have record := (pinned.elementRecord_twin known provenance).mono isTwin.elements
    have added := isTwin.add isTwin.oneForOne (List.Subset.refl _) (fun _ listed => .inl listed)
      record
    cases owned : ownerOf index symbol with
    | none => exact added
    | some owner => exact added.mention (ownerOf_mem owned)

/-- The same relationship is added under ids that are paired with no others. -/
theorem addLink (few : draft.records.length ≤ totalWeight index.symbols) {link again : Link}
    (twins : link.Twin ids index again) {symbol : Symbol} (known : symbol ∈ index.symbols) :
    ∃ more later laterTwin,
      Draft.addLink index selfContained provenance (idOf index symbol) link draft = .ok later ∧
      Draft.addLink other selfContained provenance (idOf other (symbol.withIds ids)) again twin =
        .ok laterTwin ∧
      TwinBy ids index other more later laterTwin ∧
      later.records.length = draft.records.length + 1 ∧ later.visited = draft.visited := by
  obtain ⟨target, knownTarget, goal, goalToo⟩ := twins.goal
  obtain ⟨place, linked, carried⟩ := twins.place
  have kinds : again.kind = link.kind := by rw [twins.same]
  have keys : again.keys (totalWeight index.symbols) = link.keys (totalWeight index.symbols) := by
    rw [twins.same]
    rfl
  have mentioned : TwinBy ids index other pairs (draft.reach index selfContained link.goal)
      (twin.reach other selfContained again.goal) := by
    rw [goal, goalToo]
    exact isTwin.mention knownTarget
  have room : (draft.reach index selfContained link.goal).records.length ≤
      totalWeight index.symbols := by
    rw [reach_records]
    exact few
  have roomToo : (twin.reach other selfContained again.goal).records.length ≤
      totalWeight index.symbols := by
    rw [← mentioned.records.length_eq]
    exact room
  have apart := pinned.mints.mono twins.keys
  obtain ⟨id, given⟩ := linkId_exists room apart fun id came => by
    rw [twins.bare] at came
    cases came
  obtain ⟨idToo, givenToo⟩ := linkId_exists roomToo (keys ▸ apart) fun id came => by
    rw [carried] at came
    exact (pinned.usable place id (Option.filter_eq_some_iff.mp came).1).2
  obtain ⟨key, listed, issued⟩ :=
    @linkId_issued (fun _ => none) _ _ place _ _ room twins.bare given
  obtain ⟨keyToo, listedToo, issuedToo⟩ := linkId_issued roomToo carried givenToo
  rw [keys] at listedToo
  have kind (key : String × String) (listed : key ∈ link.keys (totalWeight index.symbols)) :
      Record.isRelationshipKind key.1 = true := kind_of_keys listed ▸ twins.kind
  -- neither id is an element's, and neither is that of a record that is there
  have fresh : ∀ pair ∈ pairs, (pair.1 == id) = false ∧ (pair.2 == idToo) = false := by
    intro pair paired
    rcases mentioned.held pair paired with element | ⟨held, heldToo⟩
    · obtain ⟨holder, isHolder, rfl⟩ := List.mem_map.mp element
      have inside := canonical_mem isHolder
      constructor
      · rw [BEq.comm]
        exact (Ids.apart_nothing index).no_element pinned.mints linked (twins.keys listed)
          (kind key listed) inside issued (pinned.issued_plain isHolder)
      · rw [BEq.comm]
        exact pinned.apart.no_element pinned.mints linked (twins.keys listedToo)
          (kind keyToo listedToo) inside issuedToo (pinned.issued holder)
    · constructor
      · rw [Bool.eq_false_iff]
        intro same
        rw [holds_congr same, linkId_fresh given] at held
        cases held
      · rw [Bool.eq_false_iff]
        intro same
        rw [holds_congr same, linkId_fresh givenToo] at heldToo
        cases heldToo
  have grows : pairs ⊆ pairs ++ [(id, idToo)] := List.subset_append_left _ _
  have owner := grows (isTwin.paired known)
  refine ⟨pairs ++ [(id, idToo)], _, _, addLink_of_linkId given, addLink_of_linkId givenToo,
    mentioned.add ?_ grows ?_ ?_, ?_, ?_⟩
  · exact isTwin.oneForOne.snoc (fun pair listed => (fresh pair listed).1) fun pair listed =>
      (fresh pair listed).2
  · intro pair paired
    exact (List.mem_append.mp paired).imp_right List.mem_singleton.mp
  · refine ⟨?_, List.mem_append_right _ (List.mem_singleton_self _), .some owner, .some owner, ?_⟩
    · rw [twins.same]
      rfl
    · rw [Link.record, Link.record, goal, goalToo]
      exact .some (grows (isTwin.paired knownTarget))
  · rw [add_records, List.length_append, reach_records]
    rfl
  · rw [add_visited, reach_visited]

end TwinBy

/-- The symbols that were taken up weigh enough for the records and some more. -/
structure Counted (index : Index) (taken : List Symbol) (room : Nat) (draft : Draft) : Prop where
  seen : ∀ symbol ∈ taken, symbol.serial ∈ draft.visited
  distinct : (taken.map (·.serial)).Nodup
  inside : taken ⊆ index.symbols
  few : draft.records.length + room ≤ totalWeight taken

theorem records_declare_length (symbol : Symbol) (draft : Draft) :
    (draft.declare index selfContained provenance symbol).records.length ≤
      draft.records.length + 1 := by
  unfold declare
  split
  · omega
  · cases ownerOf index symbol with
    | none => simp
    | some owner => simp

/-- A symbol that is taken up makes room for its records. -/
theorem Counted.begun {taken : List Symbol} (counted : Counted index taken 0 draft)
    {symbol : Symbol} (known : symbol ∈ index.symbols) (fresh : symbol.serial ∉ draft.visited) :
    Counted index (taken ++ [symbol]) (symbol.references.length + symbol.imports.length)
      (draft.begun index selfContained provenance symbol) := by
  have visited : (draft.begun index selfContained provenance symbol).visited =
      symbol.serial :: draft.visited := declare_visited ..
  constructor
  · intro other listed
    rw [visited]
    rcases List.mem_append.mp listed with old | new
    · exact List.mem_cons_of_mem _ (counted.seen other old)
    · rw [List.mem_singleton.mp new]
      exact List.mem_cons_self
  · rw [List.map_append]
    refine List.nodup_append.mpr ⟨counted.distinct, List.nodup_singleton _, ?_⟩
    intro serial old other new same
    obtain ⟨before, isTaken, rfl⟩ := List.mem_map.mp old
    have equal : before.serial = symbol.serial := same.trans (List.mem_singleton.mp new)
    exact fresh (equal ▸ counted.seen before isTaken)
  · exact List.append_subset.mpr ⟨counted.inside, List.cons_subset.mpr ⟨known, List.nil_subset _⟩⟩
  · have before := counted.few
    have one : (draft.begun index selfContained provenance symbol).records.length ≤
        draft.records.length + 1 := records_declare_length symbol _
    rw [totalWeight_append, totalWeight_singleton, Symbol.weight]
    omega

/-- Two drafts of which one is the other under other ids, with room for some more records. -/
def Twins (ids : Ids) (index other : Index) (room : Nat) (draft twin : Draft) : Prop :=
  ∃ pairs taken, TwinBy ids index other pairs draft twin ∧ Counted index taken room draft

/-- Steps that go alike on twins, and use up so much room. -/
abbrev GoAlike (ids : Ids) (index other : Index) (before after : Nat)
    (left right : Drafting PUnit) : Prop :=
  Abreast (Twins ids index other before) (fun _ _ => Twins ids index other after) left right

section Composing

variable (pinned : Pinned ids index other) {symbol : Symbol} (known : symbol ∈ index.symbols)
  {room : Nat}

include pinned known

theorem addLink?_abreast {link? again? : Option Link}
    (twins : Option.Rel (Link.Twin ids index) link? again?) :
    GoAlike ids index other (room + 1) room
      (addLink? index selfContained provenance (idOf index symbol) link?)
      (addLink? other selfContained provenance (idOf other (symbol.withIds ids)) again?) := by
  rintro draft twin ⟨pairs, taken, isTwin, counted⟩
  have few := counted.few
  cases twins with
  | none =>
    exact .ok ⟨pairs, taken, isTwin, counted.seen, counted.distinct, counted.inside, by omega⟩
  | some twins =>
    have inAll := totalWeight_le counted.distinct counted.inside
    obtain ⟨more, later, laterTwin, added, addedToo, isTwinToo, length, visited⟩ :=
      isTwin.addLink pinned (by omega) twins known
    rw [addLink?_some, addLink?_some, added, addedToo]
    have seen := visited ▸ counted.seen
    exact .ok ⟨more, taken, isTwinToo, seen, counted.distinct, counted.inside, by omega⟩

omit known in
/-- A search finds the same symbol, and remembers the same. -/
theorem search_abreast {reference again : Reference}
    (alike : RefersAlike (Symbol.withIds ids) index other reference again) (symbol : Symbol) :
    Abreast (Twins ids index other room)
      (fun found again draft twin => (index.Has found ∧ again = found.map (Symbol.withIds ids)) ∧
        Twins ids index other room draft twin)
      (search (resolveReference index reference symbol))
      (search (resolveReference other again (symbol.withIds ids))) := by
  rintro draft twin ⟨pairs, taken, isTwin, counted⟩
  have images := resolveReference_recast pinned.recast alike symbol draft.memo
  have behaves := resolveReference_behaves pinned.within reference symbol
  have has := behaves.answers isTwin.within
  have within := behaves.within isTwin.within
  rw [outcome_search, outcome_search, isTwin.memo, images]
  rcases ran : outcome (resolveReference index reference symbol) draft.memo with
    ⟨failure | found, memo⟩ <;> rw [ran] at has within
  · exact .error failure _ _
  · have remembered : TwinBy ids index other pairs { draft with memo }
        { twin with memo := memo.recast (Symbol.withIds ids) } :=
      { isTwin with memo := rfl, within := within }
    exact .ok ⟨⟨has found rfl, rfl⟩, pairs, taken, remembered, counted.seen, counted.distinct,
      counted.inside, counted.few⟩

theorem addReference_abreast {reference : Reference} (has : reference ∈ symbol.references)
    (position : Nat) :
    GoAlike ids index other (room + 1) room
      (addReference index selfContained provenance symbol reference)
      (addReference other selfContained provenance (symbol.withIds ids)
        (reference.withId (ids (.reference symbol.serial position)))) := by
  obtain ⟨file, isLibrary, written⟩ := pinned.written symbol known
  have isWritten := written.references reference has
  have alike : RefersAlike (Symbol.withIds ids) index other reference
      (reference.withId (ids (.reference symbol.serial position))) :=
    ⟨rfl, (pinned.recast.bound symbol known).references reference has⟩
  refine (search_abreast pinned alike symbol).bind fun found again => ?_
  rintro draft twin ⟨⟨inside, rfl⟩, twins⟩
  refine addLink?_abreast pinned known ?_ draft twin twins
  cases found with
  | none =>
    have bare : (reference.withId (ids (.reference symbol.serial position))).link?
        (symbol.withIds ids) none = none := by
      simp [Reference.link?, Reference.withId, isWritten.targetId, Key.given?]
    rw [isWritten.link?, Option.map_none, Option.map_none, bare]
    exact .none
  | some target =>
    have knownTarget := inside target rfl
    refine .some ⟨rfl, ⟨target, knownTarget, rfl, rfl⟩, isWritten.elementId,
      ⟨.reference symbol.serial position, by rintro _ ⟨⟩, rfl⟩, linkKeys_exported known ?_, ?_⟩
    · exact List.mem_flatMap_of_mem knownTarget (List.mem_append_left _
        (List.mem_filterMap.mpr ⟨reference, has, rfl⟩))
    · have linked : reference.link? symbol (some target) = some _ := rfl
      exact Reference.link?_kind linked

theorem addImport_abreast {i : Import} (has : i ∈ symbol.imports) (position : Nat) :
    GoAlike ids index other (room + 1) room
      (addImport index selfContained provenance symbol i)
      (addImport other selfContained provenance (symbol.withIds ids)
        (i.withId (ids (.imported symbol.serial position)))) := by
  obtain ⟨file, isLibrary, written⟩ := pinned.written symbol known
  have isWritten := written.imports i has
  have alike : ImportsAlike (Symbol.withIds ids) index other i
      (i.withId (ids (.imported symbol.serial position))) :=
    ⟨rfl, (pinned.recast.bound symbol known).imports i has⟩
  have resolved := pinned.recast.resolveImport alike (some symbol.qualifiedName)
  have named : Abreast (Twins ids index other (room + 1))
      (fun found again draft twin => (index.Has found ∧ again = found.map (Symbol.withIds ids)) ∧
        Twins ids index other (room + 1) draft twin)
      (liftM (resolveImport index i (some symbol.qualifiedName)))
      (liftM (resolveImport other (i.withId (ids (.imported symbol.serial position)))
        (some symbol.qualifiedName))) := by
    apply Abreast.liftM
    · intro failure failed
      rw [resolved, failed]
      rfl
    · intro found answered
      refine ⟨found.map (Symbol.withIds ids), ?_, resolveImport_within pinned.within answered, rfl⟩
      rw [resolved, answered]
      rfl
  refine named.bind fun found again => ?_
  rintro draft twin ⟨⟨inside, rfl⟩, twins⟩
  have linked : Abreast (Twins ids index other (room + 1))
      (fun link? again? draft twin => Option.Rel (Link.Twin ids index) link? again? ∧
        Twins ids index other (room + 1) draft twin)
      (liftM (i.link? symbol found))
      (liftM ((i.withId (ids (.imported symbol.serial position))).link? (symbol.withIds ids)
        (found.map (Symbol.withIds ids)))) := by
    rw [isWritten.link?]
    apply Abreast.liftM
    · nofun
    · rintro link? ⟨⟩
      cases found with
      | none =>
        have bare : (i.withId (ids (.imported symbol.serial position))).link?
            (symbol.withIds ids) none = .ok none := by
          simp [Import.link?, Import.withId, isWritten.targetId, Key.given?]
        exact ⟨none, bare, .none⟩
      | some target =>
        have knownTarget := inside target rfl
        have possible : i.link? symbol (some target) = .ok (some _) := isWritten.link? (some target)
        refine ⟨_, rfl, .some ⟨rfl, ⟨target, knownTarget, rfl, rfl⟩, rfl,
          ⟨.imported symbol.serial position, by rintro _ ⟨⟩, rfl⟩, linkKeys_exported known ?_, ?_⟩⟩
        · refine List.mem_flatMap_of_mem knownTarget (List.mem_append_right _
            (List.mem_filterMap.mpr ⟨i, has, ?_⟩))
          rw [possible]
          rfl
        · exact Import.link?_kind possible
  refine (linked.bind fun link? again? draft twin twinned => ?_) draft twin twins
  exact addLink?_abreast pinned known twinned.1 draft twin twinned.2

/-- A symbol is taken up alike: each of its references and imports has a place of its own. -/
theorem takeUp_abreast :
    GoAlike ids index other 0 0 (takeUp index selfContained provenance symbol)
      (takeUp other selfContained provenance (symbol.withIds ids)) := by
  have references : List.Forall₂
      (fun reference again => ∃ position,
        again = reference.withId (ids (.reference symbol.serial position)))
      symbol.references (symbol.withIds ids).references := by
    refine List.forall₂_iff_get.mpr ⟨by simp [Symbol.withIds], fun position _ _ => ⟨position, ?_⟩⟩
    simp [Symbol.withIds]
  have imports : List.Forall₂
      (fun i again => ∃ position, again = i.withId (ids (.imported symbol.serial position)))
      symbol.imports (symbol.withIds ids).imports := by
    refine List.forall₂_iff_get.mpr ⟨by simp [Symbol.withIds], fun position _ _ => ⟨position, ?_⟩⟩
    simp [Symbol.withIds]
  have first : GoAlike ids index other (symbol.references.length + symbol.imports.length)
      symbol.imports.length
      (symbol.references.forM (addReference index selfContained provenance symbol))
      ((symbol.withIds ids).references.forM
        (addReference other selfContained provenance (symbol.withIds ids))) := by
    refine Abreast.forM references (fun reference has again alike room => ?_) _
    obtain ⟨position, rfl⟩ := alike
    exact addReference_abreast pinned known has position
  have second : GoAlike ids index other symbol.imports.length 0
      (symbol.imports.forM (addImport index selfContained provenance symbol))
      ((symbol.withIds ids).imports.forM
        (addImport other selfContained provenance (symbol.withIds ids))) := by
    refine Abreast.forM imports (fun i has again alike room => ?_) 0
    obtain ⟨position, rfl⟩ := alike
    exact addImport_abreast pinned known has position
  rintro draft twin ⟨pairs, taken, isTwin, counted⟩
  rw [takeUp_outcome, takeUp_outcome, isTwin.visited]
  change EndAlike _ (if draft.visited.contains symbol.serial then _ else _)
    (if draft.visited.contains symbol.serial then _ else _)
  split
  · exact .ok ⟨pairs, taken, isTwin, counted⟩
  · next unseen =>
    have fresh : symbol.serial ∉ draft.visited := by simpa using unseen
    have visited : TwinBy ids index other pairs
        { draft with visited := symbol.serial :: draft.visited }
        { twin with visited := symbol.serial :: twin.visited } :=
      { isTwin with visited := congrArg (symbol.serial :: ·) isTwin.visited }
    exact (first.bind fun _ _ => second) _ _
      ⟨pairs, _, visited.declare pinned known, counted.begun known fresh⟩

omit known in
theorem drain_abreast (fuel : Nat) :
    GoAlike ids index other 0 0 (drain index selfContained fuel)
      (drain other selfContained fuel) := by
  induction fuel with
  | zero =>
    rintro draft twin ⟨pairs, taken, isTwin, counted⟩
    unfold drain
    rw [outcome_bind_of_ok (outcome_get draft), outcome_bind_of_ok (outcome_get twin),
      isTwin.pending, List.isEmpty_map]
    split
    · exact .error .unbounded _ _
    · exact .ok ⟨pairs, taken, isTwin, counted⟩
  | succ fuel ih =>
    rintro draft twin ⟨pairs, taken, isTwin, counted⟩
    unfold drain
    rw [outcome_bind_of_ok (outcome_get draft), outcome_bind_of_ok (outcome_get twin),
      isTwin.pending]
    cases queue : draft.pending with
    | nil => exact .ok ⟨pairs, taken, isTwin, counted⟩
    | cons symbol rest =>
      obtain ⟨known, others⟩ := List.cons_subset.mp (queue ▸ isTwin.queued)
      have erased := listedAlike_erase isTwin.oneForOne (isTwin.paired known) isTwin.external
      have popped : TwinBy ids index other pairs
          { draft with
            pending := rest
            externalRefs := Entries.erase (idOf index symbol) draft.externalRefs }
          { twin with
            pending := rest.map (Symbol.withIds ids)
            externalRefs := Entries.erase (idOf other (symbol.withIds ids)) twin.externalRefs } :=
        { isTwin with pending := rfl, queued := others, external := erased }
      have start : Twins ids index other 0 _ _ := ⟨pairs, taken, popped,
        counted.seen, counted.distinct, counted.inside, counted.few⟩
      rw [List.map_cons]
      dsimp only
      rw [outcome_bind_of_ok (outcome_modify ..), outcome_bind_of_ok (outcome_modify ..)]
      exact ((takeUp_abreast pinned known).bind fun _ _ => ih) _ _ start

omit known in
/-- Documents are composed alike: with ids in places the draft has other ids one for one. -/
theorem compose_pinned {symbols : List Symbol} (inside : symbols ⊆ index.symbols) {memo : Memo}
    (within : memo.Within index) :
    EndAlike (fun _ _ => Twins ids index other 0)
      (outcome (compose index selfContained symbols) { memo })
      (outcome (compose other selfContained (symbols.map (Symbol.withIds ids)))
        { memo := memo.recast (Symbol.withIds ids) }) := by
  have related : List.Forall₂ (fun symbol again => symbol ∈ index.symbols ∧
      again = symbol.withIds ids) symbols (symbols.map (Symbol.withIds ids)) :=
    List.forall₂_map_right_iff.mpr (List.forall₂_same.mpr fun symbol listed =>
      ⟨inside listed, rfl⟩)
  have start : Twins ids index other 0 { memo } { memo := memo.recast (Symbol.withIds ids) } := by
    refine ⟨elementPairs ids index other, [], ⟨pinned.elements_oneForOne, List.Subset.refl _,
      fun _ listed => .inl listed, .nil, .nil, rfl, rfl, List.nil_subset _, rfl, within⟩, ?_⟩
    exact ⟨fun _ listed => (by cases listed), List.nodup_nil, List.nil_subset _, Nat.le_refl _⟩
  have taken : GoAlike ids index other 0 0
      (symbols.forM (takeUp index selfContained Record.modelProvenance))
      ((symbols.map (Symbol.withIds ids)).forM
        (takeUp other selfContained Record.modelProvenance)) := by
    refine @Abreast.forM _ _ _ _ _ (fun _ => Twins ids index other 0) _ _ _ _ related
      (fun symbol _ again alike _ => ?_) 0
    obtain ⟨known, rfl⟩ := alike
    exact takeUp_abreast pinned known
  have drained : GoAlike ids index other 0 0
      (do drain index selfContained (drainFuel index (← get)))
      (do drain other selfContained (drainFuel other (← get))) := by
    rintro draft twin ⟨pairs, taken, isTwin, counted⟩
    have fuel : drainFuel other twin = drainFuel index draft := by
      unfold drainFuel
      rw [isTwin.pending, pinned.recast.symbols, List.foldl_map, List.length_map]
      simp [Symbol.withIds]
    rw [outcome_bind_of_ok (outcome_get draft), outcome_bind_of_ok (outcome_get twin), fuel]
    exact drain_abreast pinned _ draft twin ⟨pairs, taken, isTwin, counted⟩
  exact (taken.bind fun _ _ => drained) _ _ start

end Composing

end Draft

/-! ## Documents with ids replaced -/

def Record.renamed (rename : Key → Key) (record : Record) : Record :=
  { record with
    id := rename record.id
    owner := record.owner.map rename
    source := record.source.map rename
    target := record.target.map rename }

/-- The ids in a record: its own, and those that it refers to. -/
def Record.ids (record : Record) : List Key :=
  record.id :: (record.owner.toList ++ record.source.toList ++ record.target.toList)

/-- A document with its ids replaced; all else is as it was. -/
def Document.renamed (rename : Key → Key) (document : Document) : Document :=
  { document with
    records := document.records.map (Record.renamed rename)
    externalRefs := document.externalRefs.map fun entry => (rename entry.1, entry.2) }

def Document.allIds (document : Document) : List Key :=
  document.records.flatMap Record.ids ++ document.externalRefs.map (·.1)

/-- Ids of a document are replaced one for one. -/
def Document.Renames (rename : Key → Key) (document : Document) : Prop :=
  ∀ one ∈ document.allIds, ∀ other ∈ document.allIds,
    (rename one == rename other) = (one == other)

def twinOf (pairs : List (Key × Key)) (id : Key) : Key :=
  ((pairs.find? fun pair => pair.1 == id).map (·.2)).getD id

namespace OneForOne

variable {pairs : List (Key × Key)} (oneForOne : OneForOne pairs)

include oneForOne

theorem twinOf_eq {one other : Key} (paired : (one, other) ∈ pairs) :
    twinOf pairs one = other := by
  have some_ : (pairs.find? fun pair => pair.1 == one).isSome = true :=
    List.find?_isSome.mpr ⟨_, paired, BEq.rfl⟩
  obtain ⟨found, looked⟩ := Option.isSome_iff_exists.mp some_
  have same := oneForOne.left found (List.mem_of_find?_eq_some looked) _ paired
    (by simpa using List.find?_some looked)
  rw [twinOf, looked, same]
  rfl

theorem twinOf_paired {one other : Option Key} (paired : Paired pairs one other) :
    other = one.map (twinOf pairs) := by
  cases paired with
  | none => rfl
  | some listed => rw [Option.map_some, oneForOne.twinOf_eq listed]

/-- A twin is the record with its ids replaced. -/
theorem renamed_of_twin {record twin : Record} (isTwin : record.Twin pairs twin) :
    twin = record.renamed (twinOf pairs) := by
  rw [isTwin.same, Record.renamed, oneForOne.twinOf_eq isTwin.id,
    ← oneForOne.twinOf_paired isTwin.owner, ← oneForOne.twinOf_paired isTwin.source,
    ← oneForOne.twinOf_paired isTwin.target]

end OneForOne

namespace Draft.TwinBy

variable {ids : Ids} {index other : Index} {pairs : List (Key × Key)} {draft twin : Draft}
  (isTwin : TwinBy ids index other pairs draft twin)

include isTwin

/-- The records of a twin are those of the draft with ids replaced. -/
theorem renamed_records : twin.records = draft.records.map (Record.renamed (twinOf pairs)) := by
  have same : draft.records.map (Record.renamed (twinOf pairs)) = twin.records.map id :=
    related_map isTwin.records fun _ _ _ _ twins => (isTwin.oneForOne.renamed_of_twin twins).symm
  rw [same, List.map_id]

theorem renamed_external :
    twin.externalRefs = draft.externalRefs.map fun entry => (twinOf pairs entry.1, entry.2) := by
  have same : draft.externalRefs.map (fun entry => (twinOf pairs entry.1, entry.2)) =
      twin.externalRefs.map id := by
    refine related_map isTwin.external fun entry _ again _ alike => ?_
    rw [isTwin.oneForOne.twinOf_eq alike.1, ← alike.2]
    rfl
  rw [same, List.map_id]

/-- Each id in a draft is paired with another. -/
theorem paired_ids {id : Key}
    (listed : id ∈ draft.records.flatMap Record.ids ++ draft.externalRefs.map (·.1)) :
    ∃ again, (id, again) ∈ pairs := by
  rcases List.mem_append.mp listed with inRecord | inExternal
  · obtain ⟨record, member, inside⟩ := List.mem_flatMap.mp inRecord
    obtain ⟨again, _, twins⟩ := exists_related_right isTwin.records member
    have ends {end_ : Option Key} {endToo : Option Key} (paired : Paired pairs end_ endToo)
        (isEnd : id ∈ end_.toList) : ∃ again, (id, again) ∈ pairs := by
      cases paired with
      | none => cases isEnd
      | some listed => exact ⟨_, List.mem_singleton.mp isEnd ▸ listed⟩
    rcases List.mem_cons.mp inside with rfl | isEnd
    · exact ⟨again.id, twins.id⟩
    · rcases List.mem_append.mp isEnd with isEnd | isTarget
      · rcases List.mem_append.mp isEnd with isOwner | isSource
        · exact ends twins.owner isOwner
        · exact ends twins.source isSource
      · exact ends twins.target isTarget
  · obtain ⟨entry, member, rfl⟩ := List.mem_map.mp inExternal
    obtain ⟨again, _, alike⟩ := exists_related_right isTwin.external member
    exact ⟨again.1, alike.1⟩

end Draft.TwinBy

end Sysml
