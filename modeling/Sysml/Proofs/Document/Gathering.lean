import Sysml.Proofs.Document.Closed
import Sysml.Proofs.Document.Portable

/-!
# Gathering what a document needs

While symbols read from texts are taken up, a set of ids that has the model's own and
is closed has all that was taken up and all that is queued. So in the end nothing is
there that is not needed (`compose_gathers`).
-/

set_option autoImplicit false

namespace Sysml

open Scope

/-! ## What every closed set of ids has -/

theorem Closed.mono {records more : List Record} {needed : Key → Prop}
    (closed : Closed more needed) (part : records ⊆ more) : Closed records needed :=
  ⟨fun record member => closed.owners record (part member),
    fun record member => closed.targets record (part member)⟩

namespace Scope.Index

/-- The id is in every set of ids that has those of the model's own symbols and is closed. -/
def Requires (index : Index) (records : List Record) (id : Key) : Prop :=
  ∀ needed : Key → Prop, Closed records needed →
    (∀ symbol ∈ index.symbols, symbol.isLibrary = false → needed (Draft.idOf index symbol)) →
      needed id

namespace Requires

variable {index : Index} {records more : List Record} {record : Record} {id other : Key}

theorem own {symbol : Symbol} (known : symbol ∈ index.symbols) (user : symbol.isLibrary = false) :
    index.Requires records (Draft.idOf index symbol) :=
  fun _ _ all => all symbol known user

theorem mono (required : index.Requires records id) (part : records ⊆ more) :
    index.Requires more id :=
  fun needed closed => required needed (closed.mono part)

theorem owner (member : record ∈ records) (element : record.isRelationship = false)
    (owned : record.owner = some id) (required : index.Requires records record.id) :
    index.Requires records id :=
  fun needed closed all =>
    closed.owners record member element (required needed closed all) id owned

theorem target (member : record ∈ records) (source : record.source = some id)
    (target : record.target = some other) (required : index.Requires records id) :
    index.Requires records other :=
  fun needed closed all =>
    closed.targets record member id other source target (required needed closed all)

end Requires

end Scope.Index

/-- Where all is answered from what is remembered of the index, relationships lead to
symbols of the index. -/
theorem Answered.goal_within {index : Index} {memo : Memo} {symbol : Symbol} {link : Link}
    {target : Symbol} (within : index.IdsWithin) (answered : Answered index memo symbol)
    (inside : memo.Within index) (linked : link ∈ links index memo symbol)
    (goal : link.goal = .loaded target) : target ∈ index.symbols := by
  rcases mem_links linked with ⟨reference, has, made⟩ | ⟨i, has, made⟩
  · have behaves := resolveReference_behaves within reference symbol
    have found := behaves.answers inside _ (by rw [answered.references reference has])
    cases meant : meaning index memo symbol reference with
    | some general =>
      rw [meant] at made found
      cases made
      cases goal
      exact found _ rfl
    | none =>
      rw [meant] at made
      obtain ⟨_, _, rfl⟩ := Option.map_eq_some_iff.mp made
      cases goal
  · have resolved := answered.imports i has
    unfold Import.link? at made
    cases named : naming index (some symbol.qualifiedName) i with
    | some found =>
      rw [named] at made resolved
      cases made
      cases goal
      exact resolveImport_within within resolved _ rfl
    | none =>
      rw [named] at made
      dsimp only at made
      split at made
      · cases made
      · obtain ⟨_, _, same⟩ := result_map_ok made
        cases same
        cases goal

namespace Draft

variable {index : Index} {selfContained : Bool} {provenance : String} {owner : Key}
  {symbol : Symbol} {draft later : Draft} {memo : Memo} {taken : List Symbol}

section Queue

theorem mem_mention_pending {target queued : Symbol}
    (member : queued ∈ (draft.mention index selfContained target).pending) :
    queued ∈ draft.pending ∨ queued = target ∧ target.isLibrary = true := by
  unfold mention at member
  split at member
  · next library =>
    split at member
    · rcases List.mem_append.mp member with old | new
      · exact .inl old
      · exact .inr ⟨List.mem_singleton.mp new, (Bool.and_eq_true_iff.mp library).1⟩
    · exact .inl member
  · exact .inl member

/-- Nothing is listed outside of a document that library elements become part of, or where
there is no library. -/
theorem mention_external {target : Symbol}
    (plain : selfContained = true ∨ target.isLibrary = false) (draft : Draft) :
    (draft.mention index selfContained target).externalRefs = draft.externalRefs := by
  unfold mention
  rcases plain with rfl | own
  · split <;> rfl
  · rw [own]
    rfl

theorem mem_addLinks_pending {links : List Link} {queued : Symbol}
    (loaded : ∀ link ∈ links, ∃ target, link.goal = .loaded target)
    (added : addLinks index selfContained provenance owner links draft = .ok later)
    (member : queued ∈ later.pending) :
    queued ∈ draft.pending ∨
      queued.isLibrary = true ∧ ∃ link ∈ links, link.goal = .loaded queued := by
  induction links generalizing draft with
  | nil =>
    cases added
    exact .inl member
  | cons link rest ih =>
    obtain ⟨middle, first, others⟩ := addLinks_cons_ok added
    obtain ⟨id, _, rfl⟩ := addLink_ok first
    obtain ⟨target, goal⟩ := loaded link List.mem_cons_self
    rcases ih (fun other inside => loaded other (List.mem_cons_of_mem _ inside)) others with
      before | ⟨library, other, inside, same⟩
    · rw [goal] at before
      rcases mem_mention_pending before with old | ⟨rfl, library⟩
      · exact .inl old
      · exact .inr ⟨library, link, List.mem_cons_self, goal⟩
    · exact .inr ⟨library, other, List.mem_cons_of_mem _ inside, same⟩

theorem addLinks_external {links : List Link}
    (loaded : ∀ link ∈ links, ∃ target, link.goal = .loaded target ∧
      (selfContained = true ∨ target.isLibrary = false))
    (added : addLinks index selfContained provenance owner links draft = .ok later) :
    later.externalRefs = draft.externalRefs := by
  induction links generalizing draft with
  | nil =>
    cases added
    rfl
  | cons link rest ih =>
    obtain ⟨middle, first, others⟩ := addLinks_cons_ok added
    obtain ⟨id, _, rfl⟩ := addLink_ok first
    obtain ⟨target, goal, plain⟩ := loaded link List.mem_cons_self
    refine (ih (fun other inside => loaded other (List.mem_cons_of_mem _ inside)) others).trans ?_
    rw [goal]
    exact mention_external plain draft

theorem mem_declare_pending {queued : Symbol}
    (member : queued ∈ (draft.declare index selfContained symbol.provenance symbol).pending) :
    queued ∈ draft.pending ∨
      queued.isLibrary = true ∧ ownerOf index symbol = some queued ∧
        elementRecord index symbol.provenance symbol ∈ declared index draft.records symbol := by
  unfold declare at member
  unfold declared
  cases held : draft.holds (idOf index symbol) with
  | true =>
    rw [held] at member
    exact .inl member
  | false =>
    rw [held] at member
    unfold holds at held
    rw [held]
    simp only [Bool.false_eq_true, ↓reduceIte] at member ⊢
    cases owned : ownerOf index symbol with
    | none =>
      rw [owned] at member
      exact .inl member
    | some owner =>
      rw [owned] at member
      rcases mem_mention_pending member with old | ⟨rfl, library⟩
      · exact .inl old
      · exact .inr ⟨library, rfl, List.mem_singleton.mpr rfl⟩

theorem declare_external
    (plain : selfContained = true ∨ ∀ symbol ∈ index.symbols, symbol.isLibrary = false)
    (symbol : Symbol) (draft : Draft) :
    (draft.declare index selfContained provenance symbol).externalRefs = draft.externalRefs := by
  unfold declare
  split
  · rfl
  · cases owned : ownerOf index symbol with
    | none => rfl
    | some owner => exact mention_external (plain.imp_right fun own => own _ (ownerOf_mem owned)) _

end Queue

/-- Symbols that were taken up weigh no more than all symbols. -/
theorem totalWeight_le {symbols : List Symbol} (distinct : (taken.map (·.serial)).Nodup)
    (inside : taken ⊆ symbols) : totalWeight taken ≤ totalWeight symbols := by
  obtain ⟨part, same, listed⟩ := (List.Nodup.of_map _ distinct).subperm inside
  have weights := same.map Symbol.weight
  unfold totalWeight
  rw [← weights.sum_nat]
  exact (listed.map Symbol.weight).sum_le_sum fun _ _ => Nat.zero_le _

section TakingUp

variable {start : Draft}
  (started : start = (draft.begun index selfContained symbol.provenance symbol).withMemo start.memo)
  (added : addLinks index selfContained symbol.provenance (idOf index symbol)
    (links index memo symbol) start = .ok later)

include started added

/-- The record of the symbol is there, if it is new, and then those of its relationships. -/
theorem takenUp_records : ∃ made, later.records =
      draft.records ++ declared index draft.records symbol ++ made ∧
    ∀ link ∈ links index memo symbol,
      ∃ id, link.record index symbol.provenance (idOf index symbol) id ∈ made := by
  obtain ⟨made, whole, related⟩ := addLinks_records (Nat.le_refl _) added
  have begun : start.records = draft.records ++ declared index draft.records symbol :=
    (congrArg Draft.records started).trans (declare_records index selfContained symbol _)
  refine ⟨made, by rw [whole, begun], fun link linked => ?_⟩
  obtain ⟨_, isNew, id, _, rfl⟩ := exists_related_right related linked
  exact ⟨id, isNew⟩

variable (goals : ∀ link ∈ links index memo symbol, ∃ target, link.goal = .loaded target ∧
  target ∈ index.symbols)

include goals

/-- What is queued was queued before, or it is the owner of the symbol or a target. -/
theorem mem_takenUp_pending {queued : Symbol} (member : queued ∈ later.pending) :
    queued ∈ draft.pending ∨ queued.isLibrary = true ∧
      ((ownerOf index symbol = some queued ∧
        elementRecord index symbol.provenance symbol ∈ declared index draft.records symbol) ∨
      ∃ link ∈ links index memo symbol, link.goal = .loaded queued) := by
  rcases mem_addLinks_pending
    (fun link linked => (goals link linked).imp fun _ goal => goal.1) added member with
    before | ⟨library, link, linked, goal⟩
  · rw [congrArg Draft.pending started] at before
    rcases mem_declare_pending before with old | ⟨library, owned, isNew⟩
    · exact .inl old
    · exact .inr ⟨library, .inl ⟨owned, isNew⟩⟩
  · exact .inr ⟨library, .inr ⟨link, linked, goal⟩⟩

theorem takenUp_queued
    (earlier : ∀ queued ∈ draft.pending, queued ∈ index.symbols ∧ queued.isLibrary = true) :
    ∀ queued ∈ later.pending, queued ∈ index.symbols ∧ queued.isLibrary = true := by
  intro queued member
  rcases mem_takenUp_pending started added goals member with
    old | ⟨library, ⟨owned, _⟩ | ⟨link, linked, goal⟩⟩
  · exact earlier queued old
  · exact ⟨ownerOf_mem owned, library⟩
  · obtain ⟨target, other, known⟩ := goals link linked
    cases goal.symm.trans other
    exact ⟨known, library⟩

/-- Nothing new is queued that the symbol does not need. -/
theorem takenUp_requires (required : index.Requires draft.records (idOf index symbol))
    (earlier : ∀ queued ∈ draft.pending, index.Requires draft.records (idOf index queued)) :
    ∀ queued ∈ later.pending, index.Requires later.records (idOf index queued) := by
  obtain ⟨made, whole, links⟩ := takenUp_records started added
  have grows : draft.records ⊆ later.records := by
    rw [whole]
    exact fun record held => List.mem_append_left _ (List.mem_append_left _ held)
  intro queued member
  rcases mem_takenUp_pending started added goals member with
    old | ⟨_, ⟨owned, isNew⟩ | ⟨link, linked, goal⟩⟩
  · exact (earlier queued old).mono grows
  · have held : elementRecord index symbol.provenance symbol ∈ later.records := by
      rw [whole]
      exact List.mem_append_left _ (List.mem_append_right _ isNew)
    refine .owner held (elementRecord_isRelationship ..) ?_ (required.mono grows)
    change (ownerOf index symbol).map (idOf index) = _
    rw [owned]
    rfl
  · obtain ⟨id, isNew⟩ := links link linked
    have held : link.record index symbol.provenance (idOf index symbol) id ∈ later.records := by
      rw [whole]
      exact List.mem_append_right _ isNew
    refine .target held rfl ?_ (required.mono grows)
    rw [Link.record, goal]
    rfl

/-- Nothing is listed outside of the document. -/
theorem takenUp_external
    (plain : selfContained = true ∨ ∀ symbol ∈ index.symbols, symbol.isLibrary = false) :
    later.externalRefs = draft.externalRefs := by
  have begun : start.externalRefs = draft.externalRefs :=
    (congrArg Draft.externalRefs started).trans (declare_external plain symbol _)
  refine (addLinks_external (fun link linked => ?_) added).trans begun
  obtain ⟨target, goal, known⟩ := goals link linked
  exact ⟨target, goal, plain.imp_right fun own => own target known⟩

end TakingUp

/-- What holds of the symbols that were taken up and of those that are queued. -/
structure Collecting (index : Index) (memo : Memo) (taken : List Symbol) (draft : Draft) :
    Prop where
  composed : Composed index memo taken draft.records
  visited : draft.visited = (taken.map (·.serial)).reverse
  distinct : (taken.map (·.serial)).Nodup
  inside : taken ⊆ index.symbols
  answered : ∀ symbol ∈ taken, Answered index memo symbol
  linked : ∀ symbol ∈ taken, ∀ link ∈ links index memo symbol, ∀ target,
    link.goal = .loaded target → target ∈ index.symbols
  queued : ∀ symbol ∈ draft.pending, symbol ∈ index.symbols ∧ symbol.isLibrary = true
  external : draft.externalRefs = []
  required : ∀ symbol ∈ taken ++ draft.pending, index.Requires draft.records (idOf index symbol)

section Collecting

variable (within : index.IdsWithin) (written : index.Written)
  (plain : selfContained = true ∨ ∀ symbol ∈ index.symbols, symbol.isLibrary = false)

include within written plain

/-- One more symbol that is needed is taken up. -/
theorem Collecting.takeUp (collecting : Collecting index memo taken draft)
    (known : symbol ∈ index.symbols) (fresh : symbol.serial ∉ taken.map (·.serial))
    (remembers : memo.Within index) (answered : Answered index memo symbol)
    (required : index.Requires draft.records (idOf index symbol))
    (added : addLinks index selfContained symbol.provenance (idOf index symbol)
      (links index memo symbol)
      ((draft.begun index selfContained symbol.provenance symbol).withMemo memo) = .ok later) :
    Collecting index memo (taken ++ [symbol]) later := by
  have distinct : ((taken ++ [symbol]).map (·.serial)).Nodup := by
    rw [List.map_append, List.map_singleton, ← List.concat_eq_append]
    exact collecting.distinct.concat fresh
  have inside : taken ++ [symbol] ⊆ index.symbols :=
    List.append_subset.mpr ⟨collecting.inside, List.cons_subset.mpr ⟨known, List.nil_subset _⟩⟩
  have goals : ∀ link ∈ links index memo symbol, ∃ target, link.goal = .loaded target ∧
      target ∈ index.symbols := by
    intro link linked
    obtain ⟨file, isLibrary, isWritten⟩ := written symbol known
    obtain ⟨_, target, goal⟩ := isWritten.links linked
    exact ⟨target, goal, answered.goal_within within remembers linked goal⟩
  have visited : later.visited = symbol.serial :: draft.visited := by
    rw [(addLinks_keeps added).1]
    exact declare_visited ..
  obtain ⟨made, whole, _⟩ := takenUp_records rfl added
  have grows : draft.records ⊆ later.records := by
    rw [whole]
    exact fun record held => List.mem_append_left _ (List.mem_append_left _ held)
  constructor
  case composed =>
    exact composed_addLinks collecting.composed (by rfl) (totalWeight_le distinct inside) added
  case visited => simp [visited, collecting.visited]
  case distinct => exact distinct
  case inside => exact inside
  case answered =>
    exact List.forall_mem_append.mpr ⟨collecting.answered, List.forall_mem_singleton.mpr answered⟩
  case linked =>
    exact List.forall_mem_append.mpr ⟨collecting.linked, List.forall_mem_singleton.mpr
      fun link linked _ goal => answered.goal_within within remembers linked goal⟩
  case queued => exact takenUp_queued rfl added goals collecting.queued
  case external => exact (takenUp_external rfl added goals plain).trans collecting.external
  case required =>
    have earlier := List.forall_mem_append.mp collecting.required
    refine List.forall_mem_append.mpr ⟨List.forall_mem_append.mpr ⟨?_, ?_⟩, ?_⟩
    · exact fun other isTaken => (earlier.1 other isTaken).mono grows
    · exact List.forall_mem_singleton.mpr (required.mono grows)
    · exact takenUp_requires rfl added goals required earlier.2

omit within written plain in
theorem Collecting.of_withMemo {other : Memo}
    (collecting : Collecting index memo taken (draft.withMemo other)) :
    Collecting index memo taken draft :=
  ⟨collecting.composed, collecting.visited, collecting.distinct, collecting.inside,
    collecting.answered, collecting.linked, collecting.queued, collecting.external, collecting.required⟩

omit within written plain in
/-- Taking a symbol from the queue leaves all as it is, and the symbol is needed. -/
theorem Collecting.pop {rest : List Symbol} (collecting : Collecting index memo taken draft)
    (queue : draft.pending = symbol :: rest) :
    Collecting index memo taken
      { draft with
        pending := rest
        externalRefs := Entries.erase (idOf index symbol) draft.externalRefs } := by
  refine ⟨collecting.composed, collecting.visited, collecting.distinct, collecting.inside,
    collecting.answered, collecting.linked, ?_, ?_, ?_⟩
  · exact fun other member => collecting.queued other (queue ▸ List.mem_cons_of_mem _ member)
  · rw [collecting.external]
    rfl
  · intro other member
    refine collecting.required other ?_
    rw [queue]
    rcases List.mem_append.mp member with isTaken | queued
    · exact List.mem_append_left _ isTaken
    · exact List.mem_append_right _ (List.mem_cons_of_mem _ queued)

/-- What holds of a draft whatever is remembered later on. -/
structure Collects (index : Index) (taken : List Symbol) (draft : Draft) : Prop where
  remembers : draft.memo.Within index
  collecting : ∀ memo : Memo, memo.Within index → draft.memo.Known memo →
    Collecting index memo taken draft

omit within written plain in
theorem Collects.now (collects : Collects index taken draft) :
    Collecting index draft.memo taken draft :=
  collects.collecting _ collects.remembers fun _ _ was => was

theorem Collects.takeUp (collects : Collects index taken draft) (known : symbol ∈ index.symbols)
    (fresh : symbol.serial ∉ taken.map (·.serial))
    (required : index.Requires draft.records (idOf index symbol))
    (ran : outcome (takeUp index selfContained symbol.provenance symbol) draft =
      (.ok ⟨⟩, later)) : Collects index (taken ++ [symbol]) later := by
  have unseen : draft.visited.contains symbol.serial = false := by
    rw [collects.now.visited]
    simpa using fresh
  obtain ⟨remembers, grows, tells⟩ := takeUp_finds within collects.remembers unseen ran
  refine ⟨remembers, fun memo inside knows => ?_⟩
  obtain ⟨answered, added⟩ := tells memo knows
  have before := collects.collecting memo inside fun query answer was =>
    knows query answer (grows query answer was)
  exact (before.takeUp within written plain known fresh inside answered required added).of_withMemo

/-- Until the queue is empty symbols are taken up that are needed. -/
theorem Collects.drain {fuel : Nat} (collects : Collects index taken draft)
    (ran : outcome (drain index selfContained fuel) draft = (.ok ⟨⟩, later)) :
    ∃ inlined, Collects index (taken ++ inlined) later ∧ later.pending = [] := by
  induction fuel generalizing draft taken with
  | zero =>
    obtain ⟨_, _, first, ran⟩ := outcome_bind_ok ran
    cases first
    split at ran
    · cases ran
    · next empty =>
      cases ran
      exact ⟨[], by rwa [List.append_nil], by simpa using empty⟩
  | succ fuel ih =>
    obtain ⟨_, _, first, ran⟩ := outcome_bind_ok ran
    cases first
    split at ran
    · next empty =>
      cases ran
      exact ⟨[], by rwa [List.append_nil], empty⟩
    · next symbol rest queue =>
      obtain ⟨_, _, popped, ran⟩ := outcome_bind_ok ran
      cases popped
      obtain ⟨_, middle, one, others⟩ := outcome_bind_ok ran
      have member : symbol ∈ draft.pending := queue ▸ List.mem_cons_self
      obtain ⟨known, library⟩ := collects.now.queued symbol member
      have provenance : symbol.provenance = Record.inlinedProvenance := by
        simp [Symbol.provenance, library]
      have start : Collects index taken
          { draft with
            pending := rest
            externalRefs := Entries.erase (idOf index symbol) draft.externalRefs } :=
        ⟨collects.remembers, fun memo inside knows =>
          (collects.collecting memo inside knows).pop queue⟩
      by_cases seen : symbol.serial ∈ taken.map (·.serial)
      · rw [takeUp_outcome, start.now.visited] at one
        have isSeen : (taken.map (·.serial)).reverse.contains symbol.serial = true := by
          simpa using seen
        rw [isSeen] at one
        cases one
        exact ih start others
      · rw [← provenance] at one
        have between := start.takeUp within written plain known seen
          (collects.now.required symbol (List.mem_append_right _ member)) one
        obtain ⟨inlined, final, empty⟩ := ih between others
        exact ⟨symbol :: inlined, by rwa [List.append_cons], empty⟩

/-- What is composed of a model's own symbols is what is needed. -/
theorem compose_gathers (serials : (index.symbols.map (·.serial)).Nodup)
    (remembers : memo.Within index)
    (ran : outcome (compose index selfContained
      (index.symbols.filter fun symbol => !symbol.isLibrary)) { memo } = (.ok ⟨⟩, later)) :
    ∃ taken, Gathered index later.memo taken later.records ∧ later.externalRefs = [] := by
  have closed := ran
  obtain ⟨_, middle, own, rest⟩ := outcome_bind_ok ran
  obtain ⟨_, _, got, drained⟩ := outcome_bind_ok rest
  cases got
  have ownTaken : Collects index (index.symbols.filter fun symbol => !symbol.isLibrary) middle := by
    refine forM_keeps (Collects index) ⟨remembers, fun memo _ _ => ?_⟩ ?_ own
    · exact ⟨.nil, rfl, List.nodup_nil, List.nil_subset _, List.forall_mem_nil _,
        List.forall_mem_nil _, List.forall_mem_nil _, rfl, List.forall_mem_nil _⟩
    · intro done symbol rest before after whole collects ran
      have listed : symbol ∈ index.symbols.filter fun symbol => !symbol.isLibrary := by
        rw [whole]
        simp
      obtain ⟨known, user⟩ := List.mem_filter.mp listed
      have provenance : symbol.provenance = Record.modelProvenance := by
        simp [Symbol.provenance, by simpa using user]
      have fresh : symbol.serial ∉ done.map (·.serial) := by
        have part : (index.symbols.filter fun symbol => !symbol.isLibrary).Sublist index.symbols :=
          List.filter_sublist
        have distinct := serials.sublist (part.map (·.serial))
        rw [whole, List.map_append, List.map_cons] at distinct
        exact fun seen => (List.nodup_append.mp distinct).2.2 _ seen _ List.mem_cons_self rfl
      rw [← provenance] at ran
      exact collects.takeUp within written plain known fresh
        (.own known (by simpa using user)) ran
  obtain ⟨inlined, collects, _⟩ := ownTaken.drain within written plain drained
  have collecting := collects.now
  have owes : Owes index (index.symbols.filter fun symbol => !symbol.isLibrary) :=
    ⟨fun one first other second same => List.inj_on_of_nodup_map serials first second same, within,
      fun symbol member own => List.mem_filter.mpr ⟨member, by simp [own]⟩⟩
  obtain ⟨apart, ends, _⟩ :=
    compose_closed owes (List.filter_sublist.subset) remembers closed
  refine ⟨_, ⟨collecting.composed, collecting.inside, ⟨inlined, rfl⟩, collecting.answered,
    collecting.linked, apart, ?_, ?_⟩, collecting.external⟩
  · intro record member id isEnd
    rcases ends record member id isEnd with held | listed
    · exact List.any_eq_true.mp held
    · rw [outside, collecting.external] at listed
      cases listed
  · exact fun needed closed own symbol isTaken =>
      collecting.required symbol (List.mem_append_left _ isTaken) needed closed own

end Collecting

end Draft

end Sysml
