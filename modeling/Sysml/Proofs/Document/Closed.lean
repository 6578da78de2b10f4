import Sysml.Proofs.Document.Drafting
import Sysml.Proofs.Scope.Memo

/-!
# Closed documents

A document that is composed refers to nothing unknown: what a record refers to
is a record, is listed as being outside of the document, or is a symbol that is
still to be taken up. Each step keeps this up (`takeUp_sound`), and in the end
no symbol is left (`compose_closed`).
-/

set_option autoImplicit false

namespace Sysml

/-- What a relationship leads to is a symbol of the index, if it is loaded. -/
def Goal.Within (index : Scope.Index) (goal : Goal) : Prop :=
  ∀ target, goal = .loaded target → target ∈ index.symbols

theorem Document.danglingReferences_eq_nil {document : Document}
    (known : ∀ record ∈ document.records, ∀ id ∈ record.references, document.knows id = true) :
    document.danglingReferences = [] := by
  refine List.flatMap_eq_nil_iff.mpr fun record member => ?_
  rw [List.map_eq_nil_iff, List.filter_eq_nil_iff]
  intro reference isEnd
  simp [known record member reference.2 (List.mem_map_of_mem isEnd)]

namespace Draft

variable {index : Scope.Index} {selfContained : Bool} {provenance : String} {owner id : Key}
  {symbol : Symbol} {draft later : Draft} {owed : List Symbol}

/-- What an id stands for is in the document, is listed as being outside of it, or
is a symbol that is queued or owed. -/
def Accounted (index : Scope.Index) (owed : List Symbol) (draft : Draft) (id : Key) : Prop :=
  draft.holds id = true ∨ draft.outside.contains id = true ∨
    ∃ symbol ∈ draft.pending ++ owed, (idOf index symbol == id) = true

def IsEnd (key : Key) (record : Record) : Prop :=
  ∃ id, (record.owner = some id ∨ record.target = some id) ∧ (id == key) = true

/-- A draft that refers to nothing unknown, but for symbols that are owed to it. -/
structure Sound (index : Scope.Index) (owed : List Symbol) (draft : Draft) : Prop where
  apart : draft.records.Pairwise fun one other => (one.id == other.id) = false
  ends : ∀ record ∈ draft.records, ∀ id ∈ record.references, Accounted index owed draft id
  listed : ∀ key ∈ draft.outside, ∃ record ∈ draft.records, IsEnd key record
  queued : draft.pending ⊆ index.symbols
  remembers : draft.memo.Within index

/-- Symbols of an index under distinct serial numbers; those that are no library's
are owed to the document. -/
structure Owes (index : Scope.Index) (owed : List Symbol) : Prop where
  serials : ∀ one ∈ index.symbols, ∀ other ∈ index.symbols, one.serial = other.serial → one = other
  ids : index.IdsWithin
  all : ∀ symbol ∈ index.symbols, symbol.isLibrary = false → symbol ∈ owed

/-- The second draft has at least what the first one has. -/
structure Extends (draft later : Draft) : Prop where
  holds : ∀ id, draft.holds id = true → later.holds id = true
  outside : draft.outside ⊆ later.outside
  pending : draft.pending ⊆ later.pending

theorem Extends.refl (draft : Draft) : Extends draft draft :=
  ⟨fun _ held => held, List.Subset.refl _, List.Subset.refl _⟩

theorem Extends.trans {middle : Draft} (first : Extends draft middle)
    (second : Extends middle later) : Extends draft later :=
  ⟨fun id held => second.holds id (first.holds id held),
    List.Subset.trans first.outside second.outside,
    List.Subset.trans first.pending second.pending⟩

theorem Accounted.extend (accounted : Accounted index owed draft id)
    (extends_ : Extends draft later) : Accounted index owed later id := by
  rcases accounted with held | known | ⟨symbol, member, same⟩
  · exact .inl (extends_.holds id held)
  · obtain ⟨key, member, same⟩ := List.contains_iff_exists_mem_beq.mp known
    exact .inr (.inl (List.contains_iff_exists_mem_beq.mpr ⟨key, extends_.outside member, same⟩))
  · refine .inr (.inr ⟨symbol, ?_, same⟩)
    rcases List.mem_append.mp member with queued | isOwed
    · exact List.mem_append_left _ (extends_.pending queued)
    · exact List.mem_append_right _ isOwed

theorem extends_add (draft : Draft) (record : Record) : Extends draft (draft.add record) :=
  ⟨fun id held => by rw [holds_add, held, Bool.true_or], List.Subset.refl _, List.Subset.refl _⟩

theorem extends_mention (index : Scope.Index) (selfContained : Bool) (target : Symbol)
    (draft : Draft) : Extends draft (draft.mention index selfContained target) := by
  refine ⟨fun id held => (holds_of_records (mention_records ..) id).trans held, ?_, ?_⟩
  · unfold mention
    split
    · split
      · exact List.Subset.refl _
      · simp only [outside, Entries.keys_put]
        split
        · exact List.Subset.refl _
        · exact List.subset_append_left _ _
    · exact List.Subset.refl _
  · unfold mention
    split
    · split
      · exact List.subset_append_left _ _
      · exact List.Subset.refl _
    · exact List.Subset.refl _

theorem extends_reach (index : Scope.Index) (selfContained : Bool) (goal : Goal) (draft : Draft) :
    Extends draft (draft.reach index selfContained goal) := by
  cases goal with
  | loaded target => exact extends_mention ..
  | outside id name =>
    refine ⟨fun _ held => held, ?_, List.Subset.refl _⟩
    simp only [reach, outside, Entries.keys_putNew]
    split
    · exact List.Subset.refl _
    · exact List.subset_append_left _ _

/-- Of what is listed, only the symbol that is mentioned is new. -/
theorem outside_mention {target : Symbol} {key : Key}
    (member : key ∈ (draft.mention index selfContained target).outside) :
    key ∈ draft.outside ∨ key = idOf index target := by
  unfold mention at member
  split at member
  · split at member
    · exact .inl member
    · simp only [outside, Entries.keys_put] at member
      split at member
      · exact .inl member
      · simpa [outside] using member
  · exact .inl member

theorem outside_reach {goal : Goal} {key : Key}
    (member : key ∈ (draft.reach index selfContained goal).outside) :
    key ∈ draft.outside ∨ key = goal.id index := by
  cases goal with
  | loaded target => exact outside_mention member
  | outside id name =>
    simp only [reach, outside, Entries.keys_putNew] at member
    split at member
    · exact .inl member
    · simpa [outside, Goal.id] using member

theorem pending_mention {target queued : Symbol}
    (member : queued ∈ (draft.mention index selfContained target).pending) :
    queued ∈ draft.pending ∨ queued = target := by
  unfold mention at member
  split at member
  · split at member
    · simpa using member
    · exact .inl member
  · exact .inl member

/-- A symbol that was mentioned is accounted for. -/
theorem accounted_mention (owes : Owes index owed) {target : Symbol}
    (inside : target ∈ index.symbols) (selfContained : Bool) (draft : Draft) :
    Accounted index owed (draft.mention index selfContained target) (idOf index target) := by
  cases library : target.isLibrary with
  | false =>
    have isOwed := owes.all target inside library
    exact .inr (.inr ⟨target, List.mem_append_right _ isOwed, BEq.rfl⟩)
  | true =>
    cases held : draft.holds (idOf index target) with
    | true => exact .inl ((holds_of_records (mention_records ..) _).trans held)
    | false =>
      unfold mention
      rw [library, held]
      cases selfContained with
      | true => exact .inr (.inr ⟨target, by simp, BEq.rfl⟩)
      | false =>
        refine .inr (.inl ?_)
        simp only [Bool.not_false, Bool.and_self, ↓reduceIte, Bool.false_eq_true, outside,
          Entries.keys_put]
        split
        · next known =>
          rw [List.contains_eq_any_beq]
          simpa only [BEq.comm] using known
        · simp

theorem accounted_reach (owes : Owes index owed) {goal : Goal} (inside : Goal.Within index goal)
    (selfContained : Bool) (draft : Draft) :
    Accounted index owed (draft.reach index selfContained goal) (goal.id index) := by
  cases goal with
  | loaded target => exact accounted_mention owes (inside target rfl) selfContained draft
  | outside id name =>
    refine .inr (.inl ?_)
    simp only [reach, outside, Entries.keys_putNew, Goal.id]
    split
    · next known => exact known
    · simp

theorem pending_reach {goal : Goal} {queued : Symbol} (inside : Goal.Within index goal)
    (queuedBefore : draft.pending ⊆ index.symbols)
    (member : queued ∈ (draft.reach index selfContained goal).pending) :
    queued ∈ index.symbols := by
  cases goal with
  | loaded target =>
    rcases pending_mention member with before | rfl
    · exact queuedBefore before
    · exact inside _ rfl
  | outside id name => exact queuedBefore member

theorem mem_references {record : Record} (member : id ∈ record.references) :
    record.owner = some id ∨ record.source = some id ∨ record.target = some id := by
  obtain ⟨⟨role, key⟩, isEnd, rfl⟩ := List.mem_map.mp member
  obtain ⟨⟨role, key?⟩, listed, given⟩ := List.mem_filterMap.mp isEnd
  obtain ⟨key, kept, same⟩ := Option.map_eq_some_iff.mp given
  cases same
  have found := (Option.filter_eq_some_iff.mp kept).1
  simp only [List.mem_cons, List.not_mem_nil, or_false, Prod.mk.injEq] at listed
  rcases listed with ⟨-, rfl⟩ | ⟨-, rfl⟩ | ⟨-, rfl⟩
  · exact .inl found
  · exact .inr (.inl found)
  · exact .inr (.inr found)

/-- One more record keeps a draft sound, if its id is new, what it refers to is
accounted for, and nothing else was listed. -/
theorem Sound.grow (sound : Sound index owed draft) {record : Record}
    (records : later.records = draft.records ++ [record])
    (fresh : draft.holds record.id = false) (grown : Extends draft later)
    (ends : ∀ id ∈ record.references, Accounted index owed later id)
    (listed : ∀ key ∈ later.outside, key ∈ draft.outside ∨ IsEnd key record)
    (queued : later.pending ⊆ index.symbols) (memo : later.memo = draft.memo) :
    Sound index owed later := by
  refine ⟨?_, ?_, ?_, queued, memo ▸ sound.remembers⟩
  · rw [records]
    refine List.pairwise_append.mpr ⟨sound.apart, List.pairwise_singleton _ _, ?_⟩
    intro one member other new
    rw [List.mem_singleton] at new
    subst new
    simp only [holds, List.any_eq_false] at fresh
    simpa using fresh one member
  · intro other member id isEnd
    rw [records] at member
    rcases List.mem_append.mp member with old | new
    · exact (sound.ends other old id isEnd).extend grown
    · cases List.mem_singleton.mp new
      exact ends id isEnd
  · intro key member
    rw [records]
    rcases listed key member with old | isEnd
    · obtain ⟨other, held, isEnd⟩ := sound.listed key old
      exact ⟨other, List.mem_append_left _ held, isEnd⟩
    · exact ⟨record, List.mem_append_right _ (List.mem_singleton_self _), isEnd⟩

theorem Sound.addLink (owes : Owes index owed) (sound : Sound index owed draft) {link : Link}
    (inside : link.goal.Within index) (owned : draft.holds owner = true)
    (added : addLink index selfContained provenance owner link draft = .ok later) :
    Sound index owed later ∧ Extends draft later ∧ later.visited = draft.visited := by
  obtain ⟨id, given, rfl⟩ := addLink_ok added
  have reached := extends_reach index selfContained link.goal draft
  have last := extends_add (draft.reach index selfContained link.goal)
    (link.record index provenance owner id)
  have grown := reached.trans last
  have records : ((draft.reach index selfContained link.goal).add
      (link.record index provenance owner id)).records =
        draft.records ++ [link.record index provenance owner id] := by
    rw [add_records, reach_records]
  refine ⟨sound.grow records ?_ grown ?_ ?_ ?_ ?_, grown, ?_⟩
  · rw [← holds_of_records (reach_records index selfContained link.goal draft)]
    exact linkId_fresh given
  · intro end_ isEnd
    rcases mem_references isEnd with same | same | same <;> cases same
    · exact .inl (grown.holds _ owned)
    · exact .inl (grown.holds _ owned)
    · exact (accounted_reach owes inside selfContained draft).extend last
  · intro key member
    rcases outside_reach member with old | rfl
    · exact .inl old
    · exact .inr ⟨_, .inr rfl, BEq.rfl⟩
  · exact fun queued member => pending_reach inside sound.queued member
  · rw [add_memo, reach_memo]
  · rw [add_visited, reach_visited]

/-- A symbol's record keeps a draft sound, and then its id is there. -/
theorem Sound.declare (owes : Owes index owed) (sound : Sound index owed draft)
    (symbol : Symbol) (selfContained : Bool) (provenance : String) :
    Sound index owed (draft.declare index selfContained provenance symbol) ∧
      Extends draft (draft.declare index selfContained provenance symbol) ∧
      (draft.declare index selfContained provenance symbol).holds (idOf index symbol) = true ∧
      (draft.declare index selfContained provenance symbol).visited = draft.visited := by
  unfold Draft.declare
  cases held : draft.holds (idOf index symbol) with
  | true => exact ⟨sound, .refl draft, held, rfl⟩
  | false =>
    have added := extends_add draft (elementRecord index provenance symbol)
    have here : (draft.add (elementRecord index provenance symbol)).holds (idOf index symbol) =
        true := by
      simp [elementRecord]
    simp only [Bool.false_eq_true, ↓reduceIte]
    cases owned : ownerOf index symbol with
    | none =>
      refine ⟨sound.grow rfl held added ?_ (fun _ member => .inl member) sound.queued rfl, added,
        here, rfl⟩
      intro id isEnd
      rcases mem_references isEnd with same | same | same <;> simp [elementRecord, owned] at same
    | some owner =>
      have ownerInside := ownerOf_mem owned
      have last := extends_mention index selfContained owner
        (draft.add (elementRecord index provenance symbol))
      refine ⟨sound.grow (mention_records ..) held (added.trans last) ?_ ?_ ?_ (mention_memo ..),
        added.trans last, last.holds _ here, mention_visited ..⟩
      · intro id isEnd
        rcases mem_references isEnd with same | same | same <;>
          simp [elementRecord, owned] at same
        exact same ▸ accounted_mention owes ownerInside selfContained _
      · intro key member
        rcases outside_mention member with old | rfl
        · exact .inl old
        · exact .inr ⟨_, .inl (by simp [elementRecord, owned]), BEq.rfl⟩
      · intro queued member
        rcases pending_mention member with old | rfl
        · exact sound.queued old
        · exact ownerInside

/-- A symbol that was taken up has a record. -/
def Taken (index : Scope.Index) (draft : Draft) : Prop :=
  ∀ symbol ∈ index.symbols, draft.visited.contains symbol.serial = true →
    draft.holds (idOf index symbol) = true

theorem Sound.addLink? (owes : Owes index owed) (sound : Sound index owed draft)
    {link? : Option Link} (inside : ∀ link, link? = some link → link.goal.Within index)
    (owned : draft.holds owner = true)
    (ran : outcome (addLink? index selfContained provenance owner link?) draft = (.ok ⟨⟩, later)) :
    Sound index owed later ∧ Extends draft later ∧ later.visited = draft.visited := by
  rcases addLink?_ok ran with ⟨-, rfl⟩ | ⟨link, rfl, added⟩
  · exact ⟨sound, .refl _, rfl⟩
  · exact sound.addLink owes (inside link rfl) owned added

theorem Sound.addReference (owes : Owes index owed) (sound : Sound index owed draft)
    {reference : Reference} (owned : draft.holds (idOf index symbol) = true)
    (ran : outcome (addReference index selfContained provenance symbol reference) draft =
      (.ok ⟨⟩, later)) :
    Sound index owed later ∧ Extends draft later ∧ later.visited = draft.visited := by
  obtain ⟨meant, memo, found, added⟩ := addReference_ok ran
  have behaves := Scope.resolveReference_behaves owes.ids reference symbol
  have has := behaves.answers sound.remembers meant (by rw [found])
  have remembers : memo.Within index := by
    simpa [found] using behaves.within sound.remembers
  have inside : ∀ link, reference.link? symbol meant = some link → link.goal.Within index := by
    intro link linked target same
    cases meant with
    | some meant =>
      cases linked
      cases same
      exact has target rfl
    | none =>
      obtain ⟨id, _, rfl⟩ := Option.map_eq_some_iff.mp linked
      cases same
  have started : Sound index owed { draft with memo } :=
    ⟨sound.apart, sound.ends, sound.listed, sound.queued, remembers⟩
  obtain ⟨after, grown, visited⟩ := started.addLink? owes inside owned added
  exact ⟨after, ⟨grown.holds, grown.outside, grown.pending⟩, visited⟩

theorem Sound.addImport (owes : Owes index owed) (sound : Sound index owed draft) {i : Import}
    (owned : draft.holds (idOf index symbol) = true)
    (ran : outcome (addImport index selfContained provenance symbol i) draft = (.ok ⟨⟩, later)) :
    Sound index owed later ∧ Extends draft later ∧ later.visited = draft.visited := by
  obtain ⟨named, link?, resolved, linked, added⟩ := addImport_ok ran
  refine sound.addLink? owes ?_ owned added
  intro link some_ target same
  subst some_
  unfold Import.link? at linked
  cases named with
  | some named =>
    cases linked
    cases same
    exact Scope.resolveImport_within owes.ids resolved target rfl
  | none =>
    dsimp only at linked
    split at linked
    · cases linked
    · obtain ⟨name, _, made⟩ := result_map_ok linked
      cases made
      cases same

/-- What keeps up while a symbol's relationships are added. -/
structure Growing (index : Scope.Index) (owed : List Symbol) (first draft : Draft) : Prop where
  sound : Sound index owed draft
  grown : Extends first draft
  visited : draft.visited = first.visited

/-- Taking up a symbol keeps a draft sound. -/
theorem Sound.takeUp (owes : Owes index owed) (sound : Sound index owed draft)
    (taken : Taken index draft) (inside : symbol ∈ index.symbols)
    (ran : outcome (takeUp index selfContained provenance symbol) draft = (.ok ⟨⟩, later)) :
    Sound index owed later ∧ Taken index later ∧ draft.visited ⊆ later.visited ∧
      later.visited.contains symbol.serial = true := by
  rw [takeUp_outcome] at ran
  split at ran
  · next seen =>
    cases ran
    exact ⟨sound, taken, List.Subset.refl _, seen⟩
  · have marked : Sound index owed { draft with visited := symbol.serial :: draft.visited } :=
      ⟨sound.apart, sound.ends, sound.listed, sound.queued, sound.remembers⟩
    obtain ⟨begun, grown, held, visited⟩ :=
      marked.declare owes symbol selfContained provenance
    obtain ⟨_, middle, references, imports⟩ := outcome_bind_ok ran
    change outcome _ (Draft.declare index selfContained provenance symbol
      { draft with visited := symbol.serial :: draft.visited }) = _ at references
    have afterReferences : Growing index owed (Draft.declare index selfContained provenance symbol
        { draft with visited := symbol.serial :: draft.visited }) middle := by
      refine forM_keeps (fun _ => Growing index owed _) ⟨begun, .refl _, rfl⟩ ?_ references
      intro done reference rest before after _ growing ran
      obtain ⟨soundAfter, grownAfter, same⟩ :=
        growing.sound.addReference owes (growing.grown.holds _ held) ran
      exact ⟨soundAfter, growing.grown.trans grownAfter, same.trans growing.visited⟩
    have afterImports : Growing index owed (Draft.declare index selfContained provenance symbol
        { draft with visited := symbol.serial :: draft.visited }) later := by
      refine forM_keeps (fun _ => Growing index owed _) afterReferences ?_ imports
      intro done i rest before after _ growing ran
      obtain ⟨soundAfter, grownAfter, same⟩ :=
        growing.sound.addImport owes (growing.grown.holds _ held) ran
      exact ⟨soundAfter, growing.grown.trans grownAfter, same.trans growing.visited⟩
    have visitedLater : later.visited = symbol.serial :: draft.visited :=
      afterImports.visited.trans visited
    refine ⟨afterImports.sound, ?_, ?_, ?_⟩
    · intro other member seen
      rw [visitedLater, List.contains_cons] at seen
      rcases Bool.or_eq_true_iff.mp seen with same | before
      · rw [owes.serials other member symbol inside (by simpa using same)]
        exact afterImports.grown.holds _ held
      · exact afterImports.grown.holds _ (grown.holds _ (taken other member before))
    · rw [visitedLater]
      exact List.subset_cons_self _ _
    · rw [visitedLater, List.contains_cons, BEq.rfl, Bool.true_or]

theorem Owes.cons (owes : Owes index owed) (symbol : Symbol) : Owes index (symbol :: owed) :=
  ⟨owes.serials, owes.ids, fun other member own => .tail _ (owes.all other member own)⟩

/-- Taking a symbol from the queue, and what it stands for from the list, leaves a
sound draft that is owed the symbol. -/
theorem Sound.pop (sound : Sound index owed draft) {rest : List Symbol}
    (queue : draft.pending = symbol :: rest) :
    Sound index (symbol :: owed)
      { draft with
        pending := rest
        externalRefs := Entries.erase (idOf index symbol) draft.externalRefs } := by
  refine ⟨sound.apart, ?_, ?_, ?_, sound.remembers⟩
  · intro record member id isEnd
    rcases sound.ends record member id isEnd with held | known | ⟨other, member, same⟩
    · exact .inl held
    · obtain ⟨key, listed, same⟩ := List.contains_iff_exists_mem_beq.mp known
      obtain ⟨entry, entryListed, rfl⟩ := List.mem_map.mp listed
      cases erased : entry.1 == idOf index symbol with
      | true =>
        refine .inr (.inr ⟨symbol, by simp, ?_⟩)
        exact BEq.symm (BEq.trans same erased)
      | false =>
        refine .inr (.inl (List.contains_iff_exists_mem_beq.mpr ⟨entry.1, ?_, same⟩))
        exact List.mem_map_of_mem (List.mem_filter.mpr ⟨entryListed, by simp [erased]⟩)
    · refine .inr (.inr ⟨other, ?_, same⟩)
      rw [queue] at member
      simp only [List.mem_append, List.mem_cons] at member ⊢
      rcases member with (isFirst | later) | isOwed
      · exact .inr (.inl isFirst)
      · exact .inl later
      · exact .inr (.inr isOwed)
  · intro key member
    obtain ⟨entry, kept, rfl⟩ := List.mem_map.mp member
    exact sound.listed _ (List.mem_map_of_mem (List.mem_filter.mp kept).1)
  · intro other member
    exact sound.queued (queue ▸ List.mem_cons_of_mem _ member)

theorem Sound.settle (sound : Sound index (symbol :: owed) draft)
    (held : draft.holds (idOf index symbol) = true) : Sound index owed draft := by
  refine ⟨sound.apart, ?_, sound.listed, sound.queued, sound.remembers⟩
  intro record member id isEnd
  rcases sound.ends record member id isEnd with known | known | ⟨other, member, same⟩
  · exact .inl known
  · exact .inr (.inl known)
  · simp only [List.mem_append, List.mem_cons] at member
    rcases member with queued | rfl | isOwed
    · exact .inr (.inr ⟨other, List.mem_append_left _ queued, same⟩)
    · exact .inl ((holds_congr same draft).symm.trans held)
    · exact .inr (.inr ⟨other, List.mem_append_right _ isOwed, same⟩)

/-- When the queue is empty in the end the draft is still sound. -/
theorem Sound.drain (owes : Owes index owed) {fuel : Nat} (sound : Sound index owed draft)
    (taken : Taken index draft)
    (ran : outcome (drain index selfContained fuel) draft = (.ok ⟨⟩, later)) :
    Sound index owed later ∧ Taken index later ∧ draft.visited ⊆ later.visited ∧
      later.pending = [] := by
  induction fuel generalizing draft with
  | zero =>
    obtain ⟨_, _, first, ran⟩ := outcome_bind_ok ran
    cases first
    split at ran
    · cases ran
    · next empty =>
      cases ran
      exact ⟨sound, taken, List.Subset.refl _, by simpa using empty⟩
  | succ fuel ih =>
    obtain ⟨_, _, first, ran⟩ := outcome_bind_ok ran
    cases first
    split at ran
    · next empty =>
      cases ran
      exact ⟨sound, taken, List.Subset.refl _, empty⟩
    · next symbol rest queue =>
      obtain ⟨_, _, popped, ran⟩ := outcome_bind_ok ran
      cases popped
      obtain ⟨_, middle, one, others⟩ := outcome_bind_ok ran
      have inside : symbol ∈ index.symbols := sound.queued (queue ▸ List.mem_cons_self)
      obtain ⟨between, takenBetween, grown, seen⟩ :=
        (sound.pop queue).takeUp (owes.cons symbol) taken inside one
      obtain ⟨final, takenFinal, grownFinal, empty⟩ :=
        ih (between.settle (takenBetween symbol inside seen)) takenBetween others
      exact ⟨final, takenFinal, List.Subset.trans grown grownFinal, empty⟩

/-- A composed document refers to nothing unknown. -/
theorem compose_closed (owes : Owes index owed) (inside : owed ⊆ index.symbols)
    {memo : Scope.Memo} (remembers : memo.Within index)
    (ran : outcome (compose index selfContained owed) { memo } = (.ok ⟨⟩, later)) :
    (later.records.Pairwise fun one other => (one.id == other.id) = false) ∧
      (∀ record ∈ later.records, ∀ id ∈ record.references,
        later.holds id = true ∨ later.outside.contains id = true) ∧
      ∀ key ∈ later.outside, ∃ record ∈ later.records, IsEnd key record := by
  obtain ⟨_, middle, own, rest⟩ := outcome_bind_ok ran
  obtain ⟨_, _, got, drained⟩ := outcome_bind_ok rest
  cases got
  have empty : Sound index owed { memo } :=
    ⟨List.Pairwise.nil, fun _ member => (by cases member), fun _ member => (by cases member),
      List.nil_subset _, remembers⟩
  have ownTaken : Sound index owed middle ∧ Taken index middle ∧
      ∀ symbol ∈ owed, middle.visited.contains symbol.serial = true := by
    refine forM_keeps (fun done draft => Sound index owed draft ∧ Taken index draft ∧
      ∀ symbol ∈ done, draft.visited.contains symbol.serial = true)
      ⟨empty, fun _ _ seen => (by cases seen), fun _ member => (by cases member)⟩ ?_ own
    intro done symbol rest before after whole holds ran
    have member : symbol ∈ index.symbols := inside (whole ▸ by simp)
    obtain ⟨sound, taken, grown, seen⟩ := holds.1.takeUp owes holds.2.1 member ran
    refine ⟨sound, taken, fun other member => ?_⟩
    rcases List.mem_append.mp member with before | new
    · have := holds.2.2 other before
      simp only [List.contains_iff_mem] at this ⊢
      exact grown this
    · cases List.mem_singleton.mp new
      exact seen
  obtain ⟨sound, taken, grown, noneQueued⟩ := ownTaken.1.drain owes ownTaken.2.1 drained
  refine ⟨sound.apart, fun record member id isEnd => ?_, sound.listed⟩
  rcases sound.ends record member id isEnd with held | known | ⟨symbol, member, same⟩
  · exact .inl held
  · exact .inr known
  · rw [noneQueued, List.nil_append] at member
    have seen := ownTaken.2.2 symbol member
    rw [List.contains_iff_mem] at seen
    have held := taken symbol (inside member) (List.contains_iff_mem.mpr (grown seen))
    exact .inl ((holds_congr same later).symm.trans held)

end Draft

end Sysml
