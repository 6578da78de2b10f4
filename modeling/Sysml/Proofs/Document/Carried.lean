import Sysml.Proofs.Document.Adding
import Sysml.Proofs.Document.Gathering
import Sysml.Proofs.Scope.Termination
import Sysml.Proofs.Workspace.Ending

/-!
# Relationships that came with ids

A symbol is taken up to its end where its references have answers, its imports can be
looked up, and its relationships can be added whatever the answers turn out to be
(`takeUp_runs`).

Where the relationships of all symbols came with ids of their own, and no element has one
of these, each relationship is added under the id it came with. So the document of a model
without libraries is made wherever references have answers (`compose_carried`).
-/

set_option autoImplicit false

namespace Sysml.Draft

open Scope

variable {index : Index} {selfContained : Bool} {provenance : String} {owner : Key}
  {symbol : Symbol} {draft : Draft} {answered : Memo → Prop} {found foundNext : Memo → List Link}
  {run next : Drafting Unit}

/-- Relationships can be added to a draft, whatever it comes to remember. -/
def Ready (index : Index) (selfContained : Bool) (provenance : String) (owner : Key)
    (found : Memo → List Link) (draft : Draft) : Prop :=
  ∀ memo, memo.Within index → draft.memo.Known memo →
    ∃ later, addLinks index selfContained provenance owner (found memo) (draft.withMemo memo) =
      .ok later

/-- A step that ends wherever the relationships that it finds can be added. -/
def Runs (index : Index) (selfContained : Bool) (provenance : String) (owner : Key)
    (found : Memo → List Link) (run : Drafting Unit) : Prop :=
  ∀ draft : Draft, draft.memo.Within index → Ready index selfContained provenance owner found draft →
    ∃ later, outcome run draft = (.ok ⟨⟩, later)

namespace Runs

theorem nothing : Runs index selfContained provenance owner (fun _ => []) (pure ⟨⟩) :=
  fun draft _ _ => ⟨draft, rfl⟩

/-- What the first step added stays as it is whatever the second one finds. -/
theorem bind (adds : Adds index selfContained provenance owner answered found run)
    (first : Runs index selfContained provenance owner found run)
    (second : Runs index selfContained provenance owner foundNext next) :
    Runs index selfContained provenance owner (fun memo => found memo ++ foundNext memo)
      (do run; next) := by
  intro draft inside ready
  have parts {memo : Memo} (within : memo.Within index) (known : draft.memo.Known memo) :
      ∃ middle later, addLinks index selfContained provenance owner (found memo)
          (draft.withMemo memo) = .ok middle ∧
        addLinks index selfContained provenance owner (foundNext memo) middle = .ok later := by
    obtain ⟨later, added⟩ := ready memo within known
    rw [addLinks_append] at added
    obtain ⟨middle, one, other⟩ := result_bind_ok added
    exact ⟨middle, later, one, other⟩
  obtain ⟨middle, ran⟩ := first draft inside fun memo within known =>
    let ⟨middle, _, one, _⟩ := parts within known
    ⟨middle, one⟩
  obtain ⟨between, grows, tells⟩ := adds.finds inside ran
  obtain ⟨later, ranNext⟩ := second middle between fun memo within known => by
    obtain ⟨start, later, one, other⟩ :=
      parts within fun query answer was => known query answer (grows query answer was)
    obtain rfl := Except.ok.inj (one.symm.trans (tells memo known).2)
    exact ⟨later, other⟩
  exact ⟨later, (outcome_bind_of_ok ran).trans ranNext⟩

theorem each {α : Type} {items : List α} {step : α → Drafting Unit} {good : α → Memo → Prop}
    {found : α → Memo → List Link}
    (adds : ∀ item, Adds index selfContained provenance owner (good item) (found item) (step item))
    (steps : ∀ item ∈ items, Runs index selfContained provenance owner (found item) (step item)) :
    Runs index selfContained provenance owner
      (fun memo => items.flatMap fun item => found item memo) (items.forM step) := by
  induction items with
  | nil => exact nothing
  | cons item rest ih =>
    exact (steps item List.mem_cons_self).bind (adds item)
      (ih fun other member => steps other (List.mem_cons_of_mem _ member))

theorem option (link? : Option Link) :
    Runs index selfContained provenance owner (fun _ => link?.toList)
      (addLink? index selfContained provenance owner link?) := by
  intro draft inside ready
  obtain ⟨later, added⟩ := ready draft.memo inside fun _ _ was => was
  exact ⟨later, (Adds.option link?).ends trivial added⟩

theorem reference (within : index.IdsWithin) {reference : Reference}
    (answers : Ends index index.Has (resolveReference index reference symbol)) :
    Runs index selfContained provenance (idOf index symbol)
      (fun memo => (reference.link? symbol (meaning index memo symbol reference)).toList)
      (addReference index selfContained provenance symbol reference) := by
  intro draft inside ready
  obtain ⟨meant, memo, searched, _, between⟩ := answers.ends inside
  have grows : draft.memo.Known memo := by
    simpa [searched] using ((resolveReference_behaves within reference symbol).grows inside).known
  have step : outcome (addReference index selfContained provenance symbol reference) draft =
      outcome (addLink? index selfContained provenance (idOf index symbol)
        (reference.link? symbol meant)) (draft.withMemo memo) := by
    refine outcome_bind_of_ok ?_
    rw [outcome_search, searched]
    rfl
  rw [step]
  refine option (reference.link? symbol meant) _ between fun other withinOther known => ?_
  have settled := (Workspace.meaning_settled within inside searched known).2
  obtain ⟨later, added⟩ := ready other withinOther
    fun query answer was => known query answer (grows query answer was)
  dsimp only at added
  rw [settled] at added
  exact ⟨later, added⟩

theorem import_ {i : Import} (resolved : resolveImport index i (some symbol.qualifiedName) =
      .ok (naming index (some symbol.qualifiedName) i))
    (linked : ∃ link?, i.link? symbol (naming index (some symbol.qualifiedName) i) = .ok link?) :
    Runs index selfContained provenance (idOf index symbol)
      (fun _ => (i.link? symbol
        (naming index (some symbol.qualifiedName) i)).toOption.join.toList)
      (addImport index selfContained provenance symbol i) := by
  obtain ⟨link?, linked⟩ := linked
  rw [linked]
  intro draft inside ready
  rw [addImport_outcome resolved linked]
  exact option link? draft inside ready

end Runs

/-- A symbol is taken up where its relationships can be added, whatever it is found to refer
to. -/
theorem takeUp_runs (within : index.IdsWithin) (inside : draft.memo.Within index)
    (fresh : draft.visited.contains symbol.serial = false)
    (answers : ∀ reference ∈ symbol.references,
      Ends index index.Has (resolveReference index reference symbol))
    (imports : ∀ i ∈ symbol.imports, resolveImport index i (some symbol.qualifiedName) =
        .ok (naming index (some symbol.qualifiedName) i) ∧
      ∃ link?, i.link? symbol (naming index (some symbol.qualifiedName) i) = .ok link?)
    (ready : Ready index selfContained provenance (idOf index symbol)
      (fun memo => links index memo symbol) (draft.begun index selfContained provenance symbol)) :
    ∃ later, outcome (takeUp index selfContained provenance symbol) draft = (.ok ⟨⟩, later) := by
  have references : Runs index selfContained provenance (idOf index symbol) _
      (symbol.references.forM (addReference index selfContained provenance symbol)) :=
    .each (Adds.reference within) fun reference has => .reference within (answers reference has)
  have others : Runs index selfContained provenance (idOf index symbol) _
      (symbol.imports.forM (addImport index selfContained provenance symbol)) :=
    .each Adds.import_ fun i has => .import_ (imports i has).1 (imports i has).2
  have both := references.bind (.each fun reference _ => Adds.reference within reference) others
  rw [takeUp_outcome, fresh]
  refine both _ ?_ fun memo withinMemo known => ?_
  · rwa [show (draft.begun index selfContained provenance symbol).memo = draft.memo from
      declare_memo ..]
  · dsimp only
    rw [← links_eq_flatMap]
    exact ready memo withinMemo known

end Sysml.Draft

/-! ## Ids that relationships came with -/

namespace Sysml

open Scope

/-- What is bound is answered, whatever is remembered. -/
theorem Symbol.Bound.answered {index : Index} {symbol : Symbol} (bound : symbol.Bound index)
    (memo : Memo) : Answered index memo symbol := by
  refine ⟨fun reference asked => ?_, fun i asked => ?_, fun i asked => ?_⟩
  · obtain ⟨target, _, isBound⟩ := bound.references reference asked
    rw [meaning, resolveReference_bound isBound]
    rfl
  · obtain ⟨target, _, isBound⟩ := bound.imports i asked
    rw [naming, resolveImport_bound isBound]
    rfl
  · obtain ⟨target, _, isBound⟩ := bound.imports i asked
    rw [naming, resolveImport_bound isBound]
    exact ⟨_, rfl⟩

/-- The record of a symbol's relationship under the id that it came with. -/
def Link.kept (link : Link) (index : Index) (symbol : Symbol) : Record :=
  link.record index symbol.provenance (Draft.idOf index symbol) (link.carried.getD (.text ""))

/-- The relationships of all symbols came with ids, which are apart from each other and from
those of the symbols. -/
structure Carries (index : Index) (memo : Memo) : Prop where
  ids : ∀ symbol ∈ index.symbols, ∀ link ∈ links index memo symbol,
    ∃ id, id ≠ "" ∧ link.carried = some (.text id)
  apart : (index.symbols.flatMap fun symbol =>
    (links index memo symbol).map (·.carried)).Nodup
  elements : ∀ symbol ∈ index.symbols, ∃ id, Draft.idOf index symbol = .text id
  strange : ∀ symbol ∈ index.symbols, ∀ link ∈ links index memo symbol,
    ∀ other ∈ index.symbols, link.carried ≠ some (Draft.idOf index other)

namespace Draft

variable {index : Index} {selfContained : Bool} {provenance : String} {owner : Key}
  {symbol : Symbol} {draft later : Draft} {memo : Memo} {taken : List Symbol}

/-- A relationship that came with an id of its own is added under it. -/
theorem linkId_carried {link : Link} {id : String} (carried : link.carried = some (.text id))
    (someId : id ≠ "") (fresh : draft.holds (.text id) = false) :
    draft.linkId link = .ok (.text id) := by
  have given : Key.given? (some (.text id)) = some (.text id) := by
    simp [Key.given?, Key.isAbsent, Value.isAbsent, Key.text, someId]
  have proper : (Key.given? link.carried).mapM Key.proper = .ok (some (.text id)) := by
    rw [carried, given]
    rfl
  have kept : (some (Key.text id)).filter (fun id => !draft.holds id) = some (.text id) := by
    rw [Option.filter_some, fresh]
    rfl
  unfold linkId
  rw [proper, ok_bind, kept]
  rfl

/-- Relationships that came with ids of their own are added under these. -/
theorem addLinks_carried {links : List Link}
    (ids : ∀ link ∈ links, ∃ id, id ≠ "" ∧ link.carried = some (.text id))
    (apart : (links.map (·.carried)).Nodup)
    (fresh : ∀ link ∈ links, ∀ id, link.carried = some id → draft.holds id = false) :
    ∃ later, addLinks index selfContained provenance owner links draft = .ok later ∧
      later.records = draft.records ++ links.map fun link =>
        link.record index provenance owner (link.carried.getD (.text "")) := by
  induction links generalizing draft with
  | nil => exact ⟨draft, rfl, (List.append_nil _).symm⟩
  | cons link rest ih =>
    obtain ⟨first, others⟩ := List.nodup_cons.mp apart
    obtain ⟨id, someId, carried⟩ := ids link List.mem_cons_self
    have given : (draft.reach index selfContained link.goal).linkId link = .ok (.text id) := by
      refine linkId_carried carried someId ?_
      rw [holds_of_records (reach_records ..)]
      exact fresh link List.mem_cons_self _ carried
    have freshAfter : ∀ other ∈ rest, ∀ otherId, other.carried = some otherId →
        ((draft.reach index selfContained link.goal).add
          (link.record index provenance owner (.text id))).holds otherId = false := by
      intro other member otherId carriedToo
      have isApart : (Key.text id == otherId) = false := by
        obtain ⟨text, _, isText⟩ := ids other (List.mem_cons_of_mem _ member)
        obtain rfl := Option.some.inj (carriedToo.symm.trans isText)
        rw [Key.text_beq, beq_eq_false_iff_ne]
        rintro rfl
        exact first (List.mem_map.mpr ⟨other, member, isText.trans carried.symm⟩)
      rw [holds_add, holds_of_records (reach_records ..),
        fresh other (List.mem_cons_of_mem _ member) otherId carriedToo]
      exact isApart
    obtain ⟨later, ran, records⟩ :=
      ih (fun other member => ids other (List.mem_cons_of_mem _ member)) others freshAfter
    refine ⟨later, ?_, ?_⟩
    · rw [addLinks, List.foldlM_cons, addLink_of_linkId given]
      exact ran
    · rw [records, add_records, reach_records, List.map_cons, carried, List.append_assoc,
        List.singleton_append, Option.getD_some]

section User

variable (user : ∀ symbol ∈ index.symbols, symbol.isLibrary = false)

include user

/-- A symbol that is no library's needs no note. -/
theorem mention_user {target : Symbol} (known : target ∈ index.symbols) (draft : Draft) :
    draft.mention index selfContained target = draft := by
  simp [mention, user target known]

theorem declare_user (symbol : Symbol) (draft : Draft) :
    (draft.declare index selfContained provenance symbol).pending = draft.pending := by
  unfold declare
  split
  · rfl
  · cases owned : ownerOf index symbol with
    | none => rfl
    | some owner =>
      dsimp only
      rw [mention_user user (ownerOf_mem owned)]
      rfl

theorem addLinks_user {links : List Link}
    (loaded : ∀ link ∈ links, ∀ target, link.goal = .loaded target → target ∈ index.symbols)
    (added : addLinks index selfContained provenance owner links draft = .ok later) :
    later.pending = draft.pending := by
  induction links generalizing draft with
  | nil =>
    cases added
    rfl
  | cons link rest ih =>
    obtain ⟨middle, first, others⟩ := addLinks_cons_ok added
    obtain ⟨id, _, rfl⟩ := addLink_ok first
    refine (ih (fun other inside => loaded other (List.mem_cons_of_mem _ inside)) others).trans ?_
    cases goal : link.goal with
    | loaded target =>
      change (draft.mention index selfContained target).pending = _
      rw [mention_user user (loaded link List.mem_cons_self target goal)]
    | outside id name => rfl

end User

/-- What holds while symbols are taken up whose relationships came with ids. -/
structure Carrying (index : Index) (memo : Memo) (taken : List Symbol) (draft : Draft) :
    Prop where
  mem : ∀ record ∈ draft.records,
    (∃ symbol ∈ taken, record = elementRecord index symbol.provenance symbol) ∨
      ∃ symbol ∈ taken, ∃ link ∈ links index memo symbol, record = link.kept index symbol
  elements : ∀ symbol ∈ taken, draft.holds (idOf index symbol) = true
  relationships : ∀ symbol ∈ taken, ∀ link ∈ links index memo symbol,
    link.kept index symbol ∈ draft.records
  answered : ∀ symbol ∈ taken, Answered index memo symbol
  visited : draft.visited = (taken.map (·.serial)).reverse
  pending : draft.pending = []

/-- What holds of a draft whatever is remembered later on. -/
structure Carried (index : Index) (taken : List Symbol) (draft : Draft) : Prop where
  remembers : draft.memo.Within index
  carrying : ∀ memo : Memo, memo.Within index → draft.memo.Known memo →
    Carrying index memo taken draft

theorem Carried.now (carried : Carried index taken draft) :
    Carrying index draft.memo taken draft :=
  carried.carrying _ carried.remembers fun _ _ was => was

section Composing

variable (within : index.IdsWithin)
  (user : ∀ symbol ∈ index.symbols, symbol.isLibrary = false)
  (checks : ∀ symbol ∈ index.symbols, symbol.Checks index)
  (linked : ∀ symbol ∈ index.symbols, ∀ i ∈ symbol.imports, ∃ link?,
    i.link? symbol (naming index (some symbol.qualifiedName) i) = .ok link?)
  (carries : ∀ memo : Memo, memo.Within index → Carries index memo)

/-- No record has the id that a relationship of a further symbol came with. -/
theorem Carrying.fresh (carries : Carries index memo)
    (carrying : Carrying index memo taken draft) {rest : List Symbol}
    (whole : index.symbols = taken ++ symbol :: rest) {link : Link}
    (linked : link ∈ links index memo symbol) {id : Key} (carried : link.carried = some id) :
    (draft.begun index selfContained symbol.provenance symbol).holds id = false := by
  have known : symbol ∈ index.symbols := by simp [whole]
  have taken_ {other : Symbol} (isTaken : other ∈ taken) : other ∈ index.symbols := by
    simp [whole, isTaken]
  obtain ⟨text, _, isText⟩ := carries.ids symbol known link linked
  obtain rfl := Option.some.inj (carried.symm.trans isText)
  have noElement {other : Symbol} (has : other ∈ index.symbols) :
      (idOf index other == Key.text text) = false := by
    obtain ⟨name, isName⟩ := carries.elements other has
    rw [isName, Key.text_beq, beq_eq_false_iff_ne]
    rintro rfl
    exact carries.strange symbol known link linked other has (carried.trans (by rw [isName]))
  have noRelationship {other : Symbol} (isTaken : other ∈ taken) {one : Link}
      (has : one ∈ links index memo other) : one.carried ≠ some (.text text) := by
    have apart := carries.apart
    rw [whole, List.flatMap_append, List.flatMap_cons] at apart
    intro same
    refine (List.nodup_append.mp apart).2.2 (some (.text text)) ?_ (some (.text text)) ?_ rfl
    · exact List.mem_flatMap_of_mem isTaken (List.mem_map.mpr ⟨one, has, same⟩)
    · exact List.mem_append_left _ (List.mem_map.mpr ⟨link, linked, carried⟩)
  refine Bool.eq_false_iff.mpr fun held => ?_
  obtain ⟨record, member, same⟩ := List.any_eq_true.mp held
  rw [show (draft.begun index selfContained symbol.provenance symbol).records = draft.records ++
    declared index draft.records symbol from declare_records index selfContained symbol _] at member
  rcases List.mem_append.mp member with old | own
  · rcases carrying.mem record old with ⟨other, isTaken, rfl⟩ | ⟨other, isTaken, one, has, rfl⟩
    · exact Bool.false_ne_true ((noElement (taken_ isTaken)).symm.trans same)
    · obtain ⟨name, _, isName⟩ := carries.ids other (taken_ isTaken) one has
      have sameText : (Key.text name == Key.text text) = true := by
        rw [← same]
        simp [Link.kept, Link.record, isName]
      rw [Key.text_beq] at sameText
      exact noRelationship isTaken has (beq_iff_eq.mp sameText ▸ isName)
  · rw [declared_eq record own] at same
    exact Bool.false_ne_true ((noElement known).symm.trans same)

/-- The relationships of a further symbol are added under the ids that they came with. -/
theorem Carrying.addLinks (carries : Carries index memo)
    (carrying : Carrying index memo taken draft) {rest : List Symbol}
    (whole : index.symbols = taken ++ symbol :: rest) :
    ∃ later, Draft.addLinks index selfContained symbol.provenance (idOf index symbol)
        (links index memo symbol)
        ((draft.begun index selfContained symbol.provenance symbol).withMemo memo) = .ok later ∧
      later.records = draft.records ++ declared index draft.records symbol ++
        (links index memo symbol).map fun link => link.kept index symbol := by
  have known : symbol ∈ index.symbols := by simp [whole]
  have begun : ((draft.begun index selfContained symbol.provenance symbol).withMemo memo).records =
      draft.records ++ declared index draft.records symbol :=
    declare_records index selfContained symbol _
  obtain ⟨later, added, records⟩ := @addLinks_carried index selfContained symbol.provenance
    (idOf index symbol) ((draft.begun index selfContained symbol.provenance symbol).withMemo memo) _
    (carries.ids symbol known) ((List.nodup_flatMap.mp carries.apart).1 symbol known)
    fun link linked id carried => carrying.fresh carries whole linked carried
  exact ⟨later, added, records.trans (by rw [begun]; rfl)⟩

/-- A further symbol was taken up with all its relationships. -/
theorem Carrying.snoc (within : index.IdsWithin) (inside : memo.Within index)
    (user : ∀ symbol ∈ index.symbols, symbol.isLibrary = false)
    (carrying : Carrying index memo taken draft) (answered : Answered index memo symbol)
    (added : Draft.addLinks index selfContained symbol.provenance (idOf index symbol)
      (links index memo symbol)
      ((draft.begun index selfContained symbol.provenance symbol).withMemo memo) =
        .ok (later.withMemo memo))
    (records : later.records = draft.records ++ declared index draft.records symbol ++
      (links index memo symbol).map fun link => link.kept index symbol) :
    Carrying index memo (taken ++ [symbol]) later := by
  refine ⟨?_, ?_, ?_, ?_, ?_, ?_⟩
  · intro record member
    rw [records] at member
    rcases List.mem_append.mp member with before | new
    · rcases List.mem_append.mp before with old | own
      · rcases carrying.mem record old with ⟨other, isTaken, same⟩ | ⟨other, isTaken, rest⟩
        · exact .inl ⟨other, List.mem_append_left _ isTaken, same⟩
        · exact .inr ⟨other, List.mem_append_left _ isTaken, rest⟩
      · exact .inl ⟨symbol, by simp, declared_eq record own⟩
    · obtain ⟨link, linked, rfl⟩ := List.mem_map.mp new
      exact .inr ⟨symbol, by simp, link, linked, rfl⟩
  · intro other isTaken
    rw [holds, records, List.any_append, List.any_append, Bool.or_eq_true, Bool.or_eq_true]
    rcases List.mem_append.mp isTaken with before | isLast
    · exact .inl (.inl (carrying.elements other before))
    · rw [List.mem_singleton.mp isLast]
      refine .inl ?_
      cases held : draft.records.any fun record => record.id == idOf index symbol with
      | true => exact .inl rfl
      | false =>
        refine .inr ?_
        rw [declared, held]
        simp [elementRecord]
  · intro other isTaken link linked
    rw [records]
    rcases List.mem_append.mp isTaken with before | isLast
    · exact List.mem_append_left _
        (List.mem_append_left _ (carrying.relationships other before link linked))
    · rw [List.mem_singleton.mp isLast] at linked ⊢
      exact List.mem_append_right _ (List.mem_map.mpr ⟨link, linked, rfl⟩)
  · intro other isTaken
    rcases List.mem_append.mp isTaken with before | isLast
    · exact carrying.answered other before
    · exact List.mem_singleton.mp isLast ▸ answered
  · refine (addLinks_keeps added).1.trans ((declare_visited ..).trans ?_)
    simp [carrying.visited]
  · refine (addLinks_user user (fun link linked target goal => ?_) added).trans
      ((declare_user user symbol _).trans carrying.pending)
    exact answered.goal_within within inside linked goal

include within user checks linked carries

/-- One more symbol is taken up with all its relationships. -/
theorem Carried.takeUp (carried : Carried index taken draft) {rest : List Symbol}
    (whole : index.symbols = taken ++ symbol :: rest)
    (serials : (index.symbols.map (·.serial)).Nodup) :
    ∃ later, outcome (takeUp index selfContained symbol.provenance symbol) draft =
        (.ok ⟨⟩, later) ∧ draft.memo.Known later.memo ∧
      Carried index (taken ++ [symbol]) later := by
  have known : symbol ∈ index.symbols := by simp [whole]
  have unseen : draft.visited.contains symbol.serial = false := by
    rw [whole, List.map_append, List.map_cons] at serials
    have isFresh : symbol.serial ∉ taken.map (·.serial) := fun seen =>
      (List.nodup_append.mp serials).2.2 _ seen _ List.mem_cons_self rfl
    rw [carried.now.visited]
    simpa using isFresh
  have resolved : ∀ i ∈ symbol.imports, resolveImport index i (some symbol.qualifiedName) =
      .ok (naming index (some symbol.qualifiedName) i) := by
    intro i has
    obtain ⟨_, named, resolved⟩ := (checks symbol known).imports i has
    rw [naming, resolved]
    rfl
  have isMemo : (draft.begun index selfContained symbol.provenance symbol).memo = draft.memo :=
    declare_memo ..
  have ready : Ready index selfContained symbol.provenance (idOf index symbol)
      (fun memo => links index memo symbol)
      (draft.begun index selfContained symbol.provenance symbol) := by
    intro memo inside knows
    obtain ⟨later, added, _⟩ := (carried.carrying memo inside (isMemo ▸ knows)).addLinks
      (carries memo inside) whole
    exact ⟨later, added⟩
  obtain ⟨later, ran⟩ := takeUp_runs within carried.remembers unseen (checks symbol known).references
    (fun i has => ⟨resolved i has, linked symbol known i has⟩) ready
  obtain ⟨remembers, grows, tells⟩ := takeUp_finds within carried.remembers unseen ran
  refine ⟨later, ran, grows, remembers, fun memo inside knows => ?_⟩
  obtain ⟨answered, added⟩ := tells memo knows
  have carrying := carried.carrying memo inside fun query answer was =>
    knows query answer (grows query answer was)
  obtain ⟨same, addedToo, records⟩ := carrying.addLinks (carries memo inside) whole
  obtain rfl := Except.ok.inj (added.symm.trans addedToo)
  exact carrying.snoc within inside user answered added records

/-- All symbols of a model without libraries are taken up with their relationships. -/
theorem compose_carried (remembers : memo.Within index)
    (serials : (index.symbols.map (·.serial)).Nodup) :
    ∃ draft, outcome (compose index selfContained index.symbols) { memo } = (.ok ⟨⟩, draft) ∧
      memo.Known draft.memo ∧ Carried index index.symbols draft := by
  have taking : ∃ draft,
      outcome (index.symbols.forM (Draft.takeUp index selfContained Record.modelProvenance))
        { memo } = (.ok ⟨⟩, draft) ∧
      memo.Known draft.memo ∧ Carried index index.symbols draft := by
    refine forM_ends (fun done draft => memo.Known draft.memo ∧ Carried index done draft) ?_ ?_
    · refine ⟨fun _ _ was => was, remembers, fun _ _ _ => ?_⟩
      exact ⟨fun _ member => (by cases member), fun _ member => (by cases member),
        fun _ member => (by cases member), fun _ member => (by cases member), rfl, rfl⟩
    · rintro done symbol rest before whole ⟨knows, carried⟩
      have provenance : symbol.provenance = Record.modelProvenance := by
        simp [Symbol.provenance, user symbol (by simp [whole])]
      rw [← provenance]
      obtain ⟨later, ran, grows, carriedOn⟩ :=
        carried.takeUp within user checks linked carries whole serials
      exact ⟨later, ran, fun query answer was => grows query answer (knows query answer was),
        carriedOn⟩
  obtain ⟨draft, ran, knows, carried⟩ := taking
  exact ⟨draft, compose_undrained ran carried.now.pending, knows, carried⟩

end Composing

/-- Where all references were answered before, all symbols are taken up with all their
relationships, and nothing else is remembered. -/
theorem compose_settled (within : index.IdsWithin) (inside : memo.Within index)
    (user : ∀ symbol ∈ index.symbols, symbol.isLibrary = false) (carries : Carries index memo)
    (answered : ∀ symbol ∈ index.symbols, Answered index memo symbol)
    (serials : (index.symbols.map (·.serial)).Nodup) :
    ∃ draft, outcome (compose index selfContained index.symbols) { memo } = (.ok ⟨⟩, draft) ∧
      Carrying index memo index.symbols draft := by
  have taking : ∃ draft,
      outcome (index.symbols.forM (Draft.takeUp index selfContained Record.modelProvenance))
        { memo } = (.ok ⟨⟩, draft) ∧
      draft.memo = memo ∧ Carrying index memo index.symbols draft := by
    refine forM_ends (fun done draft => draft.memo = memo ∧ Carrying index memo done draft) ?_ ?_
    · exact ⟨rfl, fun _ member => (by cases member), fun _ member => (by cases member),
        fun _ member => (by cases member), fun _ member => (by cases member), rfl, rfl⟩
    · rintro done symbol rest before whole ⟨isMemo, carrying⟩
      have known : symbol ∈ index.symbols := by simp [whole]
      have provenance : symbol.provenance = Record.modelProvenance := by
        simp [Symbol.provenance, user symbol known]
      have unseen : before.visited.contains symbol.serial = false := by
        have isFresh : symbol.serial ∉ done.map (·.serial) := by
          rw [whole, List.map_append, List.map_cons] at serials
          exact fun seen => (List.nodup_append.mp serials).2.2 _ seen _ List.mem_cons_self rfl
        rw [carrying.visited]
        simpa using isFresh
      have begun : (before.begun index selfContained symbol.provenance symbol).withMemo memo =
          before.begun index selfContained symbol.provenance symbol :=
        withMemo_eq ((declare_memo ..).trans isMemo)
      obtain ⟨later, added, records⟩ := carrying.addLinks carries whole
      have kept : later.memo = memo := (addLinks_keeps added).2
      refine ⟨later, ?_, kept, ?_⟩
      · rw [← provenance]
        exact takeUp_ends within unseen (isMemo.symm ▸ answered symbol known)
          (isMemo.symm ▸ begun ▸ added)
      · rw [← withMemo_eq kept] at added
        exact carrying.snoc within inside user (answered symbol known) added records
  obtain ⟨draft, ran, _, carrying⟩ := taking
  exact ⟨draft, compose_undrained ran carrying.pending, carrying⟩

end Draft

end Sysml
