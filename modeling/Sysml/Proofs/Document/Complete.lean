import Mathlib.Algebra.Order.BigOperators.Group.List
import Mathlib.Algebra.Order.Group.Nat
import Mathlib.Data.List.Induction
import Sysml.Proofs.Document.Adding

/-!
# Complete documents

A document of symbols that were read from texts, without inlined elements: where ids
are apart, it has one element for each id, and one relationship for each reference
that means something and each import that names something.
-/

set_option autoImplicit false

/-!
## What a document is composed of

A symbol that is taken up adds its record, unless one with its id is there, and then
one record for each of its relationships. So the records of a draft are told by the
symbols that were taken up.
-/

namespace Sysml

open Scope

def Symbol.provenance (symbol : Symbol) : String :=
  if symbol.isLibrary then Record.inlinedProvenance else Record.modelProvenance

/-- The ids that a relationship may have, where there are at most so many records:
the one it came with, or one that is minted for it. -/
def Link.Names (link : Link) (records : Nat) (id : Key) : Prop :=
  Key.given? link.carried = some id ∨
    ∃ key ∈ link.keys records, id = .text (Document.mintId key.1 key.2)

/-- A record is that of a symbol's relationship, under one of the ids it may have. -/
def Link.Stands (index : Index) (symbol : Symbol) (link : Link) (record : Record) : Prop :=
  ∃ id, link.Names (totalWeight index.symbols) id ∧
    record = link.record index symbol.provenance (Draft.idOf index symbol) id

/-- The record that a symbol adds to others, unless one of them has its id. -/
def declared (index : Index) (records : List Record) (symbol : Symbol) : List Record :=
  if records.any fun record => record.id == Draft.idOf index symbol then []
  else [Draft.elementRecord index symbol.provenance symbol]

inductive Composed (index : Index) (memo : Memo) : List Symbol → List Record → Prop
  | nil : Composed index memo [] []
  | snoc {taken : List Symbol} {records added : List Record} {symbol : Symbol}
      (before : Composed index memo taken records)
      (related : List.Forall₂ (Link.Stands index symbol) (links index memo symbol) added) :
      Composed index memo (taken ++ [symbol])
        (records ++ declared index records symbol ++ added)

theorem totalWeight_append (left right : List Symbol) :
    totalWeight (left ++ right) = totalWeight left + totalWeight right := by
  simp [totalWeight]

theorem totalWeight_singleton (symbol : Symbol) : totalWeight [symbol] = symbol.weight := by
  simp [totalWeight]

theorem links_length (index : Index) (memo : Memo) (symbol : Symbol) :
    (links index memo symbol).length ≤ symbol.references.length + symbol.imports.length := by
  rw [links, List.length_append]
  exact Nat.add_le_add (List.length_filterMap_le ..) (List.length_filterMap_le ..)

theorem declared_length (index : Index) (records : List Record) (symbol : Symbol) :
    (declared index records symbol).length ≤ 1 := by
  unfold declared
  split <;> simp

/-- No symbol has more records than its weight. -/
theorem Composed.length_le {index : Index} {memo : Memo} {taken : List Symbol}
    {records : List Record} (composed : Composed index memo taken records) :
    records.length ≤ totalWeight taken := by
  induction composed with
  | nil => exact Nat.le_refl _
  | @snoc taken records added symbol before related ih =>
    have few := links_length index memo symbol
    have one := declared_length index records symbol
    rw [related.length_eq] at few
    rw [totalWeight_append, totalWeight_singleton, Symbol.weight]
    simp only [List.length_append]
    omega

section Records

variable {index : Index} {memo : Memo} {taken : List Symbol} {records : List Record}
  {record : Record} {symbol : Symbol}

theorem elementRecord_isRelationship (index : Index) (provenance : String) (symbol : Symbol) :
    (Draft.elementRecord index provenance symbol).isRelationship = false := by
  change (Record.isRelationshipKind symbol.kind.metaclass || false) = false
  rw [SymbolKind.metaclass_no_relationship]
  rfl

theorem Link.Stands.isRelationship {link : Link} (stands : link.Stands index symbol record) :
    record.isRelationship = true := by
  obtain ⟨id, _, rfl⟩ := stands
  exact Bool.or_true _

theorem declared_eq (record : Record) (member : record ∈ declared index records symbol) :
    record = Draft.elementRecord index symbol.provenance symbol := by
  unfold declared at member
  split at member
  · cases member
  · exact List.mem_singleton.mp member

/-- A record is that of a symbol or that of a symbol's relationship. -/
theorem Composed.mem (composed : Composed index memo taken records) (member : record ∈ records) :
    (∃ symbol ∈ taken, record = Draft.elementRecord index symbol.provenance symbol) ∨
      ∃ symbol ∈ taken, ∃ link ∈ links index memo symbol, link.Stands index symbol record := by
  induction composed with
  | nil => cases member
  | @snoc taken records added symbol before related ih =>
    have isLast : symbol ∈ taken ++ [symbol] := by simp
    rcases List.mem_append.mp member with earlier | new
    · rcases List.mem_append.mp earlier with old | own
      · rcases ih old with ⟨other, inside, same⟩ | ⟨other, inside, stands⟩
        · exact .inl ⟨other, List.mem_append_left _ inside, same⟩
        · exact .inr ⟨other, List.mem_append_left _ inside, stands⟩
      · exact .inl ⟨symbol, isLast, declared_eq record own⟩
    · obtain ⟨link, linked, stands⟩ := exists_related related new
      exact .inr ⟨symbol, isLast, link, linked, stands⟩

end Records

namespace Draft

variable {index : Index} {selfContained : Bool} {provenance : String} {owner : Key}
  {symbol : Symbol} {draft later : Draft} {memo : Memo}

/-- A fresh id is minted at one of the tries. -/
theorem freshId?_minted {kind key : String} {tries ordinal : Nat} {id : Key}
    (minted : draft.freshId? kind key tries ordinal = some id) :
    ∃ found ∈ List.range' ordinal tries, id = mintedId kind key found := by
  induction tries generalizing ordinal with
  | zero => cases minted
  | succ tries ih =>
    simp only [freshId?] at minted
    rw [List.range'_succ]
    split at minted
    · obtain ⟨found, inside, same⟩ := ih minted
      exact ⟨found, List.mem_cons_of_mem _ inside, same⟩
    · cases minted
      exact ⟨ordinal, List.mem_cons_self, rfl⟩

theorem linkId_names {link : Link} {id : Key} {most : Nat} (few : draft.records.length ≤ most)
    (given : draft.linkId link = .ok id) : link.Names most id := by
  obtain ⟨carried, proper, given⟩ := result_bind_ok given
  split at given
  · next kept =>
    cases given
    refine .inl ?_
    have same := (Option.filter_eq_some_iff.mp kept).1
    cases came : Key.given? link.carried with
    | none => rw [came] at proper; cases proper; cases same
    | some key =>
      rw [came] at proper
      obtain ⟨_, checked, wrapped⟩ := result_map_ok proper
      unfold Key.proper at checked
      split at checked <;> cases checked
      rw [wrapped, same]
  · split at given
    · next minted =>
      cases given
      obtain ⟨found, inside, rfl⟩ := freshId?_minted minted
      refine .inr ⟨(link.kind, numberedKey link.key found), ?_, rfl⟩
      refine List.mem_map.mpr ⟨found, ?_, rfl⟩
      rw [List.mem_range'_1] at inside ⊢
      omega
    · cases given

/-- While there are few records, one of the ids that may be minted for a relationship is no
record's. -/
theorem linkId_exists {link : Link} {most : Nat} (few : draft.records.length ≤ most)
    (apart : MintsApart (link.keys most))
    (proper : ∀ id, Key.given? link.carried = some id → id.isProper = true) :
    ∃ id, draft.linkId link = .ok id := by
  have listed (ordinal : Nat) (tried : ordinal ∈ List.range' 1 (draft.records.length + 1)) :
      (link.kind, numberedKey link.key ordinal) ∈ link.keys most := by
    refine List.mem_map.mpr ⟨ordinal, ?_, rfl⟩
    rw [List.mem_range'_1] at tried ⊢
    omega
  have distinct (one : Nat) (first : one ∈ List.range' 1 (draft.records.length + 1))
      (another : Nat) (second : another ∈ List.range' 1 (draft.records.length + 1))
      (same : Document.mintId link.kind (numberedKey link.key one) =
        Document.mintId link.kind (numberedKey link.key another)) : one = another :=
    numberedKey_inj (congrArg Prod.snd (apart _ (listed one first) _ (listed another second) same))
  obtain ⟨found, _, fresh⟩ := freshId?_some (Nat.lt_succ_self draft.records.length) distinct
  have checked : (Key.given? link.carried).mapM Key.proper = .ok (Key.given? link.carried) := by
    cases given : Key.given? link.carried with
    | none => rfl
    | some id =>
      have isProper : id.proper = .ok id := if_pos (proper id given)
      rw [Option.mapM_some, isProper]
      rfl
  unfold linkId
  rw [checked, ok_bind]
  split
  · exact ⟨_, rfl⟩
  · rw [fresh]
    exact ⟨_, rfl⟩

/-- What is added for relationships: a record for each. -/
theorem addLinks_records {links : List Link} {most : Nat}
    (few : draft.records.length + links.length ≤ most)
    (added : addLinks index selfContained provenance owner links draft = .ok later) :
    ∃ records, later.records = draft.records ++ records ∧
      List.Forall₂ (fun link record => ∃ id, Link.Names link most id ∧
        record = link.record index provenance owner id) links records := by
  induction links generalizing draft with
  | nil =>
    cases added
    exact ⟨[], (List.append_nil _).symm, .nil⟩
  | cons link rest ih =>
    obtain ⟨middle, first, others⟩ := addLinks_cons_ok added
    obtain ⟨id, given, rfl⟩ := addLink_ok first
    have fits : (draft.reach index selfContained link.goal).records.length ≤ most := by
      rw [reach_records]
      omega
    obtain ⟨records, whole, related⟩ := ih (by simp at few ⊢; omega) others
    exact ⟨link.record index provenance owner id :: records, by simp [whole],
      .cons ⟨id, linkId_names fits given, rfl⟩ related⟩

theorem declare_records (index : Index) (selfContained : Bool) (symbol : Symbol) (draft : Draft) :
    (draft.declare index selfContained symbol.provenance symbol).records =
      draft.records ++ declared index draft.records symbol := by
  unfold declare declared holds
  split
  · rw [List.append_nil]
  · cases ownerOf index symbol with
    | none => rfl
    | some owner => exact mention_records ..

/-- One more symbol is taken up. -/
theorem composed_addLinks {taken : List Symbol} {start : Draft}
    (composed : Composed index memo taken draft.records)
    (started : start.records = (draft.begun index selfContained symbol.provenance symbol).records)
    (few : totalWeight (taken ++ [symbol]) ≤ totalWeight index.symbols)
    (added : addLinks index selfContained symbol.provenance (idOf index symbol)
      (links index memo symbol) start = .ok later) :
    Composed index memo (taken ++ [symbol]) later.records := by
  have begun : start.records = draft.records ++ declared index draft.records symbol :=
    started.trans (declare_records index selfContained symbol _)
  have room : start.records.length + (links index memo symbol).length ≤
      totalWeight index.symbols := by
    have before := composed.length_le
    have one := declared_length index draft.records symbol
    have many := links_length index memo symbol
    rw [totalWeight_append, totalWeight_singleton, Symbol.weight] at few
    rw [begun, List.length_append]
    omega
  obtain ⟨records, whole, related⟩ := addLinks_records room added
  rw [whole, begun]
  exact composed.snoc related

end Draft

end Sysml

namespace Sysml

open Scope

/-- All symbols are as a text gives them. -/
def Scope.Index.Written (index : Index) : Prop :=
  ∀ symbol ∈ index.symbols, ∃ file isLibrary, symbol.Written file isLibrary

section Links

variable {index : Index} {memo : Memo} {symbol : Symbol} {link : Link}

theorem mem_links (member : link ∈ links index memo symbol) :
    (∃ reference ∈ symbol.references,
      reference.link? symbol (meaning index memo symbol reference) = some link) ∨
    ∃ i ∈ symbol.imports,
      i.link? symbol (naming index (some symbol.qualifiedName) i) = .ok (some link) := by
  rcases List.mem_append.mp member with first | second
  · obtain ⟨reference, inside, linked⟩ := List.mem_filterMap.mp first
    exact .inl ⟨reference, inside, linked⟩
  · obtain ⟨i, inside, linked⟩ := List.mem_filterMap.mp second
    refine .inr ⟨i, inside, ?_⟩
    cases made : i.link? symbol (naming index (some symbol.qualifiedName) i) with
    | error failure => rw [made] at linked; cases linked
    | ok link? =>
      rw [made] at linked
      exact congrArg Except.ok linked

theorem links_kind (member : link ∈ links index memo symbol) :
    Record.isRelationshipKind link.kind = true := by
  rcases mem_links member with ⟨reference, _, linked⟩ | ⟨i, _, linked⟩
  · exact Reference.link?_kind linked
  · exact Import.link?_kind linked

theorem Reference.Written.link? {reference : Reference} (written : reference.Written)
    (meant : Option Symbol) :
    reference.link? symbol meant = meant.map fun target =>
      { kind := reference.kind.metaclass, goal := .loaded target, carried := none
        key := symbol.qualifiedName.display ++ "->" ++ target.qualifiedName.display } := by
  cases meant with
  | some target => simp [Reference.link?, written.elementId]
  | none => simp [Reference.link?, written.targetId, Key.given?]

theorem Import.Written.link? {i : Import} (written : i.Written) (named : Option Symbol) :
    i.link? symbol named = .ok (named.map fun target =>
      { kind :=
          if i.isNamespace || i.isRecursive then Record.namespaceImport
          else Record.membershipImport
        goal := .loaded target, name := target.name.value, carried := none
        properties := [(.text "isRecursive", .bool i.isRecursive),
          (.text "visibility", .text i.visibility)]
        key := symbol.qualifiedName.display ++ "->import:" ++ i.text.display }) := by
  cases named with
  | some target => simp [Import.link?, written.elementId]
  | none => simp [Import.link?, written.targetId, Key.given?]

/-- The relationships of a symbol that was read from a text have no ids yet. -/
theorem Symbol.Written.links {file : String} {isLibrary : Bool}
    (written : symbol.Written file isLibrary) (member : link ∈ links index memo symbol) :
    link.carried = none ∧ ∃ target, link.goal = .loaded target := by
  rcases mem_links member with ⟨reference, inside, linked⟩ | ⟨i, inside, linked⟩
  · rw [(written.references reference inside).link?] at linked
    obtain ⟨target, _, rfl⟩ := Option.map_eq_some_iff.mp linked
    exact ⟨rfl, target, rfl⟩
  · rw [(written.imports i inside).link?] at linked
    obtain ⟨target, _, rfl⟩ := Option.map_eq_some_iff.mp (Except.ok.inj linked)
    exact ⟨rfl, target, rfl⟩

end Links

section Ids

variable {index : Index} {memo : Memo} {symbol other : Symbol} {link : Link}

theorem elementKey_mem (inside : symbol ∈ index.symbols) :
    elementKey symbol ∈ mintKeys index memo :=
  List.mem_append_left _ (List.mem_map_of_mem inside)

theorem linkKey_mem (inside : symbol ∈ index.symbols) (linked : link ∈ links index memo symbol)
    {key : String × String} (listed : key ∈ link.keys (totalWeight index.symbols)) :
    key ∈ mintKeys index memo :=
  List.mem_append_right _
    (List.mem_flatMap_of_mem inside (List.mem_flatMap_of_mem linked listed))

theorem canonical_mem (inside : symbol ∈ index.symbols) :
    Draft.canonical index symbol ∈ index.symbols := by
  unfold Draft.canonical
  split
  · split
    · next first looked =>
      split
      · exact Scope.Index.has_lookup index _ first looked
      · exact inside
    · exact inside
  · exact inside

/-- The id of a symbol that was read from a text is minted. -/
theorem Scope.Index.Written.idOf (written : index.Written) (inside : symbol ∈ index.symbols) :
    Draft.idOf index symbol =
      .text (Document.mintId (elementKey (Draft.canonical index symbol)).1
        (elementKey (Draft.canonical index symbol)).2) := by
  obtain ⟨file, isLibrary, isWritten⟩ := written _ (canonical_mem inside)
  simp [Draft.idOf, isWritten.elementId, Key.given?, elementKey]

variable (apart : MintsApart (mintKeys index memo)) (written : index.Written)

include apart written

/-- The id of a relationship is no element's. -/
theorem Link.Names.no_element (inside : symbol ∈ index.symbols)
    (linked : link ∈ links index memo symbol) {id : Key}
    (names : link.Names (totalWeight index.symbols) id) (known : other ∈ index.symbols) :
    (id == Draft.idOf index other) = false := by
  obtain ⟨file, isLibrary, isWritten⟩ := written symbol inside
  rcases names with carried | ⟨key, listed, rfl⟩
  · rw [(isWritten.links linked).1] at carried
    cases carried
  · rw [written.idOf known, Bool.eq_false_iff]
    intro same
    have minted := Key.Code.text.inj ((Key.beq_iff _ _).mp same)
    have keys := apart key (linkKey_mem inside linked listed) _
      (elementKey_mem (canonical_mem known)) minted
    obtain ⟨ordinal, _, rfl⟩ := List.mem_map.mp listed
    have kinds := congrArg Prod.fst keys
    have isKind := links_kind linked
    rw [show link.kind = _ from kinds] at isKind
    exact absurd isKind (by simp [elementKey, SymbolKind.metaclass_no_relationship])

/-- While a draft is small enough an id is found for each relationship. -/
theorem linkId_ends (inside : symbol ∈ index.symbols) (linked : link ∈ links index memo symbol)
    {draft : Draft} (few : draft.records.length ≤ totalWeight index.symbols) :
    ∃ id, draft.linkId link = .ok id := by
  obtain ⟨file, isLibrary, isWritten⟩ := written symbol inside
  refine Draft.linkId_exists few (apart.mono fun key => linkKey_mem inside linked) ?_
  intro id given
  rw [(isWritten.links linked).1] at given
  cases given

end Ids

namespace Draft

section Queue

variable {index : Index} {provenance : String} {owner : Key} {draft later : Draft}

/-- Nothing is queued for a document without inlined elements. -/
theorem mention_pending (target : Symbol) (draft : Draft) :
    (draft.mention index false target).pending = draft.pending := by
  unfold mention
  split <;> rfl

theorem declare_pending (symbol : Symbol) (draft : Draft) :
    (draft.declare index false provenance symbol).pending = draft.pending := by
  unfold declare
  split
  · rfl
  · cases ownerOf index symbol with
    | none => rfl
    | some owner => exact mention_pending ..

theorem addLinks_pending {links : List Link}
    (added : addLinks index false provenance owner links draft = .ok later) :
    later.pending = draft.pending := by
  induction links generalizing draft with
  | nil =>
    cases added
    rfl
  | cons link rest ih =>
    obtain ⟨middle, first, others⟩ := addLinks_cons_ok added
    obtain ⟨id, _, rfl⟩ := addLink_ok first
    refine (ih others).trans ?_
    cases link.goal with
    | loaded target => exact mention_pending ..
    | outside id name => rfl

end Queue

section Composing

variable {index : Index} {memo : Memo} (apart : MintsApart (mintKeys index memo))
  (written : index.Written)

include apart written

theorem addLinks_ends {selfContained : Bool} {provenance : String} {owner : Key}
    {symbol : Symbol} (inside : symbol ∈ index.symbols) {draft : Draft} {added : List Link}
    (linked : added ⊆ links index memo symbol)
    (few : draft.records.length + added.length ≤ totalWeight index.symbols) :
    ∃ later, addLinks index selfContained provenance owner added draft = .ok later := by
  induction added generalizing draft with
  | nil => exact ⟨draft, rfl⟩
  | cons link rest ih =>
    rw [List.length_cons] at few
    have reached : (draft.reach index selfContained link.goal).records.length ≤
        totalWeight index.symbols := by
      rw [reach_records]
      omega
    obtain ⟨id, given⟩ := linkId_ends apart written inside (linked List.mem_cons_self) reached
    have room : ((draft.reach index selfContained link.goal).add
        (link.record index provenance owner id)).records.length + rest.length ≤
          totalWeight index.symbols := by
      simp
      omega
    obtain ⟨later, others⟩ := ih (fun other member => linked (List.mem_cons_of_mem _ member)) room
    refine ⟨later, ?_⟩
    rw [addLinks, List.foldlM_cons, addLink_of_linkId given]
    exact others

variable (within : index.IdsWithin)

include within

/-- What holds while a model's own symbols are taken up. -/
structure Underway (index : Index) (memo : Memo) (taken : List Symbol) (draft : Draft) : Prop where
  composed : Composed index memo taken draft.records
  memo : draft.memo = memo
  visited : draft.visited = (taken.map (·.serial)).reverse
  pending : draft.pending = []

theorem Underway.takeUp {taken : List Symbol} {symbol : Symbol} {draft : Draft}
    (underway : Underway index memo taken draft) (inside : symbol ∈ index.symbols)
    (fresh : symbol.serial ∉ taken.map (·.serial))
    (few : totalWeight (taken ++ [symbol]) ≤ totalWeight index.symbols)
    (answered : Answered index memo symbol) :
    ∃ later, outcome (takeUp index false symbol.provenance symbol) draft = (.ok ⟨⟩, later) ∧
      Underway index memo (taken ++ [symbol]) later := by
  have unseen : draft.visited.contains symbol.serial = false := by
    rw [underway.visited]
    simpa using fresh
  have begun : (draft.begun index false symbol.provenance symbol).records =
      draft.records ++ declared index draft.records symbol :=
    declare_records index false symbol _
  have room : (draft.begun index false symbol.provenance symbol).records.length +
      (links index memo symbol).length ≤ totalWeight index.symbols := by
    have before := underway.composed.length_le
    have one := declared_length index draft.records symbol
    have many := links_length index memo symbol
    rw [totalWeight_append, totalWeight_singleton, Symbol.weight] at few
    rw [begun, List.length_append]
    omega
  obtain ⟨later, added⟩ := addLinks_ends apart written inside (List.Subset.refl _) room
  obtain ⟨visited, memo⟩ := addLinks_keeps added
  refine ⟨later, takeUp_ends within unseen (underway.memo.symm ▸ answered)
    (underway.memo.symm ▸ added), ?_, ?_, ?_, ?_⟩
  · exact composed_addLinks underway.composed rfl few added
  · exact memo.trans ((declare_memo ..).trans underway.memo)
  · rw [visited]
    refine (declare_visited ..).trans ?_
    simp [underway.visited]
  · exact (addLinks_pending added).trans ((declare_pending ..).trans underway.pending)

/-- Composing a document without inlined elements ends well. -/
theorem compose_ends {own : List Symbol} (listed : own.Sublist index.symbols)
    (serials : (index.symbols.map (·.serial)).Nodup)
    (user : ∀ symbol ∈ own, symbol.isLibrary = false)
    (answered : ∀ symbol ∈ own, Answered index memo symbol) :
    ∃ draft, outcome (compose index false own) { memo } = (.ok ⟨⟩, draft) ∧
      Underway index memo own draft := by
  have ownSerials : (own.map (·.serial)).Nodup := serials.sublist (listed.map _)
  have taking : ∃ draft,
      outcome (own.forM (takeUp index false Record.modelProvenance)) { memo } =
        (.ok ⟨⟩, draft) ∧ Underway index memo own draft := by
    refine forM_ends (Underway index memo) ⟨.nil, rfl, rfl, rfl⟩ ?_
    intro done symbol rest before whole underway
    have member : symbol ∈ own := by simp [whole]
    have provenance : symbol.provenance = Record.modelProvenance := by
      simp [Symbol.provenance, user symbol member]
    have fresh : symbol.serial ∉ done.map (·.serial) := by
      intro seen
      rw [whole, List.map_append, List.map_cons] at ownSerials
      exact (List.nodup_append.mp ownSerials).2.2 _ seen _ List.mem_cons_self rfl
    have few : totalWeight (done ++ [symbol]) ≤ totalWeight index.symbols := by
      have part : (done ++ [symbol]).Sublist own := by
        rw [whole]
        exact (List.singleton_sublist.mpr List.mem_cons_self).append_left done
      exact ((part.trans listed).map Symbol.weight).sum_le_sum fun _ _ => Nat.zero_le _
    rw [← provenance]
    exact underway.takeUp apart written within (listed.subset member) fresh few
      (answered symbol member)
  obtain ⟨draft, taken, underway⟩ := taking
  exact ⟨draft, compose_undrained taken underway.pending, underway⟩

end Composing

end Draft

def firstOfEach (index : Index) (symbols : List Symbol) : List Symbol :=
  symbols.foldl (fun kept symbol =>
    if kept.any fun first => Draft.idOf index first == Draft.idOf index symbol then kept
    else kept ++ [symbol]) []

theorem firstOfEach_snoc (index : Index) (symbols : List Symbol) (symbol : Symbol) :
    firstOfEach index (symbols ++ [symbol]) =
      if (firstOfEach index symbols).any fun first =>
          Draft.idOf index first == Draft.idOf index symbol then firstOfEach index symbols
      else firstOfEach index symbols ++ [symbol] := by
  simp [firstOfEach, List.foldl_append]

theorem firstOfEach_subset (index : Index) (symbols : List Symbol) :
    firstOfEach index symbols ⊆ symbols := by
  induction symbols using List.reverseRecOn with
  | nil => exact List.Subset.refl _
  | append_singleton symbols symbol ih =>
    rw [firstOfEach_snoc]
    split
    · exact fun _ member => List.mem_append_left _ (ih member)
    · intro other member
      rcases List.mem_append.mp member with first | last
      · exact List.mem_append_left _ (ih first)
      · exact List.mem_append_right _ last

/-- Each symbol has the id of one that is kept. -/
theorem firstOfEach_covers (index : Index) {symbols : List Symbol} {symbol : Symbol}
    (member : symbol ∈ symbols) :
    ∃ first ∈ firstOfEach index symbols,
      (Draft.idOf index first == Draft.idOf index symbol) = true := by
  induction symbols using List.reverseRecOn with
  | nil => cases member
  | append_singleton symbols last ih =>
    rw [firstOfEach_snoc]
    rcases List.mem_append.mp member with earlier | isLast
    · obtain ⟨first, kept, same⟩ := ih earlier
      split
      · exact ⟨first, kept, same⟩
      · exact ⟨first, List.mem_append_left _ kept, same⟩
    · cases List.mem_singleton.mp isLast
      split
      · next held => exact List.any_eq_true.mp held
      · exact ⟨symbol, List.mem_append_right _ List.mem_cons_self, BEq.rfl⟩

/-- No two of the symbols that are kept share an id. -/
theorem firstOfEach_apart (index : Index) (symbols : List Symbol) :
    (firstOfEach index symbols).Pairwise fun one other =>
      (Draft.idOf index one == Draft.idOf index other) = false := by
  induction symbols using List.reverseRecOn with
  | nil => exact .nil
  | append_singleton symbols symbol ih =>
    rw [firstOfEach_snoc]
    split
    · exact ih
    · next fresh =>
      refine List.pairwise_append.mpr ⟨ih, List.pairwise_singleton .., ?_⟩
      intro one kept other last
      cases List.mem_singleton.mp last
      exact Bool.eq_false_iff.mpr fun same => fresh (List.any_eq_true.mpr ⟨one, kept, same⟩)

def Record.anonymous (record : Record) : Record :=
  { record with id := .text "" }

section Shape

variable {index : Index} {memo : Memo} {taken : List Symbol} {records : List Record}

/-- Where ids are apart there is one element for each id. -/
theorem Composed.elements (apart : MintsApart (mintKeys index memo)) (written : index.Written)
    (composed : Composed index memo taken records) (inside : taken ⊆ index.symbols) :
    (records.filter fun record => !record.isRelationship) =
      (firstOfEach index taken).map fun symbol =>
        Draft.elementRecord index symbol.provenance symbol := by
  induction composed with
  | nil => rfl
  | @snoc taken records added symbol before related ih =>
    have insideBefore : taken ⊆ index.symbols := fun other member =>
      inside (List.mem_append_left _ member)
    have known : symbol ∈ index.symbols := inside (by simp)
    have elements := ih insideBefore
    have noElement : (added.filter fun record => !record.isRelationship) = [] := by
      refine List.filter_eq_nil_iff.mpr fun record member => ?_
      obtain ⟨link, _, stands⟩ := exists_related related member
      simp [stands.isRelationship]
    have allElements : ((declared index records symbol).filter
        fun record => !record.isRelationship) = declared index records symbol := by
      refine List.filter_eq_self.mpr fun record member => ?_
      rw [declared_eq record member, elementRecord_isRelationship]
      rfl
    -- an id that a record has is an element's, because no relationship has it
    have held : (records.any fun record => record.id == Draft.idOf index symbol) =
        (firstOfEach index taken).any fun first =>
          Draft.idOf index first == Draft.idOf index symbol := by
      rw [Bool.eq_iff_iff, List.any_eq_true, List.any_eq_true]
      constructor
      · rintro ⟨record, member, same⟩
        rcases before.mem member with ⟨other, isTaken, rfl⟩ | ⟨other, isTaken, link, linked, stands⟩
        · obtain ⟨first, kept, alike⟩ := firstOfEach_covers index isTaken
          exact ⟨first, kept, BEq.trans alike same⟩
        · obtain ⟨id, names, rfl⟩ := stands
          have isApart := names.no_element apart written (insideBefore isTaken) linked known
          exact absurd (isApart.symm.trans same) Bool.false_ne_true
      · rintro ⟨first, kept, same⟩
        refine ⟨Draft.elementRecord index first.provenance first, ?_, same⟩
        have listed : Draft.elementRecord index first.provenance first ∈
            records.filter fun record => !record.isRelationship := by
          rw [elements]
          exact List.mem_map.mpr ⟨first, kept, rfl⟩
        exact (List.mem_filter.mp listed).1
    rw [List.filter_append, List.filter_append, noElement, allElements, elements, List.append_nil,
      firstOfEach_snoc, declared, held]
    split
    · rw [List.append_nil]
    · rw [List.map_append]
      rfl

theorem anonymous_of_stands {symbol : Symbol} {found : List Link} {added : List Record}
    (related : List.Forall₂ (Link.Stands index symbol) found added) :
    added.map Record.anonymous = found.map fun link =>
      link.record index symbol.provenance (Draft.idOf index symbol) (.text "") := by
  induction related with
  | nil => rfl
  | cons first _ ih =>
    obtain ⟨id, _, rfl⟩ := first
    rw [List.map_cons, List.map_cons, ih]
    rfl

/-- There is one relationship for each that the symbols have. -/
theorem Composed.relationships (composed : Composed index memo taken records) :
    (records.filter (·.isRelationship)).map Record.anonymous =
      taken.flatMap fun symbol => (links index memo symbol).map fun link =>
        link.record index symbol.provenance (Draft.idOf index symbol) (.text "") := by
  induction composed with
  | nil => rfl
  | @snoc taken records added symbol before related ih =>
    have none_ : (declared index records symbol).filter (·.isRelationship) = [] := by
      refine List.filter_eq_nil_iff.mpr fun record member => ?_
      rw [declared_eq record member, elementRecord_isRelationship]
      exact Bool.false_ne_true
    have all : added.filter (·.isRelationship) = added := by
      refine List.filter_eq_self.mpr fun record member => ?_
      obtain ⟨link, _, stands⟩ := exists_related related member
      exact stands.isRelationship
    rw [List.filter_append, List.filter_append, none_, all, List.append_nil, List.map_append, ih,
      anonymous_of_stands related, List.flatMap_append, List.flatMap_singleton]

end Shape

end Sysml

/-!
## Ids and qualified names

Where only packages are declared in pieces and ids are apart, two symbols that were
read from texts have one id just when they have one qualified name.
-/

namespace Sysml

open Scope

theorem Document.mintId_ne_empty (kind name : String) : Document.mintId kind name ≠ "" := by
  have written (bytes : List UInt8) (some_ : bytes ≠ []) : Digest.uuidText bytes ≠ "" := by
    obtain ⟨byte, rest, rfl⟩ := List.exists_cons_of_ne_nil some_
    intro empty
    have chars := congrArg String.toList empty
    simp [Digest.uuidText, Text.hexDigits] at chars
  refine written _ fun none_ => ?_
  have lengths := congrArg List.length none_
  simp [Digest.stampVersion, Digest.Sha1.digest_length] at lengths

/-- Only packages of the model's own are declared in pieces. -/
def Scope.Index.NamesApart (index : Index) : Prop :=
  ∀ one ∈ index.symbols, ∀ other ∈ index.symbols, one.qualifiedName = other.qualifiedName →
    one = other ∨
      one.kind.isPackage = true ∧ other.kind.isPackage = true ∧
        one.isLibrary = false ∧ other.isLibrary = false

def Scope.Index.PackagesShare (index : Index) : Prop :=
  ∀ one ∈ index.symbols, ∀ other ∈ index.symbols, one.qualifiedName = other.qualifiedName →
    one = other ∨ one.kind.isPackage = true ∧ other.kind.isPackage = true

theorem Scope.Index.NamesApart.packagesShare {index : Index} (names : index.NamesApart) :
    index.PackagesShare :=
  fun one first other second same => (names one first other second same).imp_right
    fun ⟨isPackage, isPackageToo, _⟩ => ⟨isPackage, isPackageToo⟩

section Names

variable {index : Index} {symbol one other : Symbol}

theorem Scope.Index.Written.text (written : index.Written) (inside : symbol ∈ index.symbols) :
    ∃ name, symbol.qualifiedName = .text name := by
  obtain ⟨_, _, isWritten⟩ := written symbol inside
  exact isWritten.qualifiedName

/-- Qualified names that were read from texts are equal only if they are the same. -/
theorem Scope.Index.Written.name_beq (written : index.Written) (first : one ∈ index.symbols)
    (second : other ∈ index.symbols) :
    (one.qualifiedName == other.qualifiedName) = true ↔
      one.qualifiedName = other.qualifiedName := by
  obtain ⟨name, same⟩ := written.text first
  obtain ⟨otherName, sameOther⟩ := written.text second
  rw [same, sameOther, Key.text_beq]
  constructor
  · intro equal
    rw [beq_iff_eq.mp equal]
  · intro equal
    rw [Key.text_inj equal]
    exact BEq.rfl

/-- A lookup finds a symbol of the name. -/
theorem Scope.Index.Written.lookup (written : index.Written) (inside : symbol ∈ index.symbols) :
    ∃ first ∈ index.symbols, index.lookup symbol.qualifiedName = some first ∧
      first.qualifiedName = symbol.qualifiedName := by
  obtain ⟨first, looked⟩ := Option.isSome_iff_exists.mp
    (List.find?_isSome.mpr ⟨symbol, inside, BEq.rfl⟩ :
      (index.symbols.find? fun held =>
        held.qualifiedName == symbol.qualifiedName).isSome = true)
  have member := List.mem_of_find?_eq_some looked
  have equal : (first.qualifiedName == symbol.qualifiedName) = true := by
    simpa using List.find?_some looked
  exact ⟨first, member, looked, (written.name_beq member inside).mp equal⟩

theorem canonical_name (written : index.Written) (inside : symbol ∈ index.symbols) :
    (Draft.canonical index symbol).qualifiedName = symbol.qualifiedName := by
  obtain ⟨first, member, looked, same⟩ := written.lookup inside
  unfold Draft.canonical
  rw [looked]
  split
  · dsimp only
    split
    · exact same
    · rfl
  · rfl

/-- The pieces of a package have one first piece. -/
theorem canonical_of_name (written : index.Written) (share : index.PackagesShare)
    (first : one ∈ index.symbols) (second : other ∈ index.symbols)
    (same : one.qualifiedName = other.qualifiedName) :
    Draft.canonical index one = Draft.canonical index other := by
  rcases share one first other second same with rfl | ⟨onePackage, otherPackage⟩
  · rfl
  · obtain ⟨found, member, looked, alike⟩ := written.lookup first
    have isPackage : found.kind.isPackage = true := by
      rcases share found member one first alike with rfl | ⟨isPackage, _⟩
      · exact onePackage
      · exact isPackage
    unfold Draft.canonical
    rw [← same, looked, onePackage, otherPackage]
    simp [isPackage]

/-- The pieces of a package have one id. -/
theorem idOf_of_name (written : index.Written) (names : index.NamesApart)
    (first : one ∈ index.symbols) (second : other ∈ index.symbols)
    (same : one.qualifiedName = other.qualifiedName) :
    Draft.idOf index one = Draft.idOf index other := by
  rw [Draft.idOf, Draft.idOf, canonical_of_name written names.packagesShare first second same]

/-- What ids are minted from tells the qualified name. -/
theorem name_of_elementKey (written : index.Written) (first : one ∈ index.symbols)
    (second : other ∈ index.symbols)
    (same : elementKey (Draft.canonical index one) = elementKey (Draft.canonical index other)) :
    one.qualifiedName = other.qualifiedName := by
  have displays : (Draft.canonical index one).qualifiedName.display =
      (Draft.canonical index other).qualifiedName.display := congrArg Prod.snd same
  rw [canonical_name written first, canonical_name written second] at displays
  obtain ⟨name, isName⟩ := written.text first
  obtain ⟨otherName, isOther⟩ := written.text second
  rw [isName, isOther] at displays ⊢
  exact congrArg Key.text displays

/-- Symbols of one id have one qualified name. -/
theorem name_of_idOf {memo : Memo} (apart : MintsApart (mintKeys index memo))
    (written : index.Written) (first : one ∈ index.symbols) (second : other ∈ index.symbols)
    (same : Draft.idOf index one = Draft.idOf index other) :
    one.qualifiedName = other.qualifiedName := by
  rw [written.idOf first, written.idOf second] at same
  exact name_of_elementKey written first second (apart _ (elementKey_mem (canonical_mem first)) _
    (elementKey_mem (canonical_mem second)) (Key.text_inj same))

theorem idOf_text (written : index.Written) (inside : symbol ∈ index.symbols) :
    ∃ id, id ≠ "" ∧ Draft.idOf index symbol = .text id :=
  ⟨_, Document.mintId_ne_empty _ _, written.idOf inside⟩

end Names

end Sysml
