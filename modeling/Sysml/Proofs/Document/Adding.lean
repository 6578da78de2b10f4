import Mathlib.Algebra.GroupWithZero.Nat
import Mathlib.Data.List.Perm.Subperm
import Sysml.Proofs.Document.Drafting
import Sysml.Proofs.Workspace.Findings

/-!
# Adding relationships

Ids are minted from finitely many keys in an export: one for each symbol, and for
each relationship as many as there may be records. Where these ids are apart, an
id is found for each relationship, and none of them is the id of a symbol.

Taking up a symbol looks up what its references and imports mean, one after the
other, and adds their relationships. Once all of that is remembered the looking up
can be left out: then taking up a symbol is adding its record and relationships.
-/

set_option autoImplicit false

namespace Sysml

open Scope

def MintsApart (keys : List (String × String)) : Prop :=
  ∀ one ∈ keys, ∀ other ∈ keys,
    Document.mintId one.1 one.2 = Document.mintId other.1 other.2 → one = other

theorem mintsApart_of_nodup {keys : List (String × String)}
    (distinct : (keys.map fun key => Document.mintId key.1 key.2).Nodup) : MintsApart keys :=
  fun _ first _ second same => List.inj_on_of_nodup_map distinct first second same

theorem MintsApart.mono {keys more : List (String × String)} (apart : MintsApart more)
    (inside : keys ⊆ more) : MintsApart keys :=
  fun one first other second => apart one (inside first) other (inside second)

/-- The number of records that a symbol has at most. -/
def Symbol.weight (symbol : Symbol) : Nat :=
  symbol.references.length + symbol.imports.length + 1

/-- The number of records that symbols have at most. -/
def totalWeight (symbols : List Symbol) : Nat :=
  (symbols.map Symbol.weight).sum

/-- The relationships of a symbol: one for each reference that means something,
and then one for each import that names something. -/
def links (index : Index) (memo : Memo) (symbol : Symbol) : List Link :=
  (symbol.references.filterMap fun reference =>
      reference.link? symbol (meaning index memo symbol reference)) ++
    symbol.imports.filterMap fun i =>
      (i.link? symbol (naming index (some symbol.qualifiedName) i)).toOption.join

def elementKey (symbol : Symbol) : String × String :=
  (symbol.kind.metaclass, symbol.qualifiedName.display)

/-- What the ids of a relationship are minted from, where there are at most so
many records. -/
def Link.keys (link : Link) (records : Nat) : List (String × String) :=
  (List.range' 1 (records + 1)).map fun ordinal =>
    (link.kind, Draft.numberedKey link.key ordinal)

def mintKeys (index : Index) (memo : Memo) : List (String × String) :=
  index.symbols.map elementKey ++
    index.symbols.flatMap fun symbol =>
      (links index memo symbol).flatMap fun link => link.keys (totalWeight index.symbols)

theorem SymbolKind.metaclass_no_relationship (kind : SymbolKind) :
    Record.isRelationshipKind kind.metaclass = false := by
  have every : ∀ kind ∈ SymbolKind.all, Record.isRelationshipKind kind.metaclass = false := by
    decide
  exact every kind kind.mem_all

theorem Reference.link?_kind {reference : Reference} {symbol : Symbol} {meant : Option Symbol}
    {link : Link} (linked : reference.link? symbol meant = some link) :
    Record.isRelationshipKind link.kind = true := by
  have known : ∀ kind : RefKind, Record.isRelationshipKind kind.metaclass = true := by
    intro kind
    cases kind <;> decide
  cases meant with
  | some target =>
    cases linked
    exact known reference.kind
  | none =>
    obtain ⟨_, _, rfl⟩ := Option.map_eq_some_iff.mp linked
    exact known reference.kind

theorem Import.link?_kind {i : Import} {symbol : Symbol} {named : Option Symbol} {link : Link}
    (linked : i.link? symbol named = .ok (some link)) :
    Record.isRelationshipKind link.kind = true := by
  have known : Record.isRelationshipKind (if i.isNamespace || i.isRecursive then
      Record.namespaceImport else Record.membershipImport) = true := by
    split <;> decide
  unfold Import.link? at linked
  cases named with
  | some target =>
    cases linked
    exact known
  | none =>
    dsimp only at linked
    split at linked
    · cases linked
    · obtain ⟨_, _, same⟩ := result_map_ok linked
      cases same
      exact known

namespace Draft

theorem numberedKey_inj {key : String} {one other : Nat}
    (same : numberedKey key one = numberedKey key other) : one = other := by
  have longer (ordinal : Nat) : key ≠ key ++ "#" ++ toString ordinal := by
    intro same
    have lengths := congrArg String.length same
    simp only [String.length_append] at lengths
    have : "#".length = 1 := by decide
    omega
  unfold numberedKey at same
  split at same <;> split at same
  · next first second => rw [first, second]
  · exact absurd same (longer other)
  · exact absurd same.symm (longer one)
  · have digits : Nat.toDigits 10 one = Nat.toDigits 10 other := by
      simpa using congrArg String.toList ((String.append_right_inj _).mp same)
    rw [← @Nat.ofDigitChars_ten_toDigits one, digits, Nat.ofDigitChars_ten_toDigits]

theorem code_text (s : String) : (Key.text s).code = .text s := rfl

theorem code_mintedId (kind key : String) (ordinal : Nat) :
    (mintedId kind key ordinal).code = .text (Document.mintId kind (numberedKey key ordinal)) := by
  rw [mintedId, code_text]

/-- Among more ids than there are records one is no record's. -/
theorem freshId?_some {draft : Draft} {kind key : String} {tries ordinal : Nat}
    (few : draft.records.length < tries)
    (apart : ∀ one ∈ List.range' ordinal tries, ∀ other ∈ List.range' ordinal tries,
      Document.mintId kind (numberedKey key one) = Document.mintId kind (numberedKey key other) →
        one = other) :
    ∃ found ∈ List.range' ordinal tries,
      draft.freshId? kind key tries ordinal = some (mintedId kind key found) := by
  -- else all of them are records' ids, and there are more of them than records
  by_contra none_
  have held (tries ordinal : Nat) (none_ : ¬ ∃ found ∈ List.range' ordinal tries,
      draft.freshId? kind key tries ordinal = some (mintedId kind key found)) :
      ∀ tried ∈ List.range' ordinal tries, draft.holds (mintedId kind key tried) = true := by
    induction tries generalizing ordinal with
    | zero => intro tried member; cases member
    | succ tries ih =>
      intro tried member
      rw [List.range'_succ] at none_ member
      cases taken : draft.holds (mintedId kind key ordinal) with
      | false => exact absurd ⟨ordinal, List.mem_cons_self, by simp [freshId?, taken]⟩ none_
      | true =>
        rcases List.mem_cons.mp member with rfl | later
        · exact taken
        · refine ih (ordinal + 1) (fun some_ => none_ ?_) tried later
          obtain ⟨found, inside, fresh⟩ := some_
          exact ⟨found, List.mem_cons_of_mem _ inside, by simp [freshId?, taken, fresh]⟩
  have codes : ((List.range' ordinal tries).map fun tried => (mintedId kind key tried).code) ⊆
      draft.records.map fun record => record.id.code := by
    intro code member
    obtain ⟨tried, inside, rfl⟩ := List.mem_map.mp member
    obtain ⟨record, known, same⟩ := List.any_eq_true.mp (held tries ordinal none_ tried inside)
    exact List.mem_map.mpr ⟨record, known, (Key.beq_iff _ _).mp same⟩
  have distinct : ((List.range' ordinal tries).map
      fun tried => (mintedId kind key tried).code).Nodup := by
    refine List.Nodup.map_on ?_ List.nodup_range'
    intro one first other second same
    rw [code_mintedId, code_mintedId] at same
    exact apart one first other second (Key.Code.text.inj same)
  have fits := (distinct.subperm codes).length_le
  simp only [List.length_map, List.length_range'] at fits
  omega

end Draft

/-! ## Relationships of a symbol -/

/-- All references and imports of a symbol have an answer, and those of the
references are remembered. -/
structure Answered (index : Index) (memo : Memo) (symbol : Symbol) : Prop where
  references : ∀ reference ∈ symbol.references,
    outcome (resolveReference index reference symbol) memo =
      (.ok (meaning index memo symbol reference), memo)
  imports : ∀ i ∈ symbol.imports,
    resolveImport index i (some symbol.qualifiedName) =
      .ok (naming index (some symbol.qualifiedName) i)
  linked : ∀ i ∈ symbol.imports, ∃ link?,
    i.link? symbol (naming index (some symbol.qualifiedName) i) = .ok link?

namespace Draft

variable {index : Index} {selfContained : Bool} {provenance : String} {owner : Key}
  {symbol : Symbol} {draft later : Draft}

def addLinks (index : Index) (selfContained : Bool) (provenance : String) (owner : Key)
    (links : List Link) (draft : Draft) : Except Failure Draft :=
  links.foldlM (fun draft link => addLink index selfContained provenance owner link draft) draft

theorem addLinks_append (left right : List Link) (draft : Draft) :
    addLinks index selfContained provenance owner (left ++ right) draft =
      addLinks index selfContained provenance owner left draft >>=
        addLinks index selfContained provenance owner right :=
  List.foldlM_append

theorem addLinks_cons_ok {link : Link} {rest : List Link}
    (added : addLinks index selfContained provenance owner (link :: rest) draft = .ok later) :
    ∃ middle, addLink index selfContained provenance owner link draft = .ok middle ∧
      addLinks index selfContained provenance owner rest middle = .ok later :=
  result_bind_ok (List.foldlM_cons.symm.trans added)

theorem addLinks_keeps {links : List Link}
    (added : addLinks index selfContained provenance owner links draft = .ok later) :
    later.visited = draft.visited ∧ later.memo = draft.memo := by
  induction links generalizing draft with
  | nil =>
    cases added
    exact ⟨rfl, rfl⟩
  | cons link rest ih =>
    obtain ⟨middle, first, others⟩ := addLinks_cons_ok added
    obtain ⟨id, _, rfl⟩ := addLink_ok first
    simpa using ih others

section Memos

theorem freshId?_congr (same : later.records = draft.records) (kind key : String)
    (tries ordinal : Nat) :
    later.freshId? kind key tries ordinal = draft.freshId? kind key tries ordinal := by
  induction tries generalizing ordinal with
  | zero => rfl
  | succ tries ih => simp only [freshId?, holds_of_records same, ih]

/-- The id of a relationship depends on the records alone. -/
theorem linkId_congr (same : later.records = draft.records) (link : Link) :
    later.linkId link = draft.linkId link := by
  simp only [linkId, holds_of_records same, freshId?_congr same, same]

/-- The draft, but for what is remembered. -/
def withMemo (draft : Draft) (memo : Memo) : Draft :=
  { draft with memo }

theorem withMemo_eq {memo : Memo} (same : draft.memo = memo) : draft.withMemo memo = draft := by
  subst same
  rfl

theorem mention_withMemo (target : Symbol) (draft : Draft) (memo : Memo) :
    (draft.withMemo memo).mention index selfContained target =
      (draft.mention index selfContained target).withMemo memo := by
  have same : (draft.withMemo memo).holds (idOf index target) = draft.holds (idOf index target) := rfl
  unfold mention
  rw [same]
  cases target.isLibrary && !draft.holds (idOf index target) with
  | false => rfl
  | true => cases selfContained <;> rfl

theorem reach_withMemo (goal : Goal) (draft : Draft) (memo : Memo) :
    (draft.withMemo memo).reach index selfContained goal =
      (draft.reach index selfContained goal).withMemo memo := by
  cases goal with
  | loaded target => exact mention_withMemo target draft memo
  | outside id name => rfl

theorem declare_withMemo (symbol : Symbol) (draft : Draft) (memo : Memo) :
    (draft.withMemo memo).declare index selfContained provenance symbol =
      (draft.declare index selfContained provenance symbol).withMemo memo := by
  have same : (draft.withMemo memo).holds (idOf index symbol) = draft.holds (idOf index symbol) := rfl
  unfold declare
  rw [same]
  cases draft.holds (idOf index symbol) with
  | true => rfl
  | false =>
    simp only [Bool.false_eq_true, ↓reduceIte]
    cases ownerOf index symbol with
    | none => rfl
    | some owner =>
      exact mention_withMemo owner (draft.add (elementRecord index provenance symbol)) memo

theorem addLink_of_linkId {link : Link} {id : Key}
    (given : (draft.reach index selfContained link.goal).linkId link = .ok id) :
    addLink index selfContained provenance owner link draft =
      .ok ((draft.reach index selfContained link.goal).add
        (link.record index provenance owner id)) := by
  unfold addLink
  dsimp only
  rw [given]
  rfl

/-- What is remembered makes no difference to a relationship that is found. -/
theorem addLink_withMemo {link : Link} (memo : Memo)
    (added : addLink index selfContained provenance owner link draft = .ok later) :
    addLink index selfContained provenance owner link (draft.withMemo memo) =
      .ok (later.withMemo memo) := by
  obtain ⟨id, given, rfl⟩ := addLink_ok added
  have same : ((draft.withMemo memo).reach index selfContained link.goal).linkId link = .ok id := by
    have records : ((draft.reach index selfContained link.goal).withMemo memo).records =
        (draft.reach index selfContained link.goal).records := rfl
    rw [reach_withMemo, linkId_congr records, given]
  rw [addLink_of_linkId same, reach_withMemo]
  rfl

end Memos

section Equations

theorem addReference_outcome {reference : Reference} {meant : Option Symbol}
    (searched : outcome (resolveReference index reference symbol) draft.memo =
      (.ok meant, draft.memo)) :
    outcome (addReference index selfContained provenance symbol reference) draft =
      outcome (addLink? index selfContained provenance (idOf index symbol)
        (reference.link? symbol meant)) draft := by
  have ran : outcome (search (resolveReference index reference symbol)) draft =
      (.ok meant, draft) := by
    rw [outcome_search, searched]
  exact outcome_bind_of_ok ran

theorem addImport_outcome {i : Import} {named : Option Symbol} {link? : Option Link}
    (resolved : resolveImport index i (some symbol.qualifiedName) = .ok named)
    (linked : i.link? symbol named = .ok link?) :
    outcome (addImport index selfContained provenance symbol i) draft =
      outcome (addLink? index selfContained provenance (idOf index symbol) link?) draft := by
  have ran : outcome (liftM (resolveImport index i (some symbol.qualifiedName)) :
      Drafting (Option Symbol)) draft = (.ok named, draft) := by
    rw [outcome_liftM, resolved]
  have ranLink : outcome (liftM (i.link? symbol named) : Drafting (Option Link)) draft =
      (.ok link?, draft) := by
    rw [outcome_liftM, linked]
  exact (outcome_bind_of_ok ran).trans (outcome_bind_of_ok ranLink)

/-- A step that looks something up and then adds the relationships that were found:
`found` tells them from what is remembered in the end, where all is `answered`. -/
structure Adds (index : Index) (selfContained : Bool) (provenance : String) (owner : Key)
    (answered : Memo → Prop) (found : Memo → List Link) (run : Drafting Unit) : Prop where
  finds : ∀ {draft later : Draft}, draft.memo.Within index →
    outcome run draft = (.ok ⟨⟩, later) →
      later.memo.Within index ∧ draft.memo.Known later.memo ∧
        ∀ memo, later.memo.Known memo → answered memo ∧
          addLinks index selfContained provenance owner (found memo) (draft.withMemo memo) =
            .ok (later.withMemo memo)
  ends : ∀ {draft later : Draft}, answered draft.memo →
    addLinks index selfContained provenance owner (found draft.memo) draft = .ok later →
      outcome run draft = (.ok ⟨⟩, later)

theorem links_eq_flatMap (index : Index) (memo : Memo) (symbol : Symbol) :
    links index memo symbol =
      (symbol.references.flatMap fun reference =>
        (reference.link? symbol (meaning index memo symbol reference)).toList) ++
      symbol.imports.flatMap fun i =>
        (i.link? symbol (naming index (some symbol.qualifiedName) i)).toOption.join.toList := by
  rw [links, List.filterMap_eq_flatMap_toList, List.filterMap_eq_flatMap_toList]

namespace Adds

variable {answered answeredNext : Memo → Prop} {found foundNext : Memo → List Link}
  {run next : Drafting Unit}

theorem nothing :
    Adds index selfContained provenance owner (fun _ => True) (fun _ => []) (pure ⟨⟩) where
  finds inside ran := by
    cases ran
    exact ⟨inside, fun _ _ was => was, fun _ _ => ⟨trivial, rfl⟩⟩
  ends _ added := by
    cases added
    rfl

theorem bind (first : Adds index selfContained provenance owner answered found run)
    (second : Adds index selfContained provenance owner answeredNext foundNext next) :
    Adds index selfContained provenance owner (fun memo => answered memo ∧ answeredNext memo)
      (fun memo => found memo ++ foundNext memo) (do run; next) where
  finds inside ran := by
    obtain ⟨_, middle, one, other⟩ := outcome_bind_ok ran
    obtain ⟨between, grows, tells⟩ := first.finds inside one
    obtain ⟨within, growsOn, tellsOn⟩ := second.finds between other
    refine ⟨within, fun query answer was => growsOn query answer (grows query answer was), ?_⟩
    intro memo known
    obtain ⟨answeredFirst, addedFirst⟩ :=
      tells memo fun query answer was => known query answer (growsOn query answer was)
    obtain ⟨answeredSecond, addedSecond⟩ := tellsOn memo known
    refine ⟨⟨answeredFirst, answeredSecond⟩, ?_⟩
    rw [addLinks_append, addedFirst]
    exact addedSecond
  ends := by
    intro draft later all added
    rw [addLinks_append] at added
    obtain ⟨middle, one, other⟩ := result_bind_ok added
    have same := (addLinks_keeps one).2
    rw [outcome_bind_of_ok (first.ends all.1 one)]
    exact second.ends (same ▸ all.2) (same.symm ▸ other)

theorem each {α : Type} {items : List α} {step : α → Drafting Unit} {good : α → Memo → Prop}
    {found : α → Memo → List Link}
    (steps : ∀ item ∈ items,
      Adds index selfContained provenance owner (good item) (found item) (step item)) :
    Adds index selfContained provenance owner (fun memo => ∀ item ∈ items, good item memo)
      (fun memo => items.flatMap fun item => found item memo) (items.forM step) := by
  induction items with
  | nil =>
    exact ⟨fun inside ran =>
      let ⟨within, grows, tells⟩ := nothing.finds inside ran
      ⟨within, grows, fun memo known => ⟨fun _ member => (by cases member), (tells memo known).2⟩⟩,
      fun _ added => nothing.ends trivial added⟩
  | cons item rest ih =>
    have both := (steps item List.mem_cons_self).bind
      (ih fun other member => steps other (List.mem_cons_of_mem _ member))
    refine ⟨fun inside ran => ?_, fun all added => ?_⟩
    · obtain ⟨within, grows, tells⟩ := both.finds inside ran
      refine ⟨within, grows, fun memo known => ?_⟩
      obtain ⟨⟨here, there⟩, added⟩ := tells memo known
      exact ⟨List.forall_mem_cons.mpr ⟨here, there⟩, added⟩
    · exact both.ends (List.forall_mem_cons.mp all) added

/-- Adding a relationship, if there is one, depends on nothing that is remembered. -/
theorem option (link? : Option Link) :
    Adds index selfContained provenance owner (fun _ => True) (fun _ => link?.toList)
      (addLink? index selfContained provenance owner link?) where
  finds := by
    intro draft later inside ran
    rcases addLink?_ok ran with ⟨rfl, rfl⟩ | ⟨link, rfl, added⟩
    · exact ⟨inside, fun _ _ was => was, fun _ _ => ⟨trivial, rfl⟩⟩
    · have same : later.memo = draft.memo := by
        obtain ⟨id, _, rfl⟩ := addLink_ok added
        simp
      refine ⟨same ▸ inside, fun _ _ was => same ▸ was, fun memo _ => ⟨trivial, ?_⟩⟩
      change addLinks index selfContained provenance owner [link] _ = _
      rw [addLinks, List.foldlM_cons, addLink_withMemo memo added]
      rfl
  ends := by
    intro draft later _ added
    cases link? with
    | none =>
      cases added
      rfl
    | some link =>
      obtain ⟨middle, first, rest⟩ := addLinks_cons_ok added
      cases rest
      rw [addLink?_some, first]

theorem reference (within : index.IdsWithin) (reference : Reference) :
    Adds index selfContained provenance (idOf index symbol)
      (fun memo => outcome (resolveReference index reference symbol) memo =
        (.ok (meaning index memo symbol reference), memo))
      (fun memo => (reference.link? symbol (meaning index memo symbol reference)).toList)
      (addReference index selfContained provenance symbol reference) where
  finds := by
    intro draft later inside ran
    obtain ⟨meant, between, searched, added⟩ := addReference_ok ran
    have behaves := resolveReference_behaves within reference symbol
    have insideBetween : between.Within index := by simpa [searched] using behaves.within inside
    have grows : draft.memo.Known between := by simpa [searched] using (behaves.grows inside).known
    obtain ⟨withinLater, growsOn, tells⟩ :=
      (option (reference.link? symbol meant)).finds insideBetween added
    refine ⟨withinLater, fun query answer was => growsOn query answer (grows query answer was), ?_⟩
    intro memo known
    obtain ⟨again, same⟩ := Workspace.meaning_settled within inside searched
      fun query answer was => known query answer (growsOn query answer was)
    refine ⟨again, ?_⟩
    rw [same]
    exact (tells memo known).2
  ends := by
    intro draft later answered added
    rw [addReference_outcome answered]
    exact (option _).ends trivial added

theorem import_ (i : Import) :
    Adds index selfContained provenance (idOf index symbol)
      (fun _ => resolveImport index i (some symbol.qualifiedName) =
          .ok (naming index (some symbol.qualifiedName) i) ∧
        ∃ link?, i.link? symbol (naming index (some symbol.qualifiedName) i) = .ok link?)
      (fun _ => (i.link? symbol
        (naming index (some symbol.qualifiedName) i)).toOption.join.toList)
      (addImport index selfContained provenance symbol i) where
  finds := by
    intro draft later inside ran
    obtain ⟨named, link?, resolved, linked, added⟩ := addImport_ok ran
    have same : naming index (some symbol.qualifiedName) i = named := by rw [naming, resolved]; rfl
    obtain ⟨withinLater, grows, tells⟩ := (option link?).finds inside added
    refine ⟨withinLater, grows, fun memo known => ?_⟩
    rw [same, linked]
    exact ⟨⟨resolved, link?, rfl⟩, (tells memo known).2⟩
  ends := by
    intro draft later answered added
    obtain ⟨resolved, link?, linked⟩ := answered
    rw [linked] at added
    rw [addImport_outcome resolved linked]
    exact (option link?).ends trivial added

/-- What a symbol adds after its own record are its relationships. -/
theorem relationships (within : index.IdsWithin) :
    Adds index selfContained provenance (idOf index symbol)
      (fun memo => Answered index memo symbol) (fun memo => links index memo symbol)
      (do symbol.references.forM (addReference index selfContained provenance symbol)
          symbol.imports.forM (addImport index selfContained provenance symbol)) := by
  have references : Adds index selfContained provenance (idOf index symbol) _ _
      (symbol.references.forM (addReference index selfContained provenance symbol)) :=
    each fun reference _ => Adds.reference within reference
  have imports : Adds index selfContained provenance (idOf index symbol) _ _
      (symbol.imports.forM (addImport index selfContained provenance symbol)) :=
    each fun i _ => import_ i
  have both := references.bind imports
  refine ⟨fun inside ran => ?_, fun all added => ?_⟩
  · obtain ⟨withinLater, grows, tells⟩ := both.finds inside ran
    refine ⟨withinLater, grows, fun memo known => ?_⟩
    obtain ⟨⟨references, imports⟩, added⟩ := tells memo known
    rw [links_eq_flatMap]
    exact ⟨⟨references, fun i member => (imports i member).1, fun i member => (imports i member).2⟩,
      added⟩
  · refine both.ends ⟨all.references, fun i member => ⟨all.imports i member, all.linked i member⟩⟩ ?_
    rw [← links_eq_flatMap]
    exact added

end Adds

end Equations

section TakingUp

theorem declare_visited (index : Index) (selfContained : Bool) (provenance : String)
    (symbol : Symbol) (draft : Draft) :
    (draft.declare index selfContained provenance symbol).visited = draft.visited := by
  unfold declare
  split
  · rfl
  · cases ownerOf index symbol with
    | none => rfl
    | some owner => exact mention_visited ..

theorem declare_memo (index : Index) (selfContained : Bool) (provenance : String)
    (symbol : Symbol) (draft : Draft) :
    (draft.declare index selfContained provenance symbol).memo = draft.memo := by
  unfold declare
  split
  · rfl
  · cases ownerOf index symbol with
    | none => rfl
    | some owner => exact mention_memo ..

/-- What is remembered in the end tells what a symbol that was taken up has added. -/
theorem takeUp_finds (within : index.IdsWithin) (inside : draft.memo.Within index)
    (fresh : draft.visited.contains symbol.serial = false)
    (ran : outcome (takeUp index selfContained provenance symbol) draft = (.ok ⟨⟩, later)) :
    later.memo.Within index ∧ draft.memo.Known later.memo ∧
      ∀ memo, later.memo.Known memo → Answered index memo symbol ∧
        addLinks index selfContained provenance (idOf index symbol) (links index memo symbol)
          ((draft.begun index selfContained provenance symbol).withMemo memo) =
            .ok (later.withMemo memo) := by
  rw [takeUp_outcome, fresh] at ran
  have memo : (draft.begun index selfContained provenance symbol).memo = draft.memo :=
    declare_memo ..
  rw [← memo] at inside ⊢
  exact (Adds.relationships within).finds inside ran

/-- Where all is remembered that a symbol refers to, it is taken up as soon as its
relationships can be added. -/
theorem takeUp_ends (within : index.IdsWithin)
    (fresh : draft.visited.contains symbol.serial = false)
    (answered : Answered index draft.memo symbol)
    (added : addLinks index selfContained provenance (idOf index symbol)
      (links index draft.memo symbol) (draft.begun index selfContained provenance symbol) =
        .ok later) :
    outcome (takeUp index selfContained provenance symbol) draft = (.ok ⟨⟩, later) := by
  have memo : (draft.begun index selfContained provenance symbol).memo = draft.memo :=
    declare_memo ..
  rw [← memo] at answered added
  rw [takeUp_outcome, fresh]
  exact (Adds.relationships within).ends answered added

end TakingUp

end Draft

end Sysml
