import Sysml.Proofs.Document.Reread
import Sysml.Proofs.Scope.Soundness

/-!
# Paths that lead to one element

In an index that recalls a document the qualified name of an element means the element as seen
from anywhere, where no other element answers to a name on the way to it (`answer_distinct`).
-/

set_option autoImplicit false

namespace Sysml

open Scope

def Record.AnswersTo (record : Record) (name : String) : Prop :=
  record.ownName = name ∨ record.shortName = .text name

namespace Document

/-- Names lead from a root to an element and to no other one: no element but the root answers
to the first of them, and no other member to each of the others. -/
inductive Leads (document : Document) : List String → Record → Prop where
  | root {record : Record} :
      record ∈ document.elements → record.owner = none →
      (∀ other ∈ document.elements, other.AnswersTo record.ownName → other = record) →
      Leads document [record.ownName] record
  | member {record owner : Record} {names : List String} :
      Leads document names owner → record ∈ document.elements → document.OwnedBy record owner →
      (∀ other ∈ document.elements, document.OwnedBy other owner →
        other.AnswersTo record.ownName → other = record) →
      Leads document (names ++ [record.ownName]) record

theorem Leads.ne_nil {document : Document} {names : List String} {record : Record}
    (leads : document.Leads names record) : names ≠ [] := by
  cases leads with
  | root => exact List.cons_ne_nil _ _
  | member => exact List.append_ne_nil_of_right_ne_nil _ (List.cons_ne_nil _ _)

/-- The qualified name of an element leads to it and to no other one. -/
def Distinct (document : Document) (record : Record) : Prop :=
  document.Leads (QualifiedName.segments record.path) record

end Document

/-- An index over symbols that stand for the elements of a document, one for each. -/
structure Scope.Index.Recalls (index : Index) (document : Document) : Prop where
  ids : index.IdsWithin
  names : ∀ one ∈ index.symbols, ∀ other ∈ index.symbols,
    (one.qualifiedName == other.qualifiedName) = true → one = other
  known : ∀ symbol ∈ index.symbols, ∃ record ∈ document.elements, symbol.RecallsAll document record
  told : ∀ record ∈ document.elements, ∃ symbol ∈ index.symbols, symbol.RecallsAll document record
  roots : ∀ entry ∈ index.rootImports, entry.2 = []

/-- The index of a workspace that recalls a document recalls it too. -/
theorem Workspace.Recalls.index {w : Workspace} {document : Document} (recalls : w.Recalls document) :
    (Index.build w.symbols w.rootImports).Recalls document where
  ids := Index.build_idsWithin _ _
  names := recalls.unindexed.names
  known := recalls.known
  told := recalls.told
  roots := by
    intro entry listed
    obtain ⟨file, inside, rfl⟩ := List.mem_map.mp listed
    exact recalls.roots file inside

namespace Scope

theorem descend_append (index : Index) (refer : Reference → Symbol → Search (Option Symbol))
    (start : Option Symbol) (segments more : List String) :
    descend index refer start (segments ++ more) =
      descend index refer start segments >>= fun found => descend index refer found more := by
  have nothing (names : List String) : descend index refer none names = pure none := by
    cases names <;> rfl
  induction segments generalizing start with
  | nil =>
    cases start with
    | none => rw [nothing, nothing, pure_bind, nothing]
    | some symbol => exact (pure_bind _ _).symm
  | cons segment rest ih =>
    cases start with
    | none => rw [nothing, nothing, pure_bind, nothing]
    | some symbol =>
      simp only [List.cons_append, descend, bind_assoc]
      exact bind_congr fun found => ih found

/-- A member is found without a search for inherited ones. -/
theorem findMember_own {index : Index} {refer : Reference → Symbol → Search (Option Symbol)}
    {space : Option Key} {name : String} {symbol : Symbol}
    (first : (index.members space).find? (answersTo name) = some symbol) (memo : Memo) :
    outcome (findMember index refer space name) memo = (.ok (some symbol), memo) := by
  have own : outcome (member index refer name index.memberFuel space []) memo =
      (.ok (some symbol, []), memo) := by
    simp only [Index.memberFuel, member, first]
    rfl
  exact outcome_bind_of_ok own

end Scope

section Answering

variable {index : Index} {document : Document} {record owner : Record} {symbol holder : Symbol}

/-- A symbol that answers to a name stands for an element that does. -/
theorem Symbol.Recalls.answersTo {done : List Record} {name : String}
    (recalls : symbol.Recalls document done record) (answers : answersTo name symbol = true) :
    record.AnswersTo name := by
  rw [Scope.answersTo, Bool.or_eq_true, Bool.and_eq_true, recalls.name, recalls.shortName] at answers
  rcases answers with named | ⟨present, named⟩
  · exact .inl (by simpa [Key.isText, Value.isText, Key.text] using named)
  · cases isShort : record.shortName with
    | text short =>
      have same : short = name := by
        simpa [isShort, Key.isText, Value.isText, Key.text, Value.text?] using named
      exact .inr (by rw [isShort, same])
    | _ => simp [isShort, Value.text?, Key.isAbsent, Value.isAbsent] at present

variable (told : document.Told) (recalls : index.Recalls document)

include recalls

/-- The qualified name of an element is looked up as its symbol. -/
theorem Scope.Index.Recalls.lookup (member : record ∈ document.elements) :
    ∃ symbol ∈ index.symbols, symbol.RecallsAll document record ∧
      index.lookup (.text record.path) = some symbol := by
  obtain ⟨symbol, known, recallsAll⟩ := recalls.told record member
  have isSymbol : (symbol.qualifiedName == Key.text record.path) = true := by
    rw [recallsAll.qualifiedName]
    exact BEq.rfl
  obtain ⟨found, looked⟩ := Option.isSome_iff_exists.mp
    (List.find?_isSome.mpr ⟨symbol, known, isSymbol⟩ :
      (index.lookup (.text record.path)).isSome = true)
  have same : (found.qualifiedName == Key.text record.path) = true := by
    simpa using List.find?_some looked
  rw [recalls.names found (List.mem_of_find?_eq_some looked) symbol known
    (BEq.trans same (BEq.symm isSymbol))] at looked
  exact ⟨symbol, known, recallsAll, looked⟩

/-- The owner of a symbol is the name of a symbol for the element that owns its own one. -/
theorem Scope.Index.Recalls.ownerSymbol {space : Key} (isElement : symbol.RecallsAll document record)
    (owned : symbol.owner = some space) :
    ∃ holder ∈ index.symbols, ∃ above, document.OwnedBy record above ∧
      holder.RecallsAll document above ∧ holder.qualifiedName = space := by
  rcases isElement.owner with ⟨_, unowned⟩ | ⟨above, ownedBy, isAbove⟩
  · rw [owned] at unowned
    cases unowned
  · obtain ⟨holder, known, holds⟩ := recalls.told above ownedBy.1
    refine ⟨holder, known, above, ownedBy, holds, ?_⟩
    rw [holds.qualifiedName]
    exact Option.some.inj (isAbove.symm.trans owned)

/-- Symbols that stand for one element are one. -/
theorem Scope.Index.Recalls.unique (known : symbol ∈ index.symbols)
    (knownToo : holder ∈ index.symbols) (first : symbol.RecallsAll document record)
    (second : holder.RecallsAll document record) : symbol = holder := by
  refine recalls.names symbol known holder knownToo ?_
  rw [first.qualifiedName, second.qualifiedName]
  exact BEq.rfl

include told

omit recalls in
/-- Elements that one symbol stands for are one. -/
theorem Document.Told.record_unique (member : record ∈ document.elements)
    (ownerIn : owner ∈ document.elements) (first : symbol.RecallsAll document record)
    (second : symbol.RecallsAll document owner) : record = owner := by
  by_contra apart
  refine told.path_apart ownerIn member apart (Key.text_inj ?_)
  rw [← first.qualifiedName, ← second.qualifiedName]

omit recalls in
/-- A symbol is a member where its element is one. -/
theorem Document.Told.mem_members (known : symbol ∈ index.symbols)
    (isElement : symbol.RecallsAll document record) (holds : holder.RecallsAll document owner)
    (ownerIn : owner ∈ document.elements) :
    symbol ∈ index.members (some holder.qualifiedName) ↔ document.OwnedBy record owner := by
  rw [Index.members, List.mem_filter, and_iff_right known, holds.qualifiedName]
  rcases isElement.owner with ⟨unowned, noOwner⟩ | ⟨above, ownedBy, isOwner⟩
  · rw [noOwner, Document.OwnedBy, unowned]
    exact ⟨fun same => (by cases same), fun owned => (by cases owned.2)⟩
  · rw [isOwner, Option.some_beq_some, Key.text_beq, beq_iff_eq]
    constructor
    · intro same
      by_contra other
      refine told.path_apart ownerIn ownedBy.1 ?_ same.symm
      rintro rfl
      exact other ownedBy
    · intro owned
      rw [told.legible.owner_unique ownedBy owned]

/-- The only member of an owner that answers to a name is found for it. -/
theorem Scope.Index.Recalls.findMember (holds : holder.RecallsAll document owner)
    (member : record ∈ document.elements) (ownedBy : document.OwnedBy record owner)
    (sole : ∀ other ∈ document.elements, document.OwnedBy other owner →
      other.AnswersTo record.ownName → other = record)
    (refer : Reference → Symbol → Search (Option Symbol)) (memo : Memo) :
    ∃ found ∈ index.symbols, found.RecallsAll document record ∧
      outcome (findMember index refer (some holder.qualifiedName) record.ownName) memo =
        (.ok (some found), memo) := by
  obtain ⟨symbol, known, isElement⟩ := recalls.told record member
  have inside := (told.mem_members known isElement holds ownedBy.1).mpr ownedBy
  have answers : answersTo record.ownName symbol = true := by
    rw [answersTo, isElement.name, Bool.or_eq_true]
    exact .inl (beq_self_eq_true record.ownName)
  obtain ⟨found, first⟩ := Option.isSome_iff_exists.mp
    (List.find?_isSome.mpr ⟨symbol, inside, answers⟩ :
      ((index.members (some holder.qualifiedName)).find? (answersTo record.ownName)).isSome = true)
  have isMember := List.mem_of_find?_eq_some first
  have knownToo := index.members_subset _ isMember
  obtain ⟨other, otherIn, isOther⟩ := recalls.known found knownToo
  have same : other = record :=
    sole other otherIn ((told.mem_members knownToo isOther holds ownedBy.1).mp isMember)
      (isOther.answersTo (List.find?_some first))
  exact ⟨found, knownToo, same ▸ isOther, findMember_own first memo⟩

/-- From a symbol that answers to the first name the other names lead to the element. -/
theorem Scope.Index.Recalls.descend {first : String} {rest : List String}
    (leads : document.Leads (first :: rest) record) (known : symbol ∈ index.symbols)
    (answers : answersTo first symbol = true)
    (refer : Reference → Symbol → Search (Option Symbol)) (memo : Memo) :
    ∃ found ∈ index.symbols, found.RecallsAll document record ∧
      outcome (descend index refer (some symbol) rest) memo = (.ok (some found), memo) := by
  generalize isWhole : first :: rest = names at leads
  induction leads generalizing rest with
  | @root record member unowned sole =>
    cases isWhole
    obtain ⟨other, otherIn, isOther⟩ := recalls.known symbol known
    exact ⟨symbol, known, sole other otherIn (isOther.answersTo answers) ▸ isOther, rfl⟩
  | @member record owner names leads member ownedBy sole ih =>
    cases names with
    | nil => exact absurd rfl leads.ne_nil
    | cons head tail =>
      rw [List.cons_append, List.cons.injEq] at isWhole
      obtain ⟨rfl, rfl⟩ := isWhole
      obtain ⟨holder, holderIn, holds, between⟩ := ih rfl
      obtain ⟨found, foundIn, isElement, ran⟩ :=
        recalls.findMember told holds member ownedBy sole refer memo
      refine ⟨found, foundIn, isElement, ?_⟩
      rw [descend_append, outcome_bind_of_ok between]
      exact outcome_bind_of_ok ran

/-- What answers to the qualified name of an element have in common. -/
structure Document.Answers (document : Document) (index : Index) (query : Query)
    (found : Option Symbol) : Prop where
  some_ : ∀ record ∈ document.elements, query.path = record.path → found ≠ none
  distinct : ∀ record ∈ document.elements, query.path = record.path → document.Distinct record →
    Meets (Symbol.RecallsAll document record) found

/-- In an index that recalls a document, the qualified name of an element means something as seen
from anywhere, and the element itself where it leads to no other one. -/
theorem Scope.Index.Recalls.upholds : Upholds index (document.Answers index) where
  congr := by
    intro query other found same holds
    rw [Query.beq_eq, Bool.and_eq_true, beq_iff_eq] at same
    exact ⟨fun record member isPath => holds.some_ record member (same.1 ▸ isPath),
      fun record member isPath => holds.distinct record member (same.1 ▸ isPath)⟩
  answers := by
    intro depth active query memo derived found answered
    have each {record : Record} (member : record ∈ document.elements)
        (isPath : query.path = record.path) : found ≠ none ∧
          (document.Distinct record → Meets (Symbol.RecallsAll document record) found) := by
      obtain ⟨target, _, isTarget, looked⟩ := recalls.lookup member
      rcases ran : outcome (answer index (referAt index depth active) query) memo with
        ⟨result, later⟩
      rw [ran] at answered
      obtain rfl : result = .ok found := answered
      unfold answer at ran
      split at ran
      · next none_ =>
        exact absurd (isPath ▸ none_) (told.segments record member)
      · next first rest segments =>
        obtain ⟨start, middle, ranStart, ran⟩ := outcome_bind_ok ran
        obtain ⟨reached, last, ranRest, ran⟩ := outcome_bind_ok ran
        cases reached with
        | none =>
          cases ran
          rw [isPath, looked]
          exact ⟨Option.some_ne_none _, fun _ => meets_some isTarget⟩
        | some reached =>
          cases ran
          refine ⟨Option.some_ne_none _, fun distinct => meets_some ?_⟩
          have offered := (outward_derives (referAt_derives depth active) first query.file _
            fun _ => id).answers derived start (by rw [ranStart])
          cases start with
          | none => cases rest <;> cases ranRest
          | some start =>
            obtain ⟨_, _, offers⟩ := offered start rfl
            obtain ⟨known, answers⟩ := offers.known recalls.ids
            rw [Document.Distinct, ← isPath, segments] at distinct
            obtain ⟨only, _, isElement, ranOnly⟩ :=
              recalls.descend told distinct known answers (referAt index depth active) middle
            rw [ranOnly] at ranRest
            cases ranRest
            exact isElement
    exact ⟨fun record member isPath => (each member isPath).1,
      fun record member isPath => (each member isPath).2⟩

end Answering

end Sysml
