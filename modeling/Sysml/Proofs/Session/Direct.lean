import Sysml.Proofs.Scope.History
import Sysml.Proofs.Scope.Soundness
import Sysml.Proofs.Session.Complete
import Sysml.Proofs.Workspace.Ending

/-!
# Names of direct members

A reference to a name without separators means the first member of the namespace around it that
answers to the name, if one does (`resolveReference_direct`). This needs no further query, so
neither what was asked before nor cyclic references can hide the member. A name with separators is
taken for a path (`pointedName_unanswered`).
-/

set_option autoImplicit false

/-!
## Queries for direct members
-/

namespace Sysml.Scope

section Direct

variable {index : Index} {query : Query} {name : String} {member : Symbol}

/-- The query is for one name, and the namespace that it starts from has a member for it. -/
structure Offered (index : Index) (query : Query) (name : String) (member : Symbol) : Prop where
  simple : QualifiedName.segments query.path = [name]
  first : (index.members query.scope).find? (answersTo name) = some member

theorem answer_direct (offered : Offered index query name member)
    (refer : Reference → Symbol → Search (Option Symbol)) :
    answer index refer query = pure (some member) := by
  have found : inNamespace index refer name query.file query.scope = pure (some member) := by
    simp [inNamespace, findMember, Index.memberFuel, Scope.member, offered.first]
  have reached : outward index refer name query.file (index.outwardFuel query.scope) query.scope =
      pure (some member) := by
    obtain ⟨fuel, enough⟩ : ∃ fuel, index.outwardFuel query.scope = fuel + 1 :=
      Nat.exists_eq_add_one.mpr (Nat.mul_pos (by omega) (by omega))
    rw [enough]
    unfold outward
    rw [found, pure_bind]
  simp [answer, offered.simple, reached, descend]

def AnsweredDirectly (index : Index) (query : Query) (found : Option Symbol) : Prop :=
  ∀ name member, Offered index query name member → found = some member

theorem upholds_direct (index : Index) : Upholds index (AnsweredDirectly index) where
  congr := by
    rintro ⟨path, scope, file⟩ ⟨otherPath, otherScope, otherFile⟩ found same direct name member
      ⟨simple, first⟩
    simp only [Query.beq_eq, Bool.and_eq_true, beq_iff_eq] at same
    obtain ⟨rfl, equal, rfl⟩ := same
    have members : index.members otherScope = index.members scope := by
      refine List.filter_congr fun symbol _ => ?_
      exact BEq.congr_right equal
    exact direct name member ⟨simple, members ▸ first⟩
  answers := by
    intro depth active query memo _ found answered name member offered
    rw [answer_direct offered] at answered
    exact (Except.ok.inj answered).symm

/-- Where only such answers are remembered, a query that has a direct member is answered with it,
whether it is remembered or not. -/
theorem resolveWith_direct (offered : Offered index query name member) {memo : Memo}
    (upheld : memo.Upheld index (AnsweredDirectly index)) (refer : Refer) :
    ∃ later, outcome (resolveWith index refer [] query) memo = (.ok (some member), later) := by
  rw [resolveWith_outcome]
  cases looked : memo.lookup query with
  | some found =>
    obtain ⟨held, equal, listed⟩ := Entries.exists_mem_of_lookup looked
    obtain rfl : found = some member :=
      (upholds_direct index).congr equal (upheld.good _ listed) name member offered
    exact ⟨memo, rfl⟩
  | none =>
    rw [answer_direct offered]
    exact ⟨(query, some member) :: memo, rfl⟩

end Direct

end Sysml.Scope

namespace Sysml

open Scope

/-- The memo after some more questions, whatever they answered. -/
def Scope.Memo.onward (index : Index) (memo : Memo) (calls : List Call) : Memo :=
  calls.foldl (fun memo call => (outcome (call.run index) memo).2) memo

theorem Scope.Memo.onward_keeps {index : Index} {inv : Memo → Prop} {memo : Memo}
    (keeps : ∀ (call : Call) (memo : Memo), inv memo → inv (outcome (call.run index) memo).2)
    (first : inv memo) (calls : List Call) : inv (memo.onward index calls) := by
  induction calls generalizing memo with
  | nil => exact first
  | cons call rest ih => exact ih (keeps call memo first)

namespace Session

variable {session : Session} (read : session.Read) (ready : session.isReady = true)

include read ready

/-- What each answer of an index has, all answers have that the session remembers or that were
given since. -/
theorem Read.upheld {good : Query → Option Symbol → Prop}
    (upholds : Upholds (Index.build session.workspace.symbols session.workspace.rootImports) good)
    (calls : List Call) :
    Memo.Upheld (Index.build session.workspace.symbols session.workspace.rootImports) good
      (session.workspace.memo.onward
        (Index.build session.workspace.symbols session.workspace.rootImports) calls) := by
  have within := Index.build_idsWithin session.workspace.symbols session.workspace.rootImports
  have stores := (Workspace.checkFiles_related (Keeps.simulation (Memo.Upheld _ good))
    (fun reference symbol => referAt_upholds upholds within _ [] reference symbol)
    (Workspace.duplicates [] session.workspace.symbols) session.workspace.files).stores
      (Memo.upheld_nil _ good)
  have checked := (read.checked ready).check
  unfold Workspace.checking at checked
  rw [checked] at stores
  apply Memo.onward_keeps _ stores
  intro call memo upheld
  cases call with
  | ask query => exact (resolveWith_good upholds within _ query).stores upheld
  | refer reference symbol => exact (referAt_upholds upholds within _ [] reference symbol).stores upheld

end Session

/-- A reference that nothing binds asks for its path, unless it redefines a feature. -/
theorem Scope.resolveReference_ordinary {index : Index} {reference : Reference} {symbol : Symbol}
    {path : String} (unbound : boundTarget index reference = .ok none)
    (isPath : pathOf reference = .ok path)
    (ordinary : reference.kind = .redefinition → symbol.owner = none) (memo : Memo) :
    outcome (resolveReference index reference symbol) memo =
      outcome (resolve index ⟨path, symbol.owner, symbol.file⟩) memo := by
  unfold resolveReference referAt
  rw [unbound, isPath]
  refine (outcome_bind_of_ok (outcome_liftM _ _)).trans ?_
  refine (outcome_bind_of_ok (outcome_liftM _ _)).trans ?_
  split
  · next redefines owned =>
    rw [ordinary redefines] at owned
    cases owned
  · rfl

/-- What a reference that was read from a text goes by is its path. -/
theorem Reference.Written.unbound {reference : Reference} (written : reference.Written)
    (index : Index) : boundTarget index reference = .ok none := by
  rw [boundTarget, written.targetId, written.targetName]
  rfl

namespace Session

/-- However texts were loaded, and whatever was asked since: if the namespace around a symbol has a
direct member with a name that is one segment, a typing, specialization or subsetting of the symbol
whose target is that name means the first direct member that has it for a name or short name. -/
theorem resolveReference_direct {changes : List Change} {session : Session} {index : Index}
    (reads : ∀ change ∈ changes, change.reads = true) (reached : after changes = session)
    (ready : session.isReady = true) (indexed : session.workspace.index = some index)
    (calls : List Call) {symbol : Symbol} (known : symbol ∈ session.workspace.symbols)
    {reference : Reference} (has : reference ∈ symbol.references)
    (ordinary : reference.kind ≠ .redefinition) {name : String}
    (isTarget : reference.target = .text name) (simple : QualifiedName.segments name = [name])
    {member : Symbol} (inside : member ∈ index.members symbol.owner)
    (named : member.name = .text name) :
    ∃ first memo, (index.members symbol.owner).find? (answersTo name) = some first ∧
      outcome (resolveReference index reference symbol)
        (session.workspace.memo.onward index calls) = (.ok (some first), memo) := by
  subst reached
  have read := after_read reads
  obtain rfl : index = Index.build (after changes).workspace.symbols
      (after changes).workspace.rootImports :=
    Option.some.inj (indexed.symm.trans (read.checked ready).found)
  obtain ⟨file, isLibrary, written⟩ := read.written (after changes).workspace.rootImports symbol known
  have answers : answersTo name member = true := by
    rw [answersTo, named]
    simp [Key.isText, Value.isText]
  obtain ⟨first, isFirst⟩ :=
    Option.isSome_iff_exists.mp (List.find?_isSome.mpr ⟨member, inside, answers⟩)
  have upheld := read.upheld ready (upholds_direct _) calls
  generalize Index.build (after changes).workspace.symbols (after changes).workspace.rootImports =
    index at *
  generalize Memo.onward index (after changes).workspace.memo calls = memo at *
  have isPath : pathOf reference = .ok name := by
    rw [pathOf, isTarget]
    rfl
  have offered : Offered index ⟨name, symbol.owner, symbol.file⟩ name first := ⟨simple, isFirst⟩
  obtain ⟨later, answered⟩ := resolveWith_direct offered upheld _
  refine ⟨first, later, isFirst, ?_⟩
  rw [resolveReference_ordinary ((written.references reference has).unbound index) isPath
    fun redefines => absurd redefines ordinary]
  exact answered

def sharedName : List Change :=
  [.load "m.sysml" "package P \x7b part def <B> A; part def B; part x : B; \x7d" false, .reindex]

/-- The first of the two has the name for a short name, and is meant. -/
theorem resolveReference_direct_shared :
    ∃ index, (after sharedName).workspace.index = some index ∧
      ∃ symbol ∈ (after sharedName).workspace.symbols, ∃ reference ∈ symbol.references,
        reference.kind = .typing ∧ reference.target = .text "B" ∧
        (∃ member ∈ index.members symbol.owner, member.name = .text "B") ∧
        ∃ first memo, outcome (resolveReference index reference symbol)
            ((after sharedName).workspace.memo.onward index [.ask ⟨"A::B", none, "m.sysml"⟩]) =
          (.ok (some first), memo) ∧ first.qualifiedName = .text "P::A" := by
  have reads : ∀ change ∈ sharedName, change.reads = true := by decide
  have facts : (after sharedName).isReady = true ∧
      ∃ symbol ∈ (after sharedName).workspace.symbols, ∃ reference ∈ symbol.references,
        reference.kind = .typing ∧ reference.target.text? = some "B" ∧
        (∃ member ∈ (Index.build (after sharedName).workspace.symbols
            (after sharedName).workspace.rootImports).members symbol.owner,
          member.name.text? = some "B") ∧
        (((Index.build (after sharedName).workspace.symbols
            (after sharedName).workspace.rootImports).members symbol.owner).find?
              (answersTo "B")).bind (·.qualifiedName.text?) = some "P::A" := by
    decide +kernel
  obtain ⟨ready, symbol, known, reference, has, kind, isTarget, ⟨member, inside, named⟩, isFirst⟩ :=
    facts
  have indexed := ((after_read reads).checked ready).found
  have ordinary : reference.kind ≠ .redefinition := by
    rw [kind]
    decide
  have isTarget := Key.eq_text_of_text? isTarget
  have named := Key.eq_text_of_text? named
  obtain ⟨first, memo, looked, means⟩ := resolveReference_direct reads rfl ready indexed
    [.ask ⟨"A::B", none, "m.sysml"⟩] known has ordinary isTarget (by decide) inside named
  rw [looked] at isFirst
  exact ⟨_, indexed, symbol, known, reference, has, kind, isTarget, ⟨member, inside, named⟩, first,
    memo, means, Key.eq_text_of_text? isFirst⟩

/-- A definition whose name holds a point, and a usage of it beside it. -/
def pointedName : List Change :=
  [.load "m.sysml" "package P \x7b part def 'A.B'; part x : 'A.B'; \x7d" false, .reindex]

/-- The name is cut at the point, and neither piece means anything there: the usage has no
definition, though there is one of its name beside it. -/
theorem pointedName_unanswered :
    (after pointedName).isReady = true ∧
      ∃ symbol ∈ (after pointedName).workspace.symbols, ∃ reference ∈ symbol.references,
        reference.kind = .typing ∧ reference.target.text? = some "A.B" ∧
        (∃ member ∈ (Index.build (after pointedName).workspace.symbols
            (after pointedName).workspace.rootImports).members symbol.owner,
          member.name.text? = some "A.B") ∧
        (outcome (resolveReference (Index.build (after pointedName).workspace.symbols
            (after pointedName).workspace.rootImports) reference symbol)
          (after pointedName).workspace.memo).1.toOption.map (·.isSome) = some false := by
  decide +kernel

end Session

end Sysml
