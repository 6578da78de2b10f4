import Sysml.Proofs.Scope.Completeness

/-!
# What stops a search

Where references go by texts, a reference has an answer, or its search fails for one of two
reasons (`resolveReference_halts`): it goes on without bound, or the target of a redefinition has
no segment. Searches for members and through imports visit no namespace twice, so they do not run
out of steps, whatever the references in them do.
-/

set_option autoImplicit false

namespace Sysml

structure Reference.Typed (reference : Reference) : Prop where
  target : ∃ path, reference.target = .text path
  targetId : Key.IsName reference.targetId
  targetName : Key.IsName reference.targetName

namespace Scope

/-- A redefinition that nothing binds and whose target has no segment. -/
structure IsBlank (index : Index) (symbol : Symbol) (reference : Reference) : Prop where
  unbound : boundTarget index reference = .ok none
  kind : reference.kind = .redefinition
  owned : symbol.owner.isSome = true
  segments : ∀ path, reference.target = .text path → QualifiedName.segments path = []

/-- All that is looked up goes by texts. -/
structure Index.Spelled (index : Index) : Prop where
  typed : index.Typed
  references : ∀ symbol ∈ index.symbols, ∀ reference ∈ symbol.references, reference.Typed

theorem outerScope_text (index : Index) (name : String) :
    ∃ outer, outerScope index (.text name) = .ok outer := by
  unfold outerScope
  split
  · exact ⟨_, rfl⟩
  · exact ⟨_, rfl⟩

theorem boundTarget_typed (index : Index) {reference : Reference} (typed : reference.Typed) :
    ∃ found, boundTarget index reference = .ok found := by
  obtain ⟨found, isBound⟩ := boundTo_typed index typed.targetId
  rw [boundTarget, isBound, ok_bind]
  cases found with
  | some found => exact ⟨some found, rfl⟩
  | none =>
    dsimp only
    cases isGiven : Key.given? reference.targetName with
    | none => exact ⟨none, rfl⟩
    | some name =>
      obtain ⟨text, rfl⟩ := typed.targetName name (Option.filter_eq_some_iff.mp isGiven).1
      exact ⟨index.lookup (.text text), rfl⟩

section Halting

variable {index : Index} {allowed : Failure → Prop} {symbol : Symbol} {reference : Reference}

section Outward

variable {refer : Reference → Symbol → Search (Option Symbol)} (spelled : index.Spelled)
  (deep : allowed .unbounded) (answers : ∀ symbol ∈ index.symbols,
    ∀ reference ∈ symbol.references,
      Halts allowed (Memo.Within index) index.Has (refer reference symbol))

include spelled deep answers

/-- Where references halt, so does a walk outward; namespaces that are around each other make it
run out of steps. -/
theorem outward_halts (name file : String) (fuel : Nat) {space : Option Key}
    (isName : Key.IsName space) :
    Halts allowed (Memo.Within index) index.Has (outward index refer name file fuel space) := by
  induction fuel generalizing space with
  | zero => exact .throw deep
  | succ fuel ih =>
    have inside : Halts allowed (Memo.Within index) index.Has
        (inNamespace index refer name file space) := by
      refine inNamespace_ends answers spelled.typed.ids ?_ ?_ name file isName
      · intro symbol known
        exact spelled.typed.qualifiedName_isName known
      · intro _ _ isName _ listed
        exact resolveImport_typed index (spelled.typed.importsOf listed) isName
    refine inside.bind fun found has => ?_
    cases found with
    | some found => exact .pure has
    | none =>
      cases space with
      | none => exact .pure index.has_none
      | some space =>
        obtain ⟨text, rfl⟩ := isName space rfl
        obtain ⟨outer, isOuter⟩ := outerScope_text index text
        refine (Halts.lift (p := (· = outer)) isOuter rfl).bind fun scope isScope => ?_
        subst isScope
        exact ih (spelled.typed.outerScope_isName isOuter)

/-- Where references halt, so does a query from a scope that goes by a text. -/
theorem answer_halts {query : Query} (isName : Key.IsName query.scope) :
    Halts allowed (Memo.Within index) index.Has (answer index refer query) := by
  unfold answer
  split
  · exact .pure index.has_none
  · refine (outward_halts spelled deep answers _ _ _ isName).bind fun start has => ?_
    refine (descend_ends answers has _).bind fun found hasFound => ?_
    cases found with
    | some found => exact .pure hasFound
    | none => exact .pure (index.has_lookup _)

end Outward

variable (spelled : index.Spelled) (deep : allowed .unbounded)
  (blank : ∀ symbol ∈ index.symbols, ∀ reference ∈ symbol.references,
    IsBlank index symbol reference → allowed .noSegments)

include spelled deep blank

/-- A redefinition halts where references that nest less deep do. -/
theorem resolveRedefinition_halts {refer : Refer} {active : List Query} {path : String}
    {owner : Key} (known : symbol ∈ index.symbols) (has : reference ∈ symbol.references)
    (unbound : boundTarget index reference = .ok none) (redefines : reference.kind = .redefinition)
    (owned : symbol.owner = some owner) (isPath : reference.target = .text path)
    (answers : ∀ active, ∀ symbol ∈ index.symbols, ∀ reference ∈ symbol.references,
      Halts allowed (Memo.Within index) index.Has (refer active reference symbol)) :
    Halts allowed (Memo.Within index) index.Has
      (resolveRedefinition index refer active path symbol owner) := by
  obtain ⟨name, rfl⟩ := (spelled.typed.symbols symbol known).owner owner owned
  unfold resolveRedefinition
  cases isLast : (QualifiedName.segments path).getLast? with
  | none =>
    apply Halts.throw
    refine blank symbol known reference has ⟨unbound, redefines, by rw [owned]; rfl, ?_⟩
    intro other isOther
    rw [isPath] at isOther
    rw [← Key.text_inj isOther]
    exact List.getLast?_eq_none_iff.mp isLast
  | some last =>
    have inherits := findInherited_ends (answers active) (.text name) last
    refine inherits.bind fun found isIn => ?_
    cases found with
    | some found => exact .pure isIn
    | none =>
      have around : parentScope (.text name) = .ok ((QualifiedName.parent? name).map .text) := rfl
      refine (Halts.lift (p := (· = (QualifiedName.parent? name).map .text)) around rfl).bind
        fun scope isScope => ?_
      subst isScope
      have resolves : Halts allowed (Memo.Within index) index.Has (resolveWith index refer active
          ⟨path, (QualifiedName.parent? name).map .text, symbol.file⟩) := by
        apply resolveWith_ends
        intro _
        exact answer_halts spelled deep (answers _) (Key.isName_map _)
      refine resolves.bind fun found isIn => .pure fun target kept => ?_
      exact isIn target (Option.filter_eq_some_iff.mp kept).1

/-- However deep references may nest, each of them has an answer, or fails for nesting too deep
or for a redefinition without a segment. -/
theorem referAt_halts (depth : Nat) (active : List Query) (known : symbol ∈ index.symbols)
    (has : reference ∈ symbol.references) :
    Halts allowed (Memo.Within index) index.Has
      (referAt index depth active reference symbol) := by
  induction depth generalizing active symbol reference with
  | zero => exact .throw deep
  | succ depth ih =>
    have typed := spelled.references symbol known reference has
    obtain ⟨bound, isBound⟩ := boundTarget_typed index typed
    obtain ⟨path, isText⟩ := typed.target
    have isPath : pathOf reference = .ok path := by
      rw [pathOf, isText]
      rfl
    refine (Halts.lift (p := (· = bound)) isBound rfl).bind fun found same => ?_
    subst same
    cases found with
    | some found => exact .pure (boundTarget_within spelled.typed.ids isBound)
    | none =>
      refine (Halts.lift (p := (· = path)) isPath rfl).bind fun found same => ?_
      subst same
      split
      · next owner redefines owned =>
        apply resolveRedefinition_halts spelled deep blank known has isBound redefines owned isText
        intro active other knownToo asked isAsked
        exact ih active knownToo isAsked
      · apply resolveWith_ends
        intro _
        refine answer_halts spelled deep ?_ (spelled.typed.symbols symbol known).owner
        intro other knownToo asked isAsked
        exact ih _ knownToo isAsked

theorem resolveReference_halts (known : symbol ∈ index.symbols)
    (has : reference ∈ symbol.references) :
    Halts allowed (Memo.Within index) index.Has (resolveReference index reference symbol) :=
  referAt_halts spelled deep blank _ _ known has

end Halting

end Scope

end Sysml
