import Sysml.Proofs.Session.Direct
import Sysml.Proofs.Session.Nesting

/-!
# Qualified redefinitions

A redefinition is looked for by the last segment of its path among what the supertypes of the owner
hand down, whatever stands before that segment. So it means the feature that its path names when
that is the only such feature of the name (`resolveReference_redefined`), and may mean another one
when two supertypes have features of the name (`secondSupertype_passed_over`).
-/

set_option autoImplicit false

namespace Sysml.Scope

/-!
## What supertypes hand down
-/

section Members

variable {index : Index} {told : Symbol → Reference → Option Symbol}

/-- A member of a namespace, or of one that references lead to. -/
def Carries (index : Index) (told : Symbol → Reference → Option Symbol) (space : String)
    (symbol : Symbol) : Prop :=
  ∃ reached, Relation.ReflTransGen (DrawsOn index told) space reached ∧
    symbol ∈ index.members (some (.text reached))

/-- A member, direct or inherited, of something else that a reference of the namespace leads to. -/
def HandsDown (index : Index) (told : Symbol → Reference → Option Symbol) (space : String)
    (symbol : Symbol) : Prop :=
  ∃ general, DrawsOn index told space general ∧ general ≠ space ∧ Carries index told general symbol

theorem HandsDown.carries {space : String} {symbol : Symbol}
    (handed : HandsDown index told space symbol) : Carries index told space symbol := by
  obtain ⟨general, draws, _, reached, path, member⟩ := handed
  exact ⟨reached, .head draws path, member⟩

variable {inv : Memo → Prop} {refer : Reference → Symbol → Search (Option Symbol)}
  (named : ∀ symbol reference general, told symbol reference = some general →
    ∃ name, general.qualifiedName = .text name)
  (follows : ∀ symbol ∈ index.symbols, ∀ reference ∈ symbol.references,
    Keeps inv (fun found => found = told symbol reference) (refer reference symbol))

include named follows

theorem inherited_hands {down : Key → List Key → Search (Option Symbol × List Key)}
    {space name : String}
    (below : ∀ next visited, Keeps inv (fun answer => Meets (fun symbol =>
        Carries index told next symbol ∧ answersTo name symbol = true) answer.1)
      (down (.text next) visited))
    {entries : List (Symbol × Reference)} (inside : entries ⊆ index.outgoing (.text space))
    (visited : List Key) :
    Keeps inv (fun answer => Meets (fun symbol =>
        HandsDown index told space symbol ∧ answersTo name symbol = true) answer.1)
      (inherited refer down (.text space) entries visited) := by
  induction entries generalizing visited with
  | nil => exact .pure (meets_none _)
  | cons entry rest ih =>
    obtain ⟨symbol, reference⟩ := entry
    obtain ⟨here, others⟩ := List.cons_subset.mp inside
    obtain ⟨known, has⟩ := Index.outgoing_within here
    simp only [inherited]
    refine (follows symbol known reference has).bind fun general followed => ?_
    cases general with
    | none => exact ih others visited
    | some general =>
      obtain ⟨next, isNext⟩ := named symbol reference general followed.symm
      dsimp only
      rw [isNext]
      split
      · exact ih others visited
      · next apart =>
        refine (below next visited).bind fun answer found => ?_
        obtain ⟨member, later⟩ := answer
        cases member with
        | none => exact ih others later
        | some member =>
          obtain ⟨carried, answers⟩ := found member rfl
          refine .pure (meets_some ⟨⟨next, ?_, fun same => apart ?_, carried⟩, answers⟩)
          · exact ⟨(symbol, reference), here, general, followed.symm, isNext⟩
          · rw [same]
            exact BEq.rfl

theorem member_carries (name : String) (fuel : Nat) (space : String) (visited : List Key) :
    Keeps inv (fun answer => Meets (fun symbol =>
        Carries index told space symbol ∧ answersTo name symbol = true) answer.1)
      (member index refer name fuel (some (.text space)) visited) := by
  induction fuel generalizing space visited with
  | zero => exact .throw _
  | succ fuel ih =>
    simp only [member]
    split
    · next found looked =>
      exact .pure (meets_some
        ⟨⟨space, .refl, List.mem_of_find?_eq_some looked⟩, List.find?_some looked⟩)
    · split
      · exact .pure (meets_none _)
      · refine (inherited_hands named follows (fun next visited => ih next visited)
          (List.Subset.refl _) _).mono fun answer found symbol same => ?_
        obtain ⟨handed, answers⟩ := found symbol same
        exact ⟨handed.carries, answers⟩

/-- Where nothing is found for a name, nothing of the name is handed down, not even by way of
namespaces that lead back. -/
theorem findInherited_complete (space name : String) :
    Keeps inv (fun found => found = none → ∀ symbol, HandsDown index told space symbol →
        answersTo name symbol = false)
      (findInherited index refer (.text space) name) := by
  refine (inherited_explores named follows
    (fun next visited => member_explores named follows name _ next visited)
    (List.Subset.refl _) _).bind fun answer searched => .pure fun isNone symbol handed => ?_
  obtain ⟨explores, drawn⟩ := searched isNone
  obtain ⟨general, draws, apart, reached, path, member⟩ := handed
  have first {next : String} (draws : DrawsOn index told space next) :
      next = space ∨ answer.2.contains (.text next) = true ∧ Lacks index name next := by
    obtain ⟨entry, listed, general, isTold, isNext⟩ := draws
    exact drawn entry listed general next isTold isNext
  -- a chain that leads back to where the search began goes on as one that begins there
  have lacks : Lacks index name reached ∧
      (reached = space ∨ answer.2.contains (.text reached) = true) := by
    clear member
    induction path with
    | refl =>
      obtain ⟨held, lacks⟩ := (first draws).resolve_left apart
      exact ⟨lacks, .inr held⟩
    | @tail between next _ further ih =>
      by_cases back : between = space
      · subst back
        rcases first further with rfl | ⟨held, lacks⟩
        · exact ih
        · exact ⟨lacks, .inr held⟩
      · have held := ih.2.resolve_left back
        have fresh : [Key.text space].contains (.text between) = false := by
          simpa [Key.text_beq] using back
        exact ⟨(explores.dry between held fresh).2 next further,
          .inr (explores.closed between held fresh next further)⟩
  exact lacks.1 symbol member

/-- What is found for a name among what a namespace inherits is handed down and has the name. -/
theorem findInherited_hands (space name : String) :
    Keeps inv (Meets fun symbol => HandsDown index told space symbol ∧ answersTo name symbol = true)
      (findInherited index refer (.text space) name) :=
  (inherited_hands named follows (fun next visited => member_carries named follows name _ next visited)
    (List.Subset.refl _) _).bind fun _ found => .pure found

end Members

/-!
## Searches that ask nothing new
-/

section Fixed

variable {index : Index} {memo : Memo}

/-- Where the first search leaves the memo as it is, the second one answers the same and leaves it
too. -/
structure Freezes {α : Type} (index : Index) (memo : Memo) (post : α → Prop)
    (left right : Search α) : Prop where
  behaves : Behaves index [] post left
  same : ∀ value, outcome left memo = (.ok value, memo) → outcome right memo = (.ok value, memo)

def Freezes.simulation (inside : memo.Within index) : Simulation where
  related := Freezes index memo
  pure holds := ⟨.pure holds, fun _ ran => by cases ran; rfl⟩
  throw failure := ⟨.throw failure, fun _ ran => by cases ran⟩
  bind := by
    intro α β mid post left right nextLeft nextRight first rest
    refine ⟨first.behaves.bind fun value holds => (rest value holds).behaves, fun value ran => ?_⟩
    obtain ⟨between, holds, firstRan, restRan⟩ := outcome_bind_fixed inside first.behaves
      (fun value holds => (rest value holds).behaves) ran
    rw [outcome_bind_of_ok (first.same between firstRan)]
    exact (rest between holds).same value restRan

variable (within : index.IdsWithin) (inside : memo.Within index)

include within inside

/-- A reference that is resolved on the way, where nothing new is stored, means what it means when it
is asked for itself. -/
theorem referAt_freezes (reference : Reference) (symbol : Symbol) :
    Freezes index memo index.Has (referAt index index.depthBound [] reference symbol)
      (pure (meaning index memo symbol reference)) where
  behaves := Behaves.referAt within _ _ reference symbol
  same value ran := by
    have deeper := (Extends.referAt within index.depthBound 1 [] reference symbol).same inside
      (by rw [ran]; exact fun same => by cases same)
    have asked : outcome (resolveReference index reference symbol) memo = (.ok value, memo) :=
      deeper.trans ran
    rw [meaning, asked]
    rfl

variable {symbol : Symbol} {reference : Reference} {path last owner : String}

/-- What a redefinition means, where that is remembered: a feature that is handed down to its owner
and has the name that the path ends in, if there is one. -/
theorem redefinition_hands
    (named : ∀ symbol ∈ index.symbols, ∃ name, symbol.qualifiedName = .text name)
    (unbound : boundTarget index reference = .ok none) (isPath : pathOf reference = .ok path)
    (redefines : reference.kind = .redefinition) (owned : symbol.owner = some (.text owner))
    (isLast : (QualifiedName.segments path).getLast? = some last) {answer : Option Symbol}
    (settled : outcome (resolveReference index reference symbol) memo = (.ok answer, memo)) :
    (∃ found, answer = some found ∧ HandsDown index (meaning index memo) owner found ∧
        answersTo last found = true) ∨
      ∀ other, HandsDown index (meaning index memo) owner other → answersTo last other = false := by
  have behaves (symbol : Symbol) (_ : symbol ∈ index.symbols) (reference : Reference)
      (_ : reference ∈ symbol.references) := referAt_freezes within inside reference symbol
  have told (symbol : Symbol) (reference : Reference) (general : Symbol)
      (means : meaning index memo symbol reference = some general) :
      ∃ name, general.qualifiedName = .text name :=
    named general ((resolveReference_behaves within reference symbol).answers inside _
      (toOption_join_eq_some.mp means) general rfl)
  have follows (symbol : Symbol) (_ : symbol ∈ index.symbols) (reference : Reference)
      (_ : reference ∈ symbol.references) :
      Keeps (· = memo) (fun found => found = meaning index memo symbol reference)
        (pure (meaning index memo symbol reference)) := .pure rfl
  have searches := (Freezes.simulation inside).findInherited_related behaves (.text owner) last
  have ran : outcome (resolveRedefinition index (referAt index index.depthBound) [] path symbol
      (.text owner)) memo = (.ok answer, memo) := by
    rw [← settled]
    unfold resolveReference referAt
    rw [unbound, isPath, redefines, owned]
    refine ((outcome_bind_of_ok (outcome_liftM _ _)).trans ?_).symm
    exact outcome_bind_of_ok (outcome_liftM _ _)
  unfold resolveRedefinition at ran
  rw [isLast] at ran
  obtain ⟨found, _, searched, ran⟩ := outcome_bind_fixed inside searches.behaves
    (fun found has => by
      show Behaves index [] (fun _ => True) _
      cases found with
      | some found => exact .pure trivial
      | none =>
        refine ((Behaves.simulation index []).liftAny _).bind fun scope _ => ?_
        exact (Behaves.resolveWith (Behaves.answer within _ _ _)).bind fun _ _ => .pure trivial) ran
  have frozen := searches.same found searched
  cases found with
  | some found =>
    cases ran
    exact .inl ⟨found, rfl, (findInherited_hands told follows owner last).answers rfl _
      (by rw [frozen]) found rfl⟩
  | none =>
    exact .inr ((findInherited_complete told follows owner last).answers rfl _ (by rw [frozen]) rfl)

end Fixed

/-!
## What a path ends in
-/

/-- What a path means has its last segment for a name, unless it is found by the whole path for its
qualified name. -/
theorem Means.answers {index : Index} (within : index.IdsWithin) {query : Query} {found : Symbol}
    (means : Means index query found) {last : String}
    (isLast : (QualifiedName.segments query.path).getLast? = some last)
    (named : ∃ name, found.qualifiedName = .text name)
    (spelled : found.qualifiedName = .text query.path → answersTo last found = true) :
    answersTo last found = true := by
  cases means with
  | walk split _ _ offers descends =>
    rw [split] at isLast
    exact descends.answersTo (offers.known within).2 last isLast
  | whole _ looked =>
    obtain ⟨name, isName⟩ := named
    rw [Index.lookup] at looked
    have same := List.find?_some looked
    rw [isName, Key.text_beq, beq_iff_eq] at same
    exact spelled (same ▸ isName)

theorem Memo.onward_known {index : Index} (within : index.IdsWithin) {memo : Memo}
    (inside : memo.Within index) (calls : List Call) : memo.Known (memo.onward index calls) := by
  have keeps (call : Call) (later : Memo) (kept : later.Within index ∧ memo.Known later) :
      (outcome (call.run index) later).2.Within index ∧
        memo.Known (outcome (call.run index) later).2 := by
    have behaves : Behaves index [] index.Has (call.run index) := by
      cases call with
      | ask query => exact resolve_behaves within query
      | refer reference symbol => exact resolveReference_behaves within reference symbol
    exact ⟨behaves.within kept.1, fun query found known =>
      (behaves.grows kept.1).known query found (kept.2 query found known)⟩
  exact (Memo.onward_keeps keeps ⟨inside, fun _ _ known => known⟩ calls).2

end Sysml.Scope

namespace Sysml.Session

open Scope

section Redefined

variable {changes : List Change} {session : Session} {index : Index}
  (reads : ∀ change ∈ changes, change.reads = true) (reached : after changes = session)
  (ready : session.isReady = true) (indexed : session.workspace.index = some index)
  {symbol : Symbol} {reference : Reference}

include reads reached ready indexed

theorem resolveReference_own (own : symbol ∈ session.workspace.ownSymbols)
    (has : reference ∈ symbol.references) (calls : List Call) :
    ∃ found, outcome (resolveReference index reference symbol)
      (session.workspace.memo.onward index calls) =
        (.ok found, session.workspace.memo.onward index calls) := by
  subst reached
  have read := after_read reads
  have checked := read.checked ready
  obtain rfl := Option.some.inj (indexed.symm.trans checked.found)
  have within := Index.build_idsWithin (after changes).workspace.symbols
    (after changes).workspace.rootImports
  have inside := (read.upheld ready (upholds_direct _) []).within
  have answered := (read.answered (after_consistent changes).tidy checked own).references
    reference has
  exact ⟨_, (resolveReference_settles within reference symbol).again inside answered
    (Memo.onward_known within inside calls)⟩

/-- However texts were loaded, and whatever was asked before: a redefinition whose path has several
segments means the feature that the path means around the owner, if a supertype of the owner hands
that feature down, and no other feature of the last segment's name. What a supertype is goes by what
references mean once the redefinition has been resolved. In a library it may happen that it cannot be
resolved at all. -/
theorem resolveReference_redefined
    (known : symbol ∈ session.workspace.symbols) {owner : String}
    (owned : symbol.owner = some (.text owner)) (has : reference ∈ symbol.references)
    (redefines : reference.kind = .redefinition)
    {path first last : String} {front : List String} (isTarget : reference.target = .text path)
    (segments : QualifiedName.segments path = first :: (front ++ [last])) {target : Symbol}
    (earlier : List Call)
    (resolved : (outcome (resolve index ⟨path, some (.text owner), symbol.file⟩)
      (session.workspace.memo.onward index earlier)).1 = .ok (some target))
    (calls : List Call) {answer : Except Failure (Option Symbol)} {memo : Memo}
    (asked : outcome (resolveReference index reference symbol)
      (session.workspace.memo.onward index calls) = (answer, memo))
    (ends : symbol ∈ session.workspace.ownSymbols ∨ ∃ found, answer = .ok found)
    (handed : HandsDown index (meaning index memo) owner target)
    (spelled : target.qualifiedName = .text path → answersTo last target = true)
    (alone : ∀ other, HandsDown index (meaning index memo) owner other →
      answersTo last other = true → other = target) :
    answer = .ok (some target) := by
  have ends : ∃ found, answer = .ok found := by
    refine ends.elim (fun own => ?_) id
    obtain ⟨found, answered⟩ := resolveReference_own reads reached ready indexed own has calls
    rw [answered] at asked
    exact ⟨found, (congrArg Prod.fst asked).symm⟩
  obtain ⟨found, rfl⟩ := ends
  subst reached
  have read := after_read reads
  obtain rfl := Option.some.inj (indexed.symm.trans (read.checked ready).found)
  have within := Index.build_idsWithin (after changes).workspace.symbols
    (after changes).workspace.rootImports
  have written := read.written (after changes).workspace.rootImports
  have named (symbol : Symbol) (known : symbol ∈ (after changes).workspace.symbols) :
      ∃ name, symbol.qualifiedName = .text name := by
    obtain ⟨file, isLibrary, isWritten⟩ := written symbol known
    exact isWritten.qualifiedName
  obtain ⟨file, isLibrary, isWritten⟩ := written symbol known
  have unbound := (isWritten.references reference has).unbound (Index.build
    (after changes).workspace.symbols (after changes).workspace.rootImports)
  have isPath : pathOf reference = .ok path := by
    rw [pathOf, isTarget]
    rfl
  have isLast : (QualifiedName.segments path).getLast? = some last := by
    rw [segments, ← List.cons_append, List.getLast?_concat]
  -- the feature that the path means has the name that it ends in
  have before := read.upheld ready (upholds_direct _) earlier
  have isNamed := named target ((resolve_behaves within _).answers before.within _ resolved target rfl)
  have means := (resolve_derives _ _).answers before.derived _ resolved target rfl
  have answers := means.answers within isLast isNamed spelled
  -- the redefinition means a feature that is handed down
  have inside := (read.upheld ready (upholds_direct _) calls).within
  have insideAfter := (resolveReference_behaves within reference symbol).within inside
  rw [asked] at insideAfter
  have settled := (resolveReference_settles within reference symbol).again inside asked
    (fun _ _ known => known)
  rcases redefinition_hands within insideAfter named unbound isPath redefines owned isLast settled
    with ⟨other, rfl, otherHanded, otherAnswers⟩ | missing
  · rw [alone other otherHanded otherAnswers]
  · rw [missing target handed] at answers
    cases answers

end Redefined

/-- A definition that inherits a feature from the supertype of its supertype, and redefines it. -/
def chained : List Change :=
  [.load "m.sysml"
      "part def A \x7b part x; \x7d part def B :> A; part def C :> B \x7b part y :>> A::x; \x7d" false,
    .reindex]

/-- The feature that the path names is the only one of its name, and is meant. -/
theorem resolveReference_redefined_chained :
    ∃ index, (after chained).workspace.index = some index ∧
      ∃ symbol ∈ (after chained).workspace.symbols, ∃ reference ∈ symbol.references,
        reference.kind = .redefinition ∧ reference.target = .text "A::x" ∧
        ∃ target, target.qualifiedName = .text "A::x" ∧
          (outcome (resolveReference index reference symbol)
            (after chained).workspace.memo).1 = .ok (some target) := by
  have reads : ∀ change ∈ chained, change.reads = true := by decide
  obtain ⟨⟨ready, symbol, own, owned, reference, has, redefines, isTarget, resolved⟩, supertypes,
      few, isFeature⟩ :
      ((after chained).isReady = true ∧
      ∃ symbol ∈ (after chained).workspace.ownSymbols, symbol.owner.bind Key.text? = some "C" ∧
        ∃ reference ∈ symbol.references,
          reference.kind = .redefinition ∧ reference.target.text? = some "A::x" ∧
          ((outcome (resolve (Index.build (after chained).workspace.symbols
              (after chained).workspace.rootImports) ⟨"A::x", some (.text "C"), symbol.file⟩)
            (after chained).workspace.memo).1.toOption.join).bind (·.qualifiedName.text?) =
              some "A::x") ∧
      (∀ edge ∈ [("C", "B"), ("B", "A")],
        ∃ entry ∈ (Index.build (after chained).workspace.symbols
            (after chained).workspace.rootImports).outgoing (.text edge.1),
          (meaning (Index.build (after chained).workspace.symbols
            (after chained).workspace.rootImports) (after chained).workspace.memo entry.1
              entry.2).bind (·.qualifiedName.text?) = some edge.2) ∧
      ((after chained).workspace.symbols.filter (answersTo "x")).length = 1 ∧
      ∀ symbol ∈ (after chained).workspace.symbols, symbol.qualifiedName.text? = some "A::x" →
        (symbol.owner == some (.text "A")) = true ∧ answersTo "x" symbol = true := by
    decide +kernel
  obtain ⟨target, resolved, isNamed⟩ := Option.bind_eq_some_iff.mp resolved
  have resolved := toOption_join_eq_some.mp resolved
  have isNamed := Key.eq_text_of_text? isNamed
  have isTarget := Key.eq_text_of_text? isTarget
  obtain ⟨_, isOwner, same⟩ := Option.bind_eq_some_iff.mp owned
  have owned : symbol.owner = some (.text "C") := Key.eq_text_of_text? same ▸ isOwner
  have indexed := ((after_read reads).checked ready).found
  have known := Workspace.ownSymbols_subset _ own
  have edge {space next : String} (listed : (space, next) ∈ [("C", "B"), ("B", "A")]) :
      DrawsOn (Index.build (after chained).workspace.symbols (after chained).workspace.rootImports)
        (meaning (Index.build (after chained).workspace.symbols
          (after chained).workspace.rootImports) (after chained).workspace.memo) space next := by
    obtain ⟨entry, leaves, leads⟩ := supertypes _ listed
    obtain ⟨general, means, isNext⟩ := Option.bind_eq_some_iff.mp leads
    exact ⟨entry, leaves, general, means, Key.eq_text_of_text? isNext⟩
  have within := Index.build_idsWithin (after chained).workspace.symbols
    (after chained).workspace.rootImports
  have inside := ((after_read reads).upheld ready (upholds_direct _) []).within
  have inIndex := (resolve_behaves within _).answers inside _ resolved target rfl
  obtain ⟨inA, answers⟩ := isFeature target inIndex (by rw [isNamed]; rfl)
  obtain ⟨only, isOnly⟩ := List.length_eq_one_iff.mp few
  have alone {other : Symbol} (listed : other ∈ (after chained).workspace.symbols)
      (answers : answersTo "x" other = true) : other = only :=
    List.mem_singleton.mp (isOnly ▸ List.mem_filter.mpr ⟨listed, answers⟩)
  have segments : QualifiedName.segments "A::x" = "A" :: ([] ++ ["x"]) := by decide
  obtain ⟨found, asked⟩ := resolveReference_own reads rfl ready indexed own has []
  have means := resolveReference_redefined reads rfl ready indexed known owned has redefines
    isTarget segments [] resolved [] asked (.inl own)
    ⟨"B", edge (by decide), by decide, "A", .single (edge (by decide)),
      List.mem_filter.mpr ⟨inIndex, inA⟩⟩
    (fun _ => answers)
    (fun other handed otherAnswers => by
      obtain ⟨_, _, _, _, _, member⟩ := handed
      rw [alone (Index.members_subset _ _ member) otherAnswers, alone inIndex answers])
  refine ⟨_, indexed, symbol, known, reference, has, redefines, isTarget, target, isNamed, ?_⟩
  rw [← means]
  exact congrArg Prod.fst asked

/-- A definition with two supertypes that both have a feature of a name, and a redefinition that
names that of the second one. -/
def twoFeatures : List Change :=
  [.load "m.sysml"
      ("part def A \x7b part x; \x7d part def B \x7b part x; \x7d " ++
        "part def C :> A, B \x7b part y :>> B::x; \x7d") false,
    .reindex]

/-- The path means the feature of the second supertype, and the redefinition that of the first. -/
theorem secondSupertype_passed_over :
    (after twoFeatures).isReady = true ∧
      ∃ symbol ∈ (after twoFeatures).workspace.ownSymbols,
        symbol.owner.bind Key.text? = some "C" ∧
        ∃ reference ∈ symbol.references,
          reference.kind = .redefinition ∧ reference.target.text? = some "B::x" ∧
          (((outcome (resolve (Index.build (after twoFeatures).workspace.symbols
              (after twoFeatures).workspace.rootImports) ⟨"B::x", some (.text "C"), symbol.file⟩)
            (after twoFeatures).workspace.memo).1.toOption.join).map fun target =>
              (target.qualifiedName.text?, target.owner.bind Key.text?)) =
                some (some "B::x", some "B") ∧
          (∃ entry ∈ (Index.build (after twoFeatures).workspace.symbols
              (after twoFeatures).workspace.rootImports).outgoing (.text "C"),
            (meaning (Index.build (after twoFeatures).workspace.symbols
              (after twoFeatures).workspace.rootImports) (after twoFeatures).workspace.memo entry.1
                entry.2).bind (·.qualifiedName.text?) = some "B") ∧
          ((outcome (resolveReference (Index.build (after twoFeatures).workspace.symbols
              (after twoFeatures).workspace.rootImports) reference symbol)
            (after twoFeatures).workspace.memo).1.toOption.join).bind (·.qualifiedName.text?) =
              some "A::x" := by
  decide +kernel

end Sysml.Session
