import Sysml.Proofs.Scope.Descent
import Sysml.Proofs.Scope.Redefining
import Sysml.Proofs.Session.Analyzing
import Sysml.Proofs.Session.Depths

/-!
# Searches without redefinitions

Supertypes, imports and names may depend on each other in circles. Where nothing is redefined, all
searches over texts end, and so does the check of a workspace (`rebuild_bounded`).
-/

set_option autoImplicit false

/-!
## How deep references nest

A query that comes up while it is under way is cut off, so no query is under way twice. Where no
redefinition is involved, a query is answered by queries that references ask, and so these nest at
most one deeper than there are different ones (`Index.Tame.bounded`): a bound of that depth has no
effect on any answer.
-/

namespace Sysml.Scope

section Repeated

variable {κ : Type} [BEq κ]

/-- Leaving out what occurred already leaves nothing out. -/
theorem contains_eraseDups [EquivBEq κ] {keys : List κ} {key : κ}
    (known : keys.contains key = true) : keys.eraseDups.contains key = true := by
  match keys with
  | [] => cases known
  | first :: rest =>
    rw [List.eraseDups_cons, List.contains_cons]
    cases same : key == first with
    | true => rfl
    | false =>
      rw [List.contains_cons, same, Bool.false_or] at known
      rw [Bool.false_or]
      apply contains_eraseDups
      obtain ⟨other, member, equal⟩ := List.contains_iff_exists_mem_beq.mp known
      refine List.contains_iff_exists_mem_beq.mpr ⟨other, List.mem_filter.mpr ⟨member, ?_⟩, equal⟩
      rw [← BEq.congr_left equal, same]
      rfl
termination_by keys.length
decreasing_by exact Nat.lt_succ_of_le (List.length_filter_le ..)

theorem eraseDups_length_le (keys : List κ) : keys.eraseDups.length ≤ keys.length := by
  match keys with
  | [] => exact Nat.le_refl _
  | first :: rest =>
    rw [List.eraseDups_cons]
    have fewer := List.length_filter_le (fun other => !other == first) rest
    exact Nat.succ_le_succ (Nat.le_trans (eraseDups_length_le _) fewer)
termination_by keys.length
decreasing_by exact Nat.lt_succ_of_le (List.length_filter_le ..)

end Repeated

def Index.askedCount (index : Index) : Nat :=
  index.asked.eraseDups.length

theorem askedCount_lt_depthBound (index : Index) : index.askedCount < index.depthBound := by
  have few := eraseDups_length_le index.asked
  have most := Nat.le_mul_of_pos_right (index.asked.length + 2)
    (show 0 < index.asked.length + 2 from Nat.succ_pos _)
  rw [asked_length] at few most
  rw [Index.askedCount, Index.depthBound]
  omega

/-! ## Deeper nesting makes no difference -/

/-- The second search does what the first one does where that one reaches no bound. -/
structure Extends {α : Type} (index : Index) (post : α → Prop) (left right : Search α) : Prop where
  same : ∀ {memo}, memo.Within index → (outcome left memo).1 ≠ .error .unbounded →
    outcome right memo = outcome left memo
  answers : ∀ {memo}, memo.Within index → ∀ value, (outcome left memo).1 = .ok value → post value
  within : ∀ {memo}, memo.Within index → (outcome left memo).2.Within index

namespace Extends

variable {α β : Type} {index : Index} {post : α → Prop}

theorem of_eq {run : Search α} {active : List Query} (behaves : Behaves index active post run) :
    Extends index post run run :=
  ⟨fun _ _ => rfl, behaves.answers, behaves.within⟩

/-- What reaches the bound at once is extended by whatever there is. -/
theorem of_unbounded (right : Search α) :
    Extends index post (MonadExcept.throw .unbounded) right where
  same _ bounded := (bounded rfl).elim
  answers _ _ same := by cases same
  within inside := inside

theorem bind {mid : α → Prop} {post : β → Prop} {left right : Search α}
    {nextLeft nextRight : α → Search β} (first : Extends index mid left right)
    (rest : ∀ value, mid value → Extends index post (nextLeft value) (nextRight value)) :
    Extends index post (left >>= nextLeft) (right >>= nextRight) := by
  constructor
  · intro memo inside bounded
    have same := first.same inside
    have holds := first.answers inside
    have insideLater := first.within inside
    rw [outcome_bind, outcome_bind]
    rw [outcome_bind] at bounded
    rcases ran : outcome left memo with ⟨failure | value, later⟩ <;>
      rw [ran] at same holds insideLater bounded
    · have bounded : Except.error failure ≠ (.error .unbounded : Except Failure α) := by
        rintro ⟨⟩
        exact bounded rfl
      rw [same bounded]
    · rw [same nofun]
      exact (rest value (holds value rfl)).same insideLater bounded
  · intro memo inside value answered
    have holds := first.answers inside
    have insideLater := first.within inside
    rw [outcome_bind] at answered
    rcases ran : outcome left memo with ⟨failure | found, later⟩ <;>
      rw [ran] at holds insideLater answered
    · cases answered
    · exact (rest found (holds found rfl)).answers insideLater value answered
  · intro memo inside
    have holds := first.answers inside
    have insideLater := first.within inside
    rw [outcome_bind]
    rcases ran : outcome left memo with ⟨failure | found, later⟩ <;> rw [ran] at holds insideLater
    · exact insideLater
    · exact (rest found (holds found rfl)).within insideLater

def simulation (index : Index) : Simulation where
  related := Extends index
  pure holds := of_eq (.pure holds : Behaves index [] _ _)
  throw failure := of_eq (.throw failure : Behaves index [] _ _)
  bind := bind

theorem resolveWith {left right : Refer} {active : List Query} {query : Query}
    (answers : Extends index index.Has (answer index (left (query :: active)) query)
      (answer index (right (query :: active)) query)) :
    Extends index index.Has (resolveWith index left active query)
      (resolveWith index right active query) := by
  have alike {memo : Memo} (inside : memo.Within index)
      (bounded : (outcome (Scope.resolveWith index left active query) memo).1 ≠
        .error .unbounded) :
      outcome (Scope.resolveWith index right active query) memo =
        outcome (Scope.resolveWith index left active query) memo := by
    rw [resolveWith_outcome] at bounded ⊢
    rw [resolveWith_outcome]
    have same := answers.same inside
    split
    · rfl
    · split
      · rfl
      · next unknown idle =>
        rw [unknown] at bounded
        dsimp only at bounded
        rw [if_neg idle] at bounded
        rcases ran : outcome (answer index (left (query :: active)) query) memo with
          ⟨failure | found, later⟩ <;> rw [ran] at same bounded
        · rw [same bounded]
        · rw [same nofun]
  have kept {memo : Memo} (inside : memo.Within index) :
      (∀ found, (outcome (Scope.resolveWith index left active query) memo).1 = .ok found →
        index.Has found) ∧
      (outcome (Scope.resolveWith index left active query) memo).2.Within index := by
    have holds := answers.answers inside
    have insideLater := answers.within inside
    rw [resolveWith_outcome]
    split
    · next known looked => exact ⟨fun _ same => Except.ok.inj same ▸ inside.lookup looked, inside⟩
    · split
      · exact ⟨fun _ same => Except.ok.inj same ▸ index.has_none, inside⟩
      · rcases ran : outcome (answer index (left (query :: active)) query) memo with
          ⟨failure | found, later⟩ <;> rw [ran] at holds insideLater
        · exact ⟨fun _ same => (by cases same), insideLater⟩
        · refine ⟨fun _ same => Except.ok.inj same ▸ holds found rfl, ?_⟩
          intro entry member
          rcases List.mem_cons.mp member with rfl | old
          · exact holds found rfl
          · exact insideLater entry old
  exact ⟨alike, fun inside => (kept inside).1, fun inside => (kept inside).2⟩

/-- References that nest less deep than is allowed nest so too where more is allowed. -/
theorem referAt (within : index.IdsWithin) (depth more : Nat) (active : List Query)
    (reference : Reference) (symbol : Symbol) :
    Extends index index.Has (referAt index depth active reference symbol)
      (referAt index (depth + more) active reference symbol) := by
  induction depth generalizing active reference symbol with
  | zero => exact of_unbounded _
  | succ depth ih =>
    rw [Nat.add_right_comm]
    refine (simulation index).referAt_related within (fun query => ?_) rfl rfl
      (fun symbol _ reference _ => ih active reference symbol) reference symbol
    exact resolveWith ((simulation index).answer_related within
      (fun symbol _ reference _ => ih (query :: active) reference symbol) query)

theorem resolve (within : index.IdsWithin) (depth more : Nat) (query : Query) :
    Extends index index.Has (Scope.resolveWith index (Scope.referAt index depth) [] query)
      (Scope.resolveWith index (Scope.referAt index (depth + more)) [] query) :=
  resolveWith ((simulation index).answer_related within
    (fun symbol _ reference _ => referAt within depth more [query] reference symbol) query)

end Extends

/-! ## How deep references nest at most -/

/-- Whatever is remembered, both searches have one answer, and remember alike. -/
def SameAnswer (index : Index) (bounded run : Search (Option Symbol)) : Prop :=
  ∀ memo : Memo, memo.Within index → ∃ found later, outcome bounded memo = (.ok found, later) ∧
    outcome run memo = (.ok found, later) ∧ later.Within index

theorem Extends.sameAnswer {index : Index} {bounded run : Search (Option Symbol)}
    (extends_ : Extends index index.Has bounded run) (ends : Ends index index.Has bounded) :
    SameAnswer index bounded run := by
  intro memo inside
  obtain ⟨found, later, ran, _, insideLater⟩ := ends.ends inside
  have same := extends_.same inside (by rw [ran]; exact nofun)
  exact ⟨found, later, ran, same.trans ran, insideLater⟩

/-- Searches end, and within them queries nest at most so deep. -/
structure Index.Bounded (index : Index) (most : Nat) : Prop where
  /-- A path has an answer as seen from any namespace, with at most so many queries nested in it. -/
  resolves : ∀ (path file : String) (scope : Option String),
    SameAnswer index (resolveWith index (referAt index most) [] ⟨path, scope.map .text, file⟩)
      (resolve index ⟨path, scope.map .text, file⟩)
  /-- A reference has an answer, with at most so many queries nested in the one that it asks. -/
  refers : ∀ reference symbol, reference.Typed → Key.IsName symbol.owner →
    (reference.kind = .redefinition → symbol.owner = none) →
      SameAnswer index (referAt index (most + 1) [] reference symbol)
        (resolveReference index reference symbol)
  /-- A search for members ends, whatever queries are under way and whatever was visited. -/
  members : ∀ active name space visited, Ends index (fun _ => True)
    (member index (referAt index most active) name index.memberFuel space visited)
  /-- So does a search through imports. -/
  imports : ∀ active name file (space : Option String) publicOnly visited, Ends index (fun _ => True)
    (throughImports index (referAt index most active) name file index.memberFuel
      (space.map .text) publicOnly visited)
  /-- What is below a namespace is walked through, though no name that was met is remembered. -/
  descendants : ∀ space name, ∃ steps,
    sweep index name steps (index.members (some space)) = some (descendant index space name)

/-- Where references end, scopes lead to the root and symbols lie deeper than their owners, no
more queries nest than references ask, but for the one that is cut off. -/
theorem Index.Tame.bounded {index : Index} {depth : Key.Code → Nat} (tame : index.Tame)
    (typed : index.Typed) (rooted : index.Rooted) (deeper : index.Deeper depth) :
    index.Bounded (index.askedCount + 1) := by
  have covers (query : Query) (asked : query ∈ index.asked) :
      index.asked.eraseDups.contains query = true := by
    apply contains_eraseDups
    exact List.contains_iff_exists_mem_beq.mpr ⟨query, asked, BEq.rfl⟩
  have answers (active : List Query) (symbol : Symbol) (known : symbol ∈ index.symbols)
      (reference : Reference) (has : reference ∈ symbol.references) :
      Ends index index.Has (referAt index (index.askedCount + 1) active reference symbol) := by
    apply referAt_ends tame covers _ known has
    exact Nat.lt_succ_of_le (remaining_le _ _)
  have resolves (path file : String) {scope : Option Key} (isName : Key.IsName scope) :
      Ends index index.Has
        (resolveWith index (referAt index (index.askedCount + 1)) [] ⟨path, scope, file⟩) := by
    apply resolveWith_ends
    intro _
    exact answer_ends (answers _) tame.ids tame.names tame.imports
      (rooted.outwardFuel_enough typed isName)
  obtain ⟨more, isBound⟩ := Nat.exists_eq_add_of_le (askedCount_lt_depthBound index)
  constructor
  · intro path file scope
    rw [resolve, isBound]
    exact (Extends.resolve tame.ids _ more _).sameAnswer (resolves path file (Key.isName_map scope))
  · intro reference symbol isReference isName free
    rw [resolveReference, isBound, Nat.succ_eq_add_one, Nat.add_right_comm _ more]
    refine (Extends.referAt tame.ids _ more [] reference symbol).sameAnswer ?_
    obtain ⟨bound, isBound⟩ := boundTarget_typed index isReference
    obtain ⟨path, isPath⟩ := isReference.target
    refine (Halts.lift (p := (· = bound)) isBound rfl).bind fun found same => ?_
    subst same
    cases found with
    | some found => exact .pure (boundTarget_within tame.ids isBound)
    | none =>
      have gives : pathOf reference = .ok path := by
        rw [pathOf, isPath]
        rfl
      refine (Halts.lift (p := (· = path)) gives rfl).bind fun _ same => ?_
      subst same
      split
      · next redefines owned =>
        rw [free redefines] at owned
        cases owned
      · exact resolves _ _ isName
  · intro active name space visited
    apply (member_ends (answers active) name _).mono fun _ _ => trivial
    have few := unvisited_le index visited
    rw [Index.memberFuel]
    omega
  · intro active name file space publicOnly visited
    apply (throughImports_ends (answers active) tame.ids tame.names tame.imports name file
      (Key.isName_map space) _).mono fun _ _ => trivial
    have few := unvisited_le index visited
    rw [Index.memberFuel]
    split <;> omega
  · exact sweep_descendant deeper

end Sysml.Scope

namespace Sysml

open Scope

namespace Workspace

variable {w : Workspace}

def Plain (w : Workspace) : Prop :=
  ∀ symbol ∈ w.symbols, ∀ reference ∈ symbol.references, reference.kind ≠ .redefinition

theorem Plain.redefinesNothing (plain : w.Plain) : w.RedefinesNothing :=
  fun symbol known _ => plain symbol known

/-- Texts in which nothing is redefined are indexed and checked, and every search on their index
ends, whatever is remembered: at most one query more than different ones are asked by references
nests in another. -/
theorem rebuild_bounded (parsed : ∀ file ∈ w.files, file.Parsed) (plain : w.Plain) :
    ∃ index later, w.rebuild = (.ok index, later) ∧ index.Bounded (index.askedCount + 1) := by
  obtain ⟨later, built⟩ := rebuild_plain parsed plain.redefinesNothing
  refine ⟨_, later, built, ?_⟩
  apply (tame_of_parsed parsed plain.redefinesNothing).bounded
  · exact (spelled_of_parsed parsed).index.typed
  · exact rooted_of_parsed parsed
  · intro symbol known
    obtain ⟨file, inside, has⟩ := List.mem_flatMap.mp known
    obtain ⟨first, same⟩ := (parsed file inside).symbols
    rw [same] at has
    obtain ⟨old, given, serial, rfl⟩ := mem_numbered has
    exact (Notation.parse_deeper Session.nameLength_deepens _ _ _ old given).congr rfl rfl

end Workspace

namespace Session

/-- Two packages that import each other, a definition that specializes itself, and one that
specializes what it would inherit. -/
def circular : List (String × String × Bool) :=
  [("m.sysml", "package P { public import Q::*; part def A :> A; } " ++
    "package Q { public import P::*; part def B :> B::A; }", false)]

theorem rebuild_bounded_circular :
    (∀ file ∈ (ofTexts circular).workspace.files, file.Parsed) ∧
      (ofTexts circular).workspace.Plain ∧
      ∃ index later, (ofTexts circular).workspace.rebuild = (.ok index, later) ∧
        index.askedCount = 2 ∧ index.Bounded 3 := by
  have found : (∀ symbol ∈ (ofTexts circular).workspace.symbols,
        ∀ reference ∈ symbol.references, reference.kind ≠ .redefinition) ∧
      (Index.build (ofTexts circular).workspace.symbols
        (ofTexts circular).workspace.rootImports).askedCount = 2 := by
    decide +kernel
  obtain ⟨plain, asked⟩ := found
  obtain ⟨index, later, built, bounded⟩ := Workspace.rebuild_bounded ofTexts_parsed plain
  rw [← (Workspace.rebuild_ok built).1] at asked
  rw [asked] at bounded
  exact ⟨ofTexts_parsed, plain, index, later, built, asked, bounded⟩

end Session

end Sysml
