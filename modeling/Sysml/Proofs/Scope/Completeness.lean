import Sysml.Proofs.Scope.Exploring

/-!
# What simple names mean

Where every reference has the id of a symbol, a simple name has an answer exactly when the
scoping rules derive one, and the answer is that of the innermost namespace around the scope
that offers any (`resolve_complete`).

The search through the imports outside of any declaration marks its start with a name of its
own. A namespace may have that name; then its imports are passed over
(`marked_namespace_is_passed_over`).
-/

set_option autoImplicit false

namespace Sysml.Scope

section Rules

variable {index : Index} {refer : Reference → Symbol → Search (Option Symbol)}
  (typed : index.Typed) (linked : index.Linked)
  (follows : ∀ symbol ∈ index.symbols, ∀ reference ∈ symbol.references, Derives index
    (fun found => ∃ target, boundTarget index reference = .ok (some target) ∧ found = some target)
    (refer reference symbol))

/-- What a name means in a namespace: a member, or else what comes through imports. -/
def Prefers (index : Index) (name file : String) (space : Option Key) (symbol : Symbol) : Prop :=
  IsMember index space name symbol ∨
    (∀ other, ¬ IsMember index space name other) ∧ Imported index false space name file symbol

/-- What a name means in the innermost namespace around a scope that offers anything. -/
inductive Innermost (index : Index) (name file : String) : Option Key → Symbol → Prop where
  | here {space : Option Key} {symbol : Symbol} :
      Prefers index name file space symbol → Innermost index name file space symbol
  | outer {space : Key} {outer : Option Key} {symbol : Symbol} :
      (∀ other, ¬ Offers index (some space) name file other) →
      outerScope index space = .ok outer → Innermost index name file outer symbol →
      Innermost index name file (some space) symbol

theorem Innermost.offered {name file : String} {scope : Option Key} {symbol : Symbol}
    (innermost : Innermost index name file scope symbol) :
    ∃ space, Around index scope space ∧ Offers index space name file symbol := by
  induction innermost with
  | here prefers =>
    rcases prefers with isMember | ⟨_, imported⟩
    · exact ⟨_, .here, .member isMember⟩
    · exact ⟨_, .here, .imported imported⟩
  | outer _ isOuter _ ih =>
    obtain ⟨space, around, offers⟩ := ih
    exact ⟨space, .outer isOuter around, offers⟩

variable (leads : ∀ reference symbol, Derives index (Meets fun general =>
    (general.qualifiedName == symbol.qualifiedName) = false → Leads index symbol reference general)
    (refer reference symbol))

include typed linked follows leads

theorem throughImports_complete {name file : String} {space : Option Key}
    (isName : Key.IsName space) (unmarked : index.Unmarked file) :
    Derives index (fun answer => answer.1 = none →
        ∀ symbol, ¬ Imported index false space name file symbol)
      (throughImports index refer name file index.memberFuel space false []) := by
  rcases Classical.em (space = none ∧ index.importsOf none file = []) with ⟨rfl, empty⟩ | rooted
  · refine (throughImports_derives leads name file _ none false []).mono
      fun _ _ _ symbol imported => ?_
    cases imported with
    | member opens | deep opens | one opens | further opens => cases empty ▸ opens.listed
  · have unmarked : space = none → index.importsOf (some (importMark none file)) file = [] :=
      fun isRoot => unmarked.resolve_right fun empty => rooted ⟨isRoot, empty⟩
    refine (throughImports_explores typed linked follows name file _ isName false []
      unmarked).mono fun answer searched isNone symbol imported => ?_
    obtain ⟨explores, _, spent⟩ := searched isNone
    replace spent := spent rfl
    cases imported with
    | member opens wildcard isMember =>
      exact (spent _ opens.listed _ opens).1 symbol (.member wildcard isMember)
    | deep opens recursive isBelow isNamed =>
      exact (spent _ opens.listed _ opens).1 symbol (.deep recursive isBelow isNamed)
    | one opens single isNamed =>
      exact (spent _ opens.listed _ opens).1 symbol (.one single isNamed)
    | @further _ _ _ _ _ target _ opens wildcard imported =>
      have held := (spent _ opens.listed _ opens).2 wildcard
      obtain ⟨next, isNext⟩ := (typed.symbols target
        (resolveImport_within typed.ids opens.named target rfl)).qualifiedName
      obtain ⟨reached, path, busy⟩ := imported.reached typed rfl next (congrArg some isNext)
      exact busy (explores.reach (isNext ▸ held) path)

theorem inNamespace_complete {name file : String} {space : Option Key}
    (isName : Key.IsName space) (unmarked : index.Unmarked file) :
    Derives index (fun found => (∀ symbol, found = some symbol →
          Prefers index name file space symbol) ∧
        (found = none → ∀ symbol, ¬ Offers index space name file symbol))
      (inNamespace index refer name file space) := by
  refine ((findMember_derives leads space name).and
    (findMember_complete typed follows linked isName name)).bind fun found members => ?_
  obtain ⟨isMember, noMember⟩ := members
  cases found with
  | some found =>
    refine .pure ⟨fun symbol same => ?_, fun isNone => (by cases isNone)⟩
    exact .inl (isMember symbol same)
  | none =>
    refine ((throughImports_derives leads name file _ space false []).and
      (throughImports_complete typed linked follows leads isName unmarked)).bind
      fun answer imports => .pure ⟨fun symbol same => ?_, fun isNone symbol offers => ?_⟩
    · exact .inr ⟨noMember rfl, imports.1 symbol same⟩
    · cases offers with
      | member isMember => exact noMember rfl symbol isMember
      | imported imported => exact imports.2 isNone symbol imported

omit linked follows leads in
/-- What is around a namespace is named by texts too. -/
theorem Index.Typed.outerScope_isName {space : Key} {outer : Option Key}
    (isOuter : outerScope index space = .ok outer) : Key.IsName outer := by
  unfold outerScope at isOuter
  split at isOuter
  · next symbol looked =>
    cases isOuter
    exact (typed.symbols symbol (List.mem_of_find?_eq_some looked)).owner
  · unfold parentScope at isOuter
    split at isOuter
    · cases isOuter
      exact Key.isName_map _
    · cases isOuter

theorem outward_complete {name file : String} (fuel : Nat) {scope : Option Key}
    (isName : Key.IsName scope) (unmarked : index.Unmarked file) :
    Derives index (fun found => (∀ symbol, found = some symbol →
          Innermost index name file scope symbol) ∧
        (found = none → ∀ space, Around index scope space →
          ∀ symbol, ¬ Offers index space name file symbol))
      (outward index refer name file fuel scope) := by
  induction fuel generalizing scope with
  | zero => exact .throw _
  | succ fuel ih =>
    refine (inNamespace_complete typed linked follows leads isName unmarked).bind
      fun found inside => ?_
    obtain ⟨prefers, nothing⟩ := inside
    cases found with
    | some found =>
      exact .pure ⟨fun symbol same => .here (prefers symbol same),
        fun isNone => (by cases isNone)⟩
    | none =>
      cases scope with
      | none =>
        refine .pure ⟨fun _ same => (by cases same), fun _ space around => ?_⟩
        cases around with
        | here => exact nothing rfl
      | some scope =>
        refine (Keeps.lift (outerScope index scope)).bind fun outer isOuter => ?_
        refine (ih (typed.outerScope_isName isOuter)).mono fun found outside => ?_
        refine ⟨fun symbol same => .outer (nothing rfl) isOuter (outside.1 symbol same),
          fun isNone space around => ?_⟩
        cases around with
        | here => exact nothing rfl
        | outer isOuterToo around =>
          cases isOuter.symm.trans isOuterToo
          exact outside.2 isNone space around

/-- No namespace around the scope offers anything for the name. -/
def Unoffered (index : Index) (name file : String) (scope : Option Key) : Prop :=
  ∀ space, Around index scope space → ∀ symbol, ¬ Offers index space name file symbol

structure Answers (index : Index) (name file : String) (scope : Option Key)
    (found : Option Symbol) : Prop where
  some : ∀ symbol, found = some symbol → Innermost index name file scope symbol ∨
    Unoffered index name file scope ∧ index.lookup (.text name) = some symbol
  none : found = none → Unoffered index name file scope ∧ index.lookup (.text name) = none

theorem answer_complete {name file : String} {scope : Option Key} (isName : Key.IsName scope)
    (unmarked : index.Unmarked file) (simple : QualifiedName.segments name = [name]) :
    Derives index (Answers index name file scope) (answer index refer ⟨name, scope, file⟩) := by
  unfold answer
  rw [simple]
  refine (outward_complete typed linked follows leads _ isName unmarked).bind fun found meant => ?_
  obtain ⟨innermost, unoffered⟩ := meant
  cases found with
  | some found =>
    exact .pure ⟨fun symbol same => .inl (innermost symbol same), fun isNone => (by cases isNone)⟩
  | none =>
    exact .pure ⟨fun symbol same => .inr ⟨unoffered rfl, same⟩,
      fun isNone => ⟨unoffered rfl, isNone⟩⟩

end Rules

section Outward

variable {index : Index} {space : Option Key}

theorem Around.outward {scope : Option Key} {inner : Key} {outer : Option Key}
    (around : Around index scope (some inner)) (isOuter : outerScope index inner = .ok outer) :
    Around index scope outer := by
  generalize same : some inner = space at around
  induction around with
  | here =>
    cases same
    exact .outer isOuter .here
  | outer isNext _ ih => exact .outer isNext (ih same)

/-- No namespace is around itself. -/
theorem Index.Rooted.acyclic (rooted : index.Rooted) (typed : index.Typed) {inner outer : String}
    (isOuter : outerScope index (.text inner) = .ok (some (.text outer))) :
    ¬ Around index (some (.text outer)) (some (.text inner)) := by
  induction inner using rooted.induction generalizing outer with
  | h inner ih =>
    intro around
    -- what is around the namespace would be around itself as well
    cases around with
    | here => exact ih inner isOuter isOuter .here
    | @outer _ next _ isNext around =>
      cases next with
      | none => cases around
      | some next =>
        obtain ⟨next, rfl⟩ := typed.outerScope_isName isNext next rfl
        exact ih outer isOuter isNext (around.outward isOuter)

def span (space : Option Key) : Nat :=
  ((space.bind Key.text?).getD "").length

theorem parent?_length {name outer : String} (isParent : QualifiedName.parent? name = some outer) :
    outer.length < name.length := by
  obtain ⟨before, found, rfl⟩ := Option.map_eq_some_iff.mp isParent
  have shorter := QualifiedName.parentChars?_length found
  rwa [String.length_toList, ← String.length_ofList] at shorter

/-- The walk outward passes no indexed name twice, and between two of them it shortens the
name. -/
theorem Index.Rooted.climbs (rooted : index.Rooted) (typed : index.Typed) {longest steps : Nat}
    (bound : ∀ symbol ∈ index.symbols, span symbol.owner ≤ longest) (seen : List Key)
    (isName : Key.IsName space)
    (passed : ∀ name, seen.contains (.text name) = true → ¬ Around index space (some (.text name)))
    (enough : unvisited index seen * (longest + 2) + span space + 2 ≤ steps) :
    Climbs index steps space := by
  induction steps generalizing space seen with
  | zero => omega
  | succ steps ih =>
    cases space with
    | none => exact trivial
    | some key =>
      obtain ⟨name, rfl⟩ := isName key rfl
      refine ⟨⟨name, rfl⟩, ?_⟩
      cases looked : index.lookup (.text name) with
      | none =>
        have isOuter : outerScope index (.text name) =
            .ok ((QualifiedName.parent? name).map .text) := by
          rw [outerScope, looked]
          rfl
        refine ⟨_, isOuter, ?_⟩
        cases isParent : QualifiedName.parent? name with
        | none =>
          obtain ⟨more, rfl⟩ : ∃ more, steps = more + 1 := ⟨steps - 1, by omega⟩
          exact trivial
        | some outer =>
          rw [isParent] at isOuter
          have shorter : span ((some outer).map .text) < span (some (.text name)) :=
            parent?_length isParent
          exact ih seen (typed.outerScope_isName isOuter)
            (fun other held around => passed other held (.outer isOuter around)) (by omega)
      | some symbol =>
        have isOuter : outerScope index (.text name) = .ok symbol.owner := by
          rw [outerScope, looked]
        have known := List.mem_of_find?_eq_some looked
        have same : (symbol.qualifiedName == Key.text name) = true := by
          have found := List.find?_some looked
          exact found
        have fresh : seen.contains (.text name) = false := by
          rw [Bool.eq_false_iff]
          exact fun held => passed name held .here
        have fewer := unvisited_cons (List.mem_filter.mpr ⟨known, same⟩) fresh
        refine ⟨_, isOuter, ih (.text name :: seen)
          (typed.symbols symbol known).owner (fun other held around => ?_) ?_⟩
        · rw [List.contains_cons, Bool.or_eq_true, Key.text_beq, beq_iff_eq] at held
          rcases held with rfl | held
          · cases owned : symbol.owner with
            | none => rw [owned] at around; cases around
            | some owner =>
              obtain ⟨owner, rfl⟩ := (typed.symbols symbol known).owner owner owned
              rw [owned] at around isOuter
              exact rooted.acyclic typed isOuter around
          · exact passed other held (.outer isOuter around)
        · have less := Nat.mul_le_mul_right (longest + 2) fewer
          have short := bound symbol known
          rw [Nat.succ_mul] at less
          omega

theorem le_foldl_max {sizes : List Nat} {first size : Nat}
    (small : size ≤ first ∨ size ∈ sizes) : size ≤ sizes.foldl max first := by
  induction sizes generalizing first with
  | nil => exact small.resolve_right List.not_mem_nil
  | cons other rest ih =>
    refine ih ?_
    rcases small with small | member
    · exact .inl (Nat.le_trans small (Nat.le_max_left ..))
    · rcases List.mem_cons.mp member with rfl | member
      · exact .inl (Nat.le_max_right ..)
      · exact .inr member

/-- The bound on the walk outward is not reached. -/
theorem Index.Rooted.outwardFuel_enough (rooted : index.Rooted) (typed : index.Typed)
    (isName : Key.IsName space) : Climbs index (index.outwardFuel space) space := by
  obtain ⟨longest, isLongest⟩ : ∃ longest,
      (index.symbols.map fun symbol => span symbol.owner).foldl max (span space) = longest :=
    ⟨_, rfl⟩
  have bound (symbol : Symbol) (known : symbol ∈ index.symbols) : span symbol.owner ≤ longest :=
    isLongest ▸ le_foldl_max (.inr (List.mem_map_of_mem known))
  have own : span space ≤ longest := isLongest ▸ le_foldl_max (.inl (Nat.le_refl _))
  have few := Nat.mul_le_mul_right (longest + 2) (unvisited_le index [])
  refine rooted.climbs typed bound [] isName (fun _ held => (by cases held)) ?_
  change _ ≤ (index.symbols.length + 2) *
    ((index.symbols.map fun symbol => span symbol.owner).foldl max (span space) + 2)
  rw [isLongest, Nat.add_mul index.symbols.length]
  omega

end Outward

section Steady

variable {index : Index}

/-- Both searches have one outcome whatever is remembered, and remember nothing. -/
def Steady {α : Type} (post : α → Prop) (left right : Search α) : Prop :=
  ∃ result : Except Failure α, (∀ value, result = .ok value → post value) ∧
    ∀ memo, outcome left memo = (result, memo) ∧ outcome right memo = (result, memo)

/-- A search that remembers nothing keeps what is remembered. -/
theorem Steady.keeps {α : Type} {post : α → Prop} {left right : Search α} {inv : Memo → Prop}
    (steady : Steady post left right) : Keeps inv post left := by
  obtain ⟨result, holds, same⟩ := steady
  refine ⟨fun {memo} _ value answered => holds value ?_, fun {memo} kept => ?_⟩
  · rwa [(same memo).1] at answered
  · rwa [(same memo).1]

def Steady.simulation : Simulation where
  related := Steady
  pure {_ _ value} holds := ⟨.ok value, fun _ same => Except.ok.inj same ▸ holds, fun _ => ⟨rfl, rfl⟩⟩
  throw failure := ⟨.error failure, fun _ same => (by cases same), fun _ => ⟨rfl, rfl⟩⟩
  bind := by
    rintro α β mid post left right nextLeft nextRight ⟨result, holds, same⟩ rest
    cases result with
    | error failure =>
      refine ⟨.error failure, fun _ same => (by cases same), fun memo => ?_⟩
      exact ⟨outcome_bind_of_error (same memo).1, outcome_bind_of_error (same memo).2⟩
    | ok value =>
      obtain ⟨result, holdsLater, sameLater⟩ := rest value (holds value rfl)
      refine ⟨result, holdsLater, fun memo => ?_⟩
      rw [outcome_bind_of_ok (same memo).1, outcome_bind_of_ok (same memo).2]
      exact sameLater memo

variable (within : index.IdsWithin) (linked : index.Linked) {depth deep : Nat}
  {active others : List Query}

include within linked

theorem referAt_steady {symbol : Symbol} (known : symbol ∈ index.symbols) {reference : Reference}
    (has : reference ∈ symbol.references) :
    Steady index.Has (referAt index (depth + 1) active reference symbol)
      (referAt index (deep + 1) others reference symbol) := by
  obtain ⟨target, bound⟩ := linked.boundTarget known has
  refine ⟨.ok (some target), fun _ same => ?_, fun memo => ?_⟩
  · cases same
    exact boundTarget_within within bound
  · simp only [referAt, bound]
    exact ⟨rfl, rfl⟩

/-- What is under way and what is remembered does not matter for an answer. -/
theorem answer_steady (query : Query) :
    Steady index.Has (answer index (referAt index (depth + 1) active) query)
      (answer index (referAt index (deep + 1) others) query) :=
  Steady.simulation.answer_related within
    (fun _ known _ has => referAt_steady within linked known has) query

theorem findInherited_steady (space : Key) (name : String) :
    Steady index.Has (findInherited index (referAt index (depth + 1) active) space name)
      (findInherited index (referAt index (depth + 1) active) space name) :=
  Steady.simulation.findInherited_related
    (fun _ known _ has => referAt_steady within linked known has) space name

omit within in
theorem referAt_follows {symbol : Symbol} (known : symbol ∈ index.symbols) {reference : Reference}
    (has : reference ∈ symbol.references) :
    Derives index
      (fun found => ∃ target, boundTarget index reference = .ok (some target) ∧
        found = some target)
      (referAt index (depth + 1) active reference symbol) := by
  obtain ⟨target, bound⟩ := linked.boundTarget known has
  simp only [referAt, bound]
  exact .pure ⟨target, rfl, rfl⟩

theorem referAt_known {symbol : Symbol} (known : symbol ∈ index.symbols) {reference : Reference}
    (has : reference ∈ symbol.references) :
    Ends index index.Has (referAt index (depth + 1) active reference symbol) := by
  obtain ⟨target, bound⟩ := linked.boundTarget known has
  simp only [referAt, bound]
  exact .pure (boundTarget_within within bound)

end Steady

theorem Index.depthBound_pos (index : Index) : ∃ depth, index.depthBound = depth + 1 :=
  ⟨index.depthBound - 1, (Nat.succ_pred_eq_of_pos (Nat.mul_pos (by simp) (by simp))).symm⟩

theorem Index.Typed.qualifiedName_isName {index : Index} (typed : index.Typed) {symbol : Symbol}
    (known : symbol ∈ index.symbols) : Key.IsName (some symbol.qualifiedName) := by
  rintro key ⟨⟩
  exact (typed.symbols symbol known).qualifiedName

theorem Index.Typed.importsOf {index : Index} (typed : index.Typed) {space : Option Key}
    {file : String} {i : Import} (listed : i ∈ index.importsOf space file) : i.Typed := by
  cases space with
  | none =>
    cases looked : index.rootImports.lookup file with
    | none => simp [Index.importsOf, looked] at listed
    | some imports =>
      obtain ⟨_, _, member⟩ := Entries.exists_mem_of_lookup looked
      rw [Index.importsOf, looked] at listed
      exact typed.rootImports _ member i listed
  | some space =>
    obtain ⟨symbol, named, listed⟩ := List.mem_flatMap.mp listed
    exact (typed.symbols symbol (index.named_subset space named)).imports i listed

theorem boundTo_typed (index : Index) {id : Option Key} (isName : Key.IsName id) :
    ∃ found, boundTo index id = .ok found := by
  unfold boundTo
  split
  · exact ⟨none, rfl⟩
  · next key isGiven =>
    obtain ⟨name, rfl⟩ := isName key (Option.filter_eq_some_iff.mp isGiven).1
    exact ⟨_, rfl⟩

/-- An import of texts names something or nothing. -/
theorem resolveImport_typed (index : Index) {i : Import} (typed : i.Typed) {space : Option Key}
    (isName : Key.IsName space) : ∃ found, resolveImport index i space = .ok found := by
  obtain ⟨bound, isBound⟩ := boundTo_typed index typed.targetId
  obtain ⟨path, isPath⟩ := typed.path
  have isProper : (Key.text path).proper = .ok (.text path) := rfl
  simp only [resolveImport, isBound, isPath, isProper, ok_bind]
  cases bound with
  | some found => exact ⟨some found, rfl⟩
  | none =>
    dsimp only
    split
    · next found _ => exact ⟨some found, rfl⟩
    · cases space with
      | none => exact ⟨none, rfl⟩
      | some space =>
        obtain ⟨name, rfl⟩ := isName space rfl
        exact ⟨_, rfl⟩

def Call.Typed : Call → Prop
  | .ask query => Key.IsName query.scope
  | .refer _ symbol => Key.IsName symbol.owner

/-- What is remembered are answers to queries in namespaces that texts name, which are found
again whatever else is remembered. -/
def Memo.Steady (index : Index) (memo : Memo) : Prop :=
  ∀ entry ∈ memo, Key.IsName entry.1.scope ∧ ∀ start : Memo,
    outcome (answer index (referAt index 1 []) entry.1) start = (.ok entry.2, start)

/-- Equal queries in namespaces that texts name are the same. -/
theorem Query.eq_of_beq {query other : Query} (isName : Key.IsName query.scope)
    (isNameToo : Key.IsName other.scope) (same : (query == other) = true) : query = other := by
  simp only [Query.beq_eq, Bool.and_eq_true, beq_iff_eq] at same
  obtain ⟨path, scope, file⟩ := query
  obtain ⟨path', scope', file'⟩ := other
  obtain ⟨rfl, equal, rfl⟩ := same
  cases scope with
  | none =>
    cases scope' with
    | none => rfl
    | some scope' => cases equal
  | some scope =>
    cases scope' with
    | none => cases equal
    | some scope' =>
      obtain ⟨name, rfl⟩ := isName scope rfl
      obtain ⟨name', rfl⟩ := isNameToo scope' rfl
      have same : name = name' := beq_iff_eq.mp (show (name == name') = true from equal)
      rw [same]

section Asking

variable {index : Index} (typed : index.Typed) (linked : index.Linked) {depth : Nat} {memo : Memo}

include typed linked

/-- A query is answered as if nothing had been asked, and that is what is remembered. -/
theorem resolveWith_steady {memo : Memo} (steady : memo.Steady index) {query : Query}
    (isName : Key.IsName query.scope) :
    (outcome (resolveWith index (referAt index (depth + 1)) [] query) memo).1 =
        (outcome (answer index (referAt index 1 []) query) []).1 ∧
      (outcome (resolveWith index (referAt index (depth + 1)) [] query) memo).2.Steady index := by
  rw [resolveWith_outcome]
  split
  · next known looked =>
    obtain ⟨held, equal, member⟩ := Entries.exists_mem_of_lookup looked
    obtain ⟨heldName, again⟩ := steady _ member
    cases Query.eq_of_beq isName heldName equal
    exact ⟨(congrArg Prod.fst (again [])).symm, steady⟩
  · obtain ⟨result, _, same⟩ := answer_steady typed.ids linked query
    simp only [List.contains_nil, Bool.false_eq_true, ↓reduceIte]
    rw [(same memo).1, (same []).2]
    cases result with
    | error failure => exact ⟨rfl, steady⟩
    | ok found =>
      refine ⟨rfl, fun entry member => ?_⟩
      rcases List.mem_cons.mp member with rfl | old
      · exact ⟨isName, fun start => (same start).2⟩
      · exact steady entry old

theorem resolveWith_keeps {query : Query} (isName : Key.IsName query.scope) :
    Keeps (Memo.Steady index) (fun _ => True)
      (resolveWith index (referAt index (depth + 1)) [] query) :=
  ⟨fun _ _ _ => trivial, fun steady => (resolveWith_steady typed linked steady isName).2⟩

/-- What an unbound reference asks is asked in a namespace that a text names. -/
theorem referAt_keeps {reference : Reference} {symbol : Symbol} (isName : Key.IsName symbol.owner) :
    Keeps (Memo.Steady index) (fun _ => True)
      (referAt index (depth + 2) [] reference symbol) := by
  refine (Keeps.lift (boundTarget index reference)).bind fun found _ => ?_
  cases found with
  | some found => exact .pure trivial
  | none =>
    refine (Keeps.lift (pathOf reference)).bind fun path _ => ?_
    split
    · next owner redefines owned =>
      unfold resolveRedefinition
      split
      · exact .throw _
      · next last _ =>
        refine (findInherited_steady typed.ids linked owner last).keeps.bind fun found _ => ?_
        cases found with
        | some found => exact .pure trivial
        | none =>
          refine (Keeps.lift (parentScope owner)).bind fun scope isScope => ?_
          obtain ⟨name, rfl⟩ := isName owner owned
          cases isScope
          refine (resolveWith_keeps typed linked ?_).bind fun _ _ => .pure trivial
          intro key isKey
          obtain ⟨outer, _, same⟩ := Option.map_eq_some_iff.mp isKey
          exact ⟨outer, same.symm⟩
    · exact resolveWith_keeps typed linked isName

theorem Call.keeps {call : Call} (isTyped : call.Typed) :
    Keeps (Memo.Steady index) (fun _ => True) (call.run index) := by
  obtain ⟨depth, isDepth⟩ := index.depthBound_pos
  cases call with
  | ask query =>
    rw [run, resolve, isDepth]
    exact resolveWith_keeps typed linked isTyped
  | refer reference symbol =>
    rw [run, resolveReference, isDepth]
    exact referAt_keeps typed linked isTyped

/-- Whatever was asked before, a simple name has the answer that the rules give it. -/
theorem resolve_answers (rooted : index.Rooted) {history : List Call}
    (asked : ∀ call ∈ history, call.Typed) {name file : String} {scope : Option Key}
    (isName : Key.IsName scope) (unmarked : index.Unmarked file)
    (simple : QualifiedName.segments name = [name]) :
    ∃ found, (outcome (resolve index ⟨name, scope, file⟩) (Memo.after index history)).1 =
        .ok found ∧ Answers index name file scope found := by
  have steady : (Memo.after index history).Steady index :=
    Memo.after_keeps (fun call listed _ => (Call.keeps typed linked (asked call listed)).stores)
      fun _ member => (by cases member)
  obtain ⟨depth, isDepth⟩ := index.depthBound_pos
  have once : (outcome (resolve index ⟨name, scope, file⟩) (Memo.after index history)).1 =
      (outcome (answer index (referAt index 1 []) ⟨name, scope, file⟩) []).1 := by
    rw [resolve, isDepth]
    exact (resolveWith_steady typed linked steady isName).1
  have climbs := rooted.outwardFuel_enough typed isName
  have nothing : Memo.Derived index [] := fun _ member => (by cases member)
  have ends : Ends index index.Has
      (answer index (referAt index 1 []) ⟨name, scope, file⟩) :=
    answer_ends (fun _ known _ has => referAt_known typed.ids linked known has) typed.ids
      (fun symbol known => typed.qualifiedName_isName known)
      (fun _ _ isName _ listed => resolveImport_typed index (typed.importsOf listed) isName) climbs
  have nothingIn : Memo.Within index [] := fun _ member => (by cases member)
  obtain ⟨found, later, ran, _⟩ := ends.ends nothingIn
  refine ⟨found, by rw [once, ran], ?_⟩
  refine (answer_complete typed linked (fun _ known _ has => referAt_follows linked known has)
    (referAt_derives 1 []) isName unmarked simple).answers nothing found (by rw [ran])

end Asking

theorem cut_simple {piece chars : List Char} (noPoint : '.' ∉ chars)
    (noColons : ¬ [':', ':'] <:+: chars) :
    QualifiedName.cut true piece chars = [piece.reverse ++ chars] := by
  induction piece, chars using QualifiedName.cut.induct true with
  | case1 piece => simp [QualifiedName.cut]
  | case2 piece rest _ => exact absurd (List.infix_append [] [':', ':'] rest) noColons
  | case3 piece c rest _ isPoint _ =>
    have isPoint : c = '.' := by simpa using isPoint
    exact absurd (isPoint ▸ List.mem_cons_self) noPoint
  | case4 piece c rest noPair other ih =>
    rw [QualifiedName.cut, if_neg other, ih (fun held => noPoint (List.mem_cons_of_mem _ held))
      fun held => noColons (held.trans (List.infix_cons_iff.mpr (.inr List.infix_rfl)))]
    · simp
    · exact noPair

/-- A name without separators is one segment. -/
theorem segments_simple {name : String} (some_ : name ≠ "") (noPoint : '.' ∉ name.toList)
    (noColons : ¬ [':', ':'] <:+: name.toList) : QualifiedName.segments name = [name] := by
  rw [QualifiedName.segments, QualifiedName.chainPieces, cut_simple noPoint noColons]
  simp [some_]

section Simple

variable {symbols : List Symbol} {rootImports : List (String × List Import)}

theorem Index.build_typed (typed : ∀ symbol ∈ symbols, symbol.Typed)
    (rootTyped : ∀ entry ∈ rootImports, ∀ i ∈ entry.2, i.Typed) :
    (Index.build symbols rootImports).Typed :=
  ⟨Index.build_idsWithin symbols rootImports, typed, rootTyped⟩

/-- Whatever was asked before, a simple name means something exactly when a namespace around the
scope offers something for it, or when it is a qualified name. The innermost such namespace is
asked first, in it members before imports, and the qualified name last. -/
theorem resolve_complete (typed : ∀ symbol ∈ symbols, symbol.Typed)
    (rootTyped : ∀ entry ∈ rootImports, ∀ i ∈ entry.2, i.Typed)
    (linked : (Index.build symbols rootImports).Linked)
    (rooted : (Index.build symbols rootImports).Rooted)
    {history : List Call} (asked : ∀ call ∈ history, call.Typed)
    {name file : String} {scope : Option Key} (isName : Key.IsName scope)
    (unmarked : (Index.build symbols rootImports).Unmarked file) (some_ : name ≠ "")
    (noPoint : '.' ∉ name.toList) (noColons : ¬ [':', ':'] <:+: name.toList) :
    ∃ found, (outcome (resolve (Index.build symbols rootImports) ⟨name, scope, file⟩)
        (Memo.after (Index.build symbols rootImports) history)).1 = .ok found ∧
      (found.isSome = true ↔
        (∃ space symbol, Around (Index.build symbols rootImports) scope space ∧
          Offers (Index.build symbols rootImports) space name file symbol) ∨
        ∃ symbol ∈ symbols, symbol.qualifiedName = .text name) ∧
      ∀ symbol, found = some symbol →
        Innermost (Index.build symbols rootImports) name file scope symbol ∨
          Unoffered (Index.build symbols rootImports) name file scope ∧
            (Index.build symbols rootImports).lookup (.text name) = some symbol := by
  have indexTyped := Index.build_typed typed rootTyped
  obtain ⟨found, answered, answers⟩ := resolve_answers indexTyped linked rooted asked isName
    unmarked (segments_simple some_ noPoint noColons)
  refine ⟨found, answered, ⟨fun isSome => ?_, fun means => ?_⟩, answers.some⟩
  · obtain ⟨symbol, rfl⟩ := Option.isSome_iff_exists.mp isSome
    rcases answers.some symbol rfl with innermost | ⟨_, looked⟩
    · obtain ⟨space, around, offers⟩ := innermost.offered
      exact .inl ⟨space, symbol, around, offers⟩
    · have known : symbol ∈ symbols := List.mem_of_find?_eq_some looked
      obtain ⟨other, isOther⟩ := (typed symbol known).qualifiedName
      have same : (symbol.qualifiedName == Key.text name) = true := by
        have found := List.find?_some looked
        exact found
      rw [isOther, Key.text_beq, beq_iff_eq] at same
      exact .inr ⟨symbol, known, same ▸ isOther⟩
  · cases found with
    | some _ => rfl
    | none =>
      obtain ⟨unoffered, unknown⟩ := answers.none rfl
      rcases means with ⟨space, symbol, around, offers⟩ | ⟨symbol, known, isName⟩
      · exact absurd offers (unoffered space around symbol)
      · have missing := List.find?_eq_none.mp unknown symbol known
        simp [isName] at missing

end Simple

/-- Where symbols belong to what has a shorter name, the namespaces around a name lead to the
root. -/
theorem Index.rooted_of_shorter {index : Index}
    (names : ∀ symbol ∈ index.symbols, ∃ name, symbol.qualifiedName = .text name)
    (shorter : ∀ symbol ∈ index.symbols, ∀ name outer, symbol.qualifiedName = .text name →
      symbol.owner = some (.text outer) → outer.length < name.length) : index.Rooted := by
  refine Subrelation.wf (fun {outer inner} isOuter => ?_) (measure String.length).wf
  change outer.length < inner.length
  unfold outerScope at isOuter
  split at isOuter
  · next symbol looked =>
    have known := List.mem_of_find?_eq_some looked
    obtain ⟨name, isName⟩ := names symbol known
    have same : (symbol.qualifiedName == Key.text inner) = true := by
      have found := List.find?_some looked
      exact found
    rw [isName, Key.text_beq, beq_iff_eq] at same
    subst same
    exact shorter symbol known name outer isName (Except.ok.inj isOuter)
  · obtain ⟨parent, found, same⟩ := Option.map_eq_some_iff.mp (Except.ok.inj isOuter)
    exact Key.text_inj same ▸ parent?_length found

/-- Where symbols belong to what their names say, the namespaces around a name lead to the
root. -/
theorem Index.rooted_of_parents {index : Index}
    (parents : ∀ symbol ∈ index.symbols, ∃ name, symbol.qualifiedName = .text name ∧
      symbol.owner = (QualifiedName.parent? name).map .text) : index.Rooted := by
  refine index.rooted_of_shorter (fun symbol known => ?_) fun symbol known name outer isName owned => ?_
  · obtain ⟨name, isName, _⟩ := parents symbol known
    exact ⟨name, isName⟩
  · obtain ⟨other, isOther, isOwner⟩ := parents symbol known
    rw [owned] at isOwner
    obtain ⟨parent, found, same⟩ := Option.map_eq_some_iff.mp isOwner.symm
    rw [Key.text_inj (isName.symm.trans isOther), ← Key.text_inj same]
    exact parent?_length found

/-- Two packages that import each other, and in one of them two definitions that are bound to
each other. -/
def bound : List Symbol :=
  [{ name := "P", qualifiedName := "P", kind := .package, file := "a.json",
     imports := [{ path := "Q", isNamespace := true, visibility := "public" }] },
   { name := "Q", qualifiedName := "Q", kind := .package, file := "a.json", serial := 1,
     imports := [{ path := "P", isNamespace := true, visibility := "public" }] },
   { name := "T", qualifiedName := "Q::T", kind := .definition .part, file := "a.json",
     owner := some "Q", serial := 2, elementId := some "t",
     references := [{ kind := .specialization, target := "U", targetId := some "u" }] },
   { name := "U", qualifiedName := "Q::U", kind := .definition .part, file := "a.json",
     owner := some "Q", serial := 3, elementId := some "u",
     references := [{ kind := .specialization, target := "T", targetId := some "t" }] },
   { name := "x", qualifiedName := "Q::U::x", kind := .usage .part, file := "a.json",
     owner := some "Q::U", serial := 4 }]

theorem isName_text (name : String) : Key.IsName (some (.text name)) := by
  rintro key ⟨⟩
  exact ⟨name, rfl⟩

theorem isName_none : Key.IsName none := by
  rintro key ⟨⟩

/-- The usage comes from the other definition, though the two specialize each other. -/
theorem resolve_complete_bound :
    (outcome (resolve (Index.build bound []) ⟨"x", some "Q::T", "a.json"⟩)
        (Memo.after (Index.build bound []) [.ask ⟨"T", some "P", "a.json"⟩])).1 =
      .ok (some bound[4]) ∧
    (Innermost (Index.build bound []) "x" "a.json" (some "Q::T") bound[4] ∨
      Unoffered (Index.build bound []) "x" "a.json" (some "Q::T") ∧
        (Index.build bound []).lookup (.text "x") = some bound[4]) := by
  have answered : (outcome (resolve (Index.build bound []) ⟨"x", some "Q::T", "a.json"⟩)
      (Memo.after (Index.build bound []) [.ask ⟨"T", some "P", "a.json"⟩])).1 =
    .ok (some bound[4]) := rfl
  have imports (path : String) : Import.Typed
      { path := .text path, isNamespace := true, visibility := "public" } :=
    ⟨⟨path, rfl⟩, isName_none⟩
  have typed : ∀ symbol ∈ bound, symbol.Typed := by
    simp only [bound, List.forall_mem_cons]
    refine ⟨⟨⟨_, rfl⟩, isName_none, ?_⟩, ⟨⟨_, rfl⟩, isName_none, ?_⟩, ⟨⟨_, rfl⟩, isName_text _, ?_⟩,
      ⟨⟨_, rfl⟩, isName_text _, ?_⟩, ⟨⟨_, rfl⟩, isName_text _, ?_⟩, ?_⟩
    · exact List.forall_mem_singleton.mpr (imports _)
    · exact List.forall_mem_singleton.mpr (imports _)
    all_goals exact fun _ member => (by cases member)
  have linked : (Index.build bound []).Linked := by
    have one : (Index.build bound []).lookupId (.text "u") = some bound[3] := rfl
    have other : (Index.build bound []).lookupId (.text "t") = some bound[2] := rfl
    unfold Index.Linked
    change ∀ symbol ∈ bound, _
    generalize (Index.build bound []).lookupId = lookupId at one other ⊢
    have none_ (symbol : Symbol) (empty : symbol.references = []) :
        ∀ reference ∈ symbol.references, ∃ id target,
          Key.given? reference.targetId = some (.text id) ∧ lookupId (.text id) = some target :=
      fun _ has => (by cases empty ▸ has)
    refine List.forall_mem_cons.mpr ⟨none_ _ rfl, List.forall_mem_cons.mpr ⟨none_ _ rfl,
      List.forall_mem_cons.mpr ⟨?_, List.forall_mem_cons.mpr ⟨?_,
        List.forall_mem_singleton.mpr (none_ _ rfl)⟩⟩⟩⟩
    · exact List.forall_mem_singleton.mpr ⟨"u", _, rfl, one⟩
    · exact List.forall_mem_singleton.mpr ⟨"t", _, rfl, other⟩
  have rooted : (Index.build bound []).Rooted := by
    refine Index.rooted_of_parents ?_
    simp only [Index.build, bound, List.forall_mem_cons]
    exact ⟨⟨_, rfl, rfl⟩, ⟨_, rfl, rfl⟩, ⟨_, rfl, rfl⟩, ⟨_, rfl, rfl⟩, ⟨_, rfl, rfl⟩,
      fun _ member => (by cases member)⟩
  have asked : ∀ call ∈ [Call.ask ⟨"T", some "P", "a.json"⟩], call.Typed :=
    List.forall_mem_singleton.mpr (isName_text _)
  obtain ⟨found, same, _, means⟩ := resolve_complete typed (fun _ member => (by cases member))
    linked rooted asked (isName_text "Q::T") (.inr rfl) (show "x" ≠ "" by decide) (by decide)
    (by decide)
  cases answered.symm.trans same
  exact ⟨answered, means _ rfl⟩

/-- A package with the name of the mark for the root of a file, which passes on what another
one holds. -/
def marked : List Symbol :=
  [{ name := "Lib", qualifiedName := "Lib", kind := .package, file := "m.sysml" },
   { name := "T", qualifiedName := "Lib::T", kind := .definition .part, file := "m.sysml",
     owner := some "Lib", serial := 1 },
   { name := "<root:m.sysml>", qualifiedName := "<root:m.sysml>", kind := .package,
     file := "m.sysml", serial := 2,
     imports := [{ path := "Lib", isNamespace := true, visibility := "public" }] }]

/-- What stands outside of any declaration of the file: an import of all members of that
package. -/
def markedImports : List (String × List Import) :=
  [("m.sysml", [{ path := "<root:m.sysml>", isNamespace := true }])]

/-- The definition comes through the import at the root and the public one of the package, but
the search takes the package for the root and does not go into it. -/
theorem marked_namespace_is_passed_over :
    (Index.build marked markedImports).Linked ∧ (Index.build marked markedImports).Rooted ∧
      Around (Index.build marked markedImports) none none ∧
      Offers (Index.build marked markedImports) none "T" "m.sysml" marked[1] ∧
      (outcome (resolve (Index.build marked markedImports) ⟨"T", none, "m.sysml"⟩) []).1 =
        .ok none := by
  refine ⟨?_, ?_, .here, ?_, rfl⟩
  · have none_ : ∀ symbol ∈ marked, symbol.references = [] := by simp [marked]
    intro symbol known reference has
    cases none_ symbol known ▸ has
  · refine Index.rooted_of_parents ?_
    simp only [Index.build, marked, List.forall_mem_cons]
    exact ⟨⟨_, rfl, rfl⟩, ⟨_, rfl, rfl⟩, ⟨_, rfl, rfl⟩, fun _ member => (by cases member)⟩
  · have first : Opens (Index.build marked markedImports) "m.sysml" false none
        { path := "<root:m.sysml>", isNamespace := true } marked[2] :=
      ⟨List.mem_singleton_self _, fun isPublic => (by cases isPublic), rfl⟩
    have second : Opens (Index.build marked markedImports) "m.sysml" true
        (some marked[2].qualifiedName)
        { path := "Lib", isNamespace := true, visibility := "public" } marked[0] :=
      ⟨List.mem_singleton_self _, fun _ => rfl, rfl⟩
    have isMember : IsMember (Index.build marked markedImports) (some marked[0].qualifiedName) "T"
        marked[1] := .own (List.mem_singleton_self _) rfl
    exact .imported (.further first rfl (.member second rfl isMember))

end Sysml.Scope
