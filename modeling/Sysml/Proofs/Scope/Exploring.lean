import Mathlib.Logic.Relation
import Sysml.Proofs.Notation.Written
import Sysml.Proofs.Scope.Soundness
import Sysml.Proofs.Scope.Termination

/-!
# Searches that miss nothing

The searches of name resolution go into no namespace twice. What they have visited when they
end without an answer is closed under the steps that they may take, and nothing in it has what
was looked for (`Explores`), so nothing that can be reached has it either. This is shown where
every reference has the id of a symbol, for the search for members (`findMember_complete`), for
descendants (`descendant_complete`) and through imports (`throughImports_explores`).
-/

set_option autoImplicit false

namespace Sysml

namespace Scope

section Explores

variable {dry : String → Prop} {step : String → String → Prop} {visited middle later : List Key}

/-- What a search added to the names it visited has nothing of what it looks for, and all that
can be reached from there was visited too. -/
structure Explores (dry : String → Prop) (step : String → String → Prop)
    (visited later : List Key) : Prop where
  more : visited ⊆ later
  dry : ∀ name, later.contains (.text name) = true → visited.contains (.text name) = false →
    dry name
  closed : ∀ name, later.contains (.text name) = true → visited.contains (.text name) = false →
    ∀ next, step name next → later.contains (.text next) = true

theorem contains_mono {part whole : List Key} (inside : part ⊆ whole) {key : Key}
    (held : part.contains key = true) : whole.contains key = true := by
  obtain ⟨other, member, same⟩ := List.contains_iff_exists_mem_beq.mp held
  exact List.contains_iff_exists_mem_beq.mpr ⟨other, inside member, same⟩

namespace Explores

theorem refl (visited : List Key) : Explores dry step visited visited where
  more := List.Subset.refl _
  dry name held fresh := by rw [held] at fresh; cases fresh
  closed name held fresh := by rw [held] at fresh; cases fresh

theorem trans (first : Explores dry step visited middle) (second : Explores dry step middle later) :
    Explores dry step visited later where
  more := List.Subset.trans first.more second.more
  dry name held fresh := by
    cases before : middle.contains (.text name) with
    | true => exact first.dry name before fresh
    | false => exact second.dry name held before
  closed name held fresh next goes := by
    cases before : middle.contains (.text name) with
    | true => exact contains_mono second.more (first.closed name before fresh next goes)
    | false => exact second.closed name held before next goes

/-- One more name was visited at the start. -/
theorem push (start : String) (rest : Explores dry step (.text start :: visited) later)
    (isDry : dry start) (goesOn : ∀ next, step start next → later.contains (.text next) = true) :
    Explores dry step visited later := by
  have either {name : String} (fresh : visited.contains (.text name) = false) :
      name = start ∨ (Key.text start :: visited).contains (.text name) = false := by
    rw [List.contains_cons, fresh, Bool.or_false, Key.text_beq]
    cases same : name == start with
    | true => exact .inl (beq_iff_eq.mp same)
    | false => exact .inr rfl
  refine ⟨fun _ member => rest.more (List.mem_cons_of_mem _ member), ?_, ?_⟩
  · intro name held fresh
    rcases either fresh with rfl | fresh
    · exact isDry
    · exact rest.dry name held fresh
  · intro name held fresh
    rcases either fresh with rfl | fresh
    · exact goesOn
    · exact rest.closed name held fresh

/-- Nothing that can be reached from what was visited has what the search looks for. -/
theorem reach (explores : Explores dry step [] later) {start name : String}
    (held : later.contains (.text start) = true) (path : Relation.ReflTransGen step start name) :
    dry name := by
  have reached : later.contains (.text name) = true := by
    induction path with
    | refl => exact held
    | tail _ goes ih => exact explores.closed _ ih rfl _ goes
  exact explores.dry name reached rfl

end Explores

end Explores

end Scope

structure Import.Typed (i : Import) : Prop where
  path : ∃ path, i.path = .text path
  targetId : Key.IsName i.targetId

/-- What a symbol is known by and what it belongs to are texts. -/
structure Symbol.Typed (symbol : Symbol) : Prop where
  qualifiedName : ∃ name, symbol.qualifiedName = .text name
  owner : Key.IsName symbol.owner
  imports : ∀ i ∈ symbol.imports, i.Typed

namespace Scope

/-- All that symbols and imports go by are texts. -/
structure Index.Typed (index : Index) : Prop where
  ids : index.IdsWithin
  symbols : ∀ symbol ∈ index.symbols, symbol.Typed
  rootImports : ∀ entry ∈ index.rootImports, ∀ i ∈ entry.2, i.Typed

/-- Every reference has the id of a symbol. -/
def Index.Linked (index : Index) : Prop :=
  ∀ symbol ∈ index.symbols, ∀ reference ∈ symbol.references, ∃ id target,
    Key.given? reference.targetId = some (.text id) ∧ index.lookupId (.text id) = some target

/-- From every name the namespaces around it lead to the root. -/
def Index.Rooted (index : Index) : Prop :=
  WellFounded fun outer inner : String => outerScope index (.text inner) = .ok (some (.text outer))

/-- No import is in a namespace that has the name of the mark for the root of a file, or none
is at that root. -/
def Index.Unmarked (index : Index) (file : String) : Prop :=
  index.importsOf (some (importMark none file)) file = [] ∨ index.importsOf none file = []

section Linked

variable {index : Index} {symbol general : Symbol} {reference : Reference}

theorem Index.Linked.boundTarget (linked : index.Linked) (known : symbol ∈ index.symbols)
    (has : reference ∈ symbol.references) :
    ∃ target, boundTarget index reference = .ok (some target) := by
  obtain ⟨id, target, isGiven, looked⟩ := linked symbol known reference has
  refine ⟨target, ?_⟩
  have bound : boundTo index reference.targetId = .ok (some target) := by
    rw [boundTo, isGiven]
    exact congrArg Except.ok looked
  rw [Scope.boundTarget, bound]
  rfl

/-- A reference with an id leads to the symbol of the id only. -/
theorem Leads.boundTarget (leads : Leads index symbol reference general) {target : Symbol}
    (bound : boundTarget index reference = .ok (some target)) : general = target := by
  cases leads with
  | bound same => exact Option.some.inj (Except.ok.inj (same.symm.trans bound))
  | named unbound => cases unbound.symm.trans bound
  | inherited unbound => cases unbound.symm.trans bound
  | around unbound => cases unbound.symm.trans bound

end Linked

def bindings (index : Index) (_ : Symbol) (reference : Reference) : Option Symbol :=
  (Scope.boundTarget index reference).toOption.join

/-- No member of the namespace itself has the name. -/
def Lacks (index : Index) (name : String) (space : String) : Prop :=
  ∀ symbol ∈ index.members (some (.text space)), answersTo name symbol = false

/-- A reference of the first namespace leads to the second one. -/
def DrawsOn (index : Index) (told : Symbol → Reference → Option Symbol)
    (space next : String) : Prop :=
  ∃ entry ∈ index.outgoing (.text space), ∃ general,
    told entry.1 entry.2 = some general ∧ general.qualifiedName = .text next

/-- Neither the namespace itself nor one that its references lead to has a member of the name. -/
def Barren (index : Index) (told : Symbol → Reference → Option Symbol) (name space : String) :
    Prop :=
  Lacks index name space ∧ ∀ next, DrawsOn index told space next → Lacks index name next

section Rules

variable {index : Index} {inv : Memo → Prop} {told : Symbol → Reference → Option Symbol}
  {refer : Reference → Symbol → Search (Option Symbol)}
  (named : ∀ symbol reference general, told symbol reference = some general →
    ∃ name, general.qualifiedName = .text name)
  (follows : ∀ symbol ∈ index.symbols, ∀ reference ∈ symbol.references,
    Keeps inv (fun found => found = told symbol reference) (refer reference symbol))

include named follows

theorem inherited_explores {down : Key → List Key → Search (Option Symbol × List Key)}
    {space name : String}
    (below : ∀ next visited, Keeps inv (fun answer => answer.1 = none →
        Explores (Barren index told name) (DrawsOn index told) visited answer.2 ∧
          answer.2.contains (.text next) = true ∧ Lacks index name next)
      (down (.text next) visited))
    {entries : List (Symbol × Reference)} (inside : entries ⊆ index.outgoing (.text space))
    (visited : List Key) :
    Keeps inv (fun answer => answer.1 = none →
        Explores (Barren index told name) (DrawsOn index told) visited answer.2 ∧
          ∀ entry ∈ entries, ∀ general next, told entry.1 entry.2 = some general →
            general.qualifiedName = .text next →
            next = space ∨ answer.2.contains (.text next) = true ∧ Lacks index name next)
      (inherited refer down (.text space) entries visited) := by
  induction entries generalizing visited with
  | nil => exact .pure fun _ => ⟨.refl _, fun _ member => (by cases member)⟩
  | cons entry rest ih =>
    obtain ⟨symbol, reference⟩ := entry
    obtain ⟨here, others⟩ := List.cons_subset.mp inside
    obtain ⟨known, has⟩ := Index.outgoing_within here
    simp only [inherited]
    refine (follows symbol known reference has).bind fun general followed => ?_
    cases general with
    | none =>
      refine (ih others visited).mono fun answer found isNone => ?_
      obtain ⟨explores, reached⟩ := found isNone
      refine ⟨explores, fun entry member => ?_⟩
      rcases List.mem_cons.mp member with rfl | member
      · intro other next isTold
        cases followed.trans isTold
      · exact reached entry member
    | some general =>
      obtain ⟨next, isNext⟩ := named symbol reference general followed.symm
      have isOnly {other : Symbol} {name : String} (isTold : told symbol reference = some other)
          (isName : other.qualifiedName = .text name) : name = next := by
        cases followed.trans isTold
        exact Key.text_inj (isName.symm.trans isNext)
      dsimp only
      rw [isNext]
      split
      · next back =>
        refine (ih others visited).mono fun answer found isNone => ?_
        obtain ⟨explores, reached⟩ := found isNone
        refine ⟨explores, fun entry member => ?_⟩
        rcases List.mem_cons.mp member with rfl | member
        · intro other name isTold isName
          rw [isOnly isTold isName]
          exact .inl (beq_iff_eq.mp back)
        · exact reached entry member
      · refine (below next visited).bind fun answer searched => ?_
        obtain ⟨member, later⟩ := answer
        cases member with
        | some member => exact .pure fun isNone => (by cases isNone)
        | none =>
          obtain ⟨explored, held, lacks⟩ := searched rfl
          refine (ih others later).mono fun answer found isNone => ?_
          obtain ⟨explores, reached⟩ := found isNone
          refine ⟨explored.trans explores, fun entry member => ?_⟩
          rcases List.mem_cons.mp member with rfl | member
          · intro other name isTold isName
            rw [isOnly isTold isName]
            exact .inr ⟨contains_mono explores.more held, lacks⟩
          · exact reached entry member

theorem member_explores (name : String) (fuel : Nat) (space : String) (visited : List Key) :
    Keeps inv (fun answer => answer.1 = none →
        Explores (Barren index told name) (DrawsOn index told) visited answer.2 ∧
          answer.2.contains (.text space) = true ∧ Lacks index name space)
      (member index refer name fuel (some (.text space)) visited) := by
  induction fuel generalizing space visited with
  | zero => exact .throw _
  | succ fuel ih =>
    simp only [member]
    split
    · exact .pure fun isNone => (by cases isNone)
    · next missing =>
      have lacks : Lacks index name space := by
        intro symbol member
        simpa using List.find?_eq_none.mp missing symbol member
      split
      · next held => exact .pure fun _ => ⟨.refl _, held, lacks⟩
      · refine (inherited_explores named follows (fun next visited => ih next visited)
          (List.Subset.refl _) _).mono fun answer found isNone => ?_
        obtain ⟨explores, reached⟩ := found isNone
        have held : answer.2.contains (.text space) = true :=
          contains_mono explores.more (by simp)
        have further {next : String} (draws : DrawsOn index told space next) :
            answer.2.contains (.text next) = true ∧ Lacks index name next := by
          obtain ⟨entry, listed, general, isTold, isNext⟩ := draws
          rcases reached entry listed general next isTold isNext with rfl | reached
          · exact ⟨held, lacks⟩
          · exact reached
        exact ⟨explores.push space ⟨lacks, fun next draws => (further draws).2⟩
          fun next draws => (further draws).1, held, lacks⟩

end Rules

section Members

variable {index : Index} {refer : Reference → Symbol → Search (Option Symbol)}
  (typed : index.Typed)
  (follows : ∀ symbol ∈ index.symbols, ∀ reference ∈ symbol.references, Derives index
    (fun found => ∃ target, boundTarget index reference = .ok (some target) ∧ found = some target)
    (refer reference symbol))

include typed

/-- An inherited member is one of a namespace that references lead to. -/
theorem IsMember.reached (linked : index.Linked) {space? : Option Key} {name : String}
    {symbol : Symbol} : IsMember index space? name symbol → ∀ space, space? = some (.text space) →
    ∃ reached, Relation.ReflTransGen (DrawsOn index (bindings index)) space reached ∧
      symbol ∈ index.members (some (.text reached)) ∧ answersTo name symbol = true
  | .own member answers, space, same => ⟨space, .refl, same ▸ member, answers⟩
  | @IsMember.inherited _ _ _ general _ entry listed leads isMember, space, same => by
    cases same
    obtain ⟨known, has⟩ := Index.outgoing_within listed
    obtain ⟨target, bound⟩ := linked.boundTarget known has
    cases leads.boundTarget bound
    obtain ⟨next, isNext⟩ :=
      (typed.symbols general (boundTarget_within typed.ids bound general rfl)).qualifiedName
    obtain ⟨reached, path, member, answers⟩ := isMember.reached linked next (congrArg some isNext)
    have draws : DrawsOn index (bindings index) space next :=
      ⟨entry, listed, general, by rw [bindings, bound]; rfl, isNext⟩
    exact ⟨reached, .head draws path, member, answers⟩

include follows

/-- A namespace without an answer has no such member, not even by inheritance. -/
theorem findMember_complete (linked : index.Linked) {space : Option Key} (isName : Key.IsName space)
    (name : String) :
    Derives index (fun found => found = none → ∀ symbol, ¬ IsMember index space name symbol)
      (findMember index refer space name) := by
  cases space with
  | none =>
    rw [findMember, Index.memberFuel, member]
    split
    · exact .pure fun isNone => (by cases isNone)
    · next missing =>
      refine .pure fun _ symbol isMember => ?_
      cases isMember with
      | own member answers => exact List.find?_eq_none.mp missing symbol member answers
  | some space =>
    obtain ⟨space, rfl⟩ := isName space rfl
    have named (symbol : Symbol) (reference : Reference) (general : Symbol)
        (bound : bindings index symbol reference = some general) :
        ∃ name, general.qualifiedName = .text name :=
      (typed.symbols general (boundTarget_within typed.ids (toOption_join_eq_some.mp bound)
        general rfl)).qualifiedName
    refine (member_explores named (fun symbol known reference has =>
      (follows symbol known reference has).mono fun found bound => ?_) name _ space []).bind
      fun answer searched => ?_
    · obtain ⟨target, bound, rfl⟩ := bound
      rw [bindings, bound]
      rfl
    refine .pure fun isNone symbol isMember => ?_
    obtain ⟨explores, held, _⟩ := searched isNone
    obtain ⟨reached, path, member, answers⟩ := isMember.reached typed linked space rfl
    rw [(explores.reach held path).1 symbol member] at answers
    cases answers

end Members

section Below

variable {index : Index} (typed : index.Typed)

/-- No member of the namespace has the name itself. -/
def Nameless (index : Index) (name : String) (space : String) : Prop :=
  ∀ symbol ∈ index.members (some (.text space)), symbol.name.isText name = false

/-- The second namespace is a member of the first. -/
def Holds (index : Index) (space next : String) : Prop :=
  ∃ symbol ∈ index.members (some (.text space)), symbol.qualifiedName = .text next

def unexpanded (symbols : List Symbol) (expanded : List Key) : Nat :=
  symbols.countP fun symbol => !expanded.any (symbol.owner == some ·)

/-- Expanding a name takes its members away. -/
theorem unexpanded_cons {symbols : List Symbol} {expanded : List Key} {space : Key}
    (fresh : expanded.contains space = false) :
    unexpanded symbols (space :: expanded) +
      (symbols.filter fun symbol => symbol.owner == some space).length =
        unexpanded symbols expanded := by
  induction symbols with
  | nil => rfl
  | cons symbol rest ih =>
    simp only [unexpanded, List.countP_cons, List.filter_cons, List.any_cons] at ih ⊢
    cases owned : symbol.owner == some space with
    | false => simp only [Bool.false_or, Bool.false_eq_true, ↓reduceIte]; omega
    | true =>
      have new : (expanded.any (symbol.owner == some ·)) = false := by
        rw [Bool.eq_false_iff]
        intro held
        obtain ⟨other, member, same⟩ := List.any_eq_true.mp held
        have equal : (space == other) = true :=
          BEq.trans (α := Option Key) (BEq.symm (α := Option Key) owned) same
        rw [Bool.eq_false_iff] at fresh
        exact fresh (List.contains_iff_exists_mem_beq.mpr ⟨other, member, equal⟩)
      simp only [new, Bool.true_or, Bool.not_true, Bool.not_false, Bool.false_eq_true, ↓reduceIte,
        List.length_cons]
      omega

include typed

theorem descendantFrom_explores {name : String} {fuel : Nat} {queue : List Symbol}
    {expanded : List Key} (within : queue ⊆ index.symbols)
    (enough : queue.length + unexpanded index.symbols expanded < fuel)
    (missing : descendantFrom index name fuel queue expanded = none) :
    ∃ later, Explores (Nameless index name) (Holds index) expanded later ∧
      ∀ symbol ∈ queue, symbol.name.isText name = false ∧
        later.contains symbol.qualifiedName = true := by
  induction fuel generalizing queue expanded with
  | zero => omega
  | succ fuel ih =>
    cases queue with
    | nil => exact ⟨expanded, .refl _, fun _ member => (by cases member)⟩
    | cons symbol queue =>
      obtain ⟨known, rest⟩ := List.cons_subset.mp within
      rw [List.length_cons] at enough
      simp only [descendantFrom] at missing
      split at missing
      · cases missing
      · next other =>
        rw [Bool.not_eq_true] at other
        obtain ⟨space, isSpace⟩ := (typed.symbols symbol known).qualifiedName
        rw [isSpace] at missing
        split at missing
        · next held =>
          obtain ⟨later, explores, queued⟩ := ih rest (by omega) missing
          refine ⟨later, explores, fun entry member => ?_⟩
          rcases List.mem_cons.mp member with rfl | member
          · exact ⟨other, isSpace ▸ contains_mono explores.more held⟩
          · exact queued entry member
        · next fresh =>
          rw [Bool.not_eq_true] at fresh
          have fewer := @unexpanded_cons index.symbols expanded (.text space) fresh
          obtain ⟨later, explores, queued⟩ := ih
            (List.append_subset.mpr ⟨rest, index.members_subset _⟩)
            (by rw [List.length_append, Index.members]; omega) missing
          have inQueue {entry : Symbol} (member : entry ∈ index.members (some (.text space))) :=
            queued entry (List.mem_append_right _ member)
          have held : later.contains (.text space) = true :=
            contains_mono explores.more (by simp)
          refine ⟨later, explores.push space (fun entry member => (inQueue member).1) ?_,
            fun entry member => ?_⟩
          · rintro next ⟨entry, member, isNext⟩
            exact isNext ▸ (inQueue member).2
          · rcases List.mem_cons.mp member with rfl | member
            · exact ⟨other, isSpace ▸ held⟩
            · exact queued entry (List.mem_append_left _ member)

theorem Below.reached {space? : Key} {symbol : Symbol} (below : Below index space? symbol)
    {space : String} (same : space? = .text space) :
    ∃ reached, Relation.ReflTransGen (Holds index) space reached ∧
      symbol ∈ index.members (some (.text reached)) := by
  induction below generalizing space with
  | member member => exact ⟨space, .refl, same ▸ member⟩
  | @deeper _ between _ member _ ih =>
    obtain ⟨next, isNext⟩ :=
      (typed.symbols between (index.members_subset _ member)).qualifiedName
    obtain ⟨reached, path, inside⟩ := ih isNext
    exact ⟨reached, .head ⟨between, same ▸ member, isNext⟩ path, inside⟩

/-- Nothing of the name stands below a namespace where none is found. -/
theorem descendant_complete {space name : String}
    (missing : descendant index (.text space) name = none) {symbol : Symbol}
    (below : Below index (.text space) symbol) : symbol.name.isText name = false := by
  have few : (index.members (some (.text space))).length ≤ index.symbols.length :=
    List.length_filter_le ..
  have fewer : unexpanded index.symbols [] ≤ index.symbols.length := List.countP_le_length
  have enough : (index.members (some (.text space))).length + unexpanded index.symbols [] <
      (index.symbols.length + 1) * (index.symbols.length + 1) := by
    rw [Nat.add_mul, Nat.mul_add]
    omega
  obtain ⟨later, explores, queued⟩ :=
    descendantFrom_explores typed (index.members_subset _) enough missing
  cases below with
  | member member => exact (queued symbol member).1
  | @deeper _ between _ member below =>
    obtain ⟨next, isNext⟩ :=
      (typed.symbols between (index.members_subset _ member)).qualifiedName
    obtain ⟨reached, path, inside⟩ := below.reached typed isNext
    exact explores.reach (isNext ▸ (queued between member).2) path symbol inside

end Below

section Imports

variable {index : Index} {refer : Reference → Symbol → Search (Option Symbol)}
  (typed : index.Typed) (linked : index.Linked)
  (follows : ∀ symbol ∈ index.symbols, ∀ reference ∈ symbol.references, Derives index
    (fun found => ∃ target, boundTarget index reference = .ok (some target) ∧ found = some target)
    (refer reference symbol))

/-- What a name means through one import of a namespace, not going on through others. -/
inductive Brings (index : Index) (name : String) (i : Import) (target : Symbol) : Symbol → Prop
  where
  | member {symbol : Symbol} : i.isWildcard = true →
      IsMember index (some target.qualifiedName) name symbol → Brings index name i target symbol
  | deep {symbol : Symbol} : i.isRecursive = true → Below index target.qualifiedName symbol →
      symbol.name.isText name = true → Brings index name i target symbol
  | one : i.isWildcard = false → target.name.isText name = true → Brings index name i target target

/-- An import brings nothing, and a search went on from what it names. -/
def Spent (index : Index) (name file : String) (space : Option Key) (publicOnly : Bool)
    (later : List Key) (i : Import) : Prop :=
  ∀ target, Opens index file publicOnly space i target →
    (∀ symbol, ¬ Brings index name i target symbol) ∧
      (i.isWildcard = true → later.contains target.qualifiedName = true)

/-- No public import of the namespace brings anything. -/
def Idle (index : Index) (name file : String) (space : String) : Prop :=
  ∀ i target, Opens index file true (some (.text space)) i target →
    ∀ symbol, ¬ Brings index name i target symbol

/-- The first namespace has a public import of all members of the second one. -/
def Forwards (index : Index) (file : String) (space next : String) : Prop :=
  ∃ i target, Opens index file true (some (.text space)) i target ∧ i.isWildcard = true ∧
    target.qualifiedName = .text next

theorem Opens.ofPublic {file : String} {space : Option Key} {i : Import} {target : Symbol}
    (opens : Opens index file true space i target) (publicOnly : Bool) :
    Opens index file publicOnly space i target :=
  ⟨opens.listed, fun _ => opens.visible rfl, opens.named⟩

namespace Spent

variable {space : Option Key} {publicOnly : Bool} {name file : String} {later : List Key}
  {i : Import} {target : Symbol}

theorem of_hidden (hidden : publicOnly = true) (invisible : i.visibility ≠ "public") :
    Spent index name file space publicOnly later i :=
  fun _ opens => absurd (opens.visible hidden) invisible

theorem of_unresolved (unresolved : resolveImport index i space = .ok none) :
    Spent index name file space publicOnly later i :=
  fun _ opens => (by cases unresolved.symm.trans opens.named)

theorem of_single (named : resolveImport index i space = .ok (some target))
    (single : i.isWildcard = false) (other : ¬ target.name.isText name = true) :
    Spent index name file space publicOnly later i := by
  intro found opens
  cases named.symm.trans opens.named
  constructor
  · intro symbol brings
    cases brings with
    | member wildcard => rw [single] at wildcard; cases wildcard
    | deep recursive => simp [Import.isWildcard, recursive] at single
    | one _ isNamed => exact other isNamed
  · intro wildcard
    rw [single] at wildcard
    cases wildcard

theorem of_wildcard (named : resolveImport index i space = .ok (some target))
    (wildcard : i.isWildcard = true)
    (lacks : ∀ symbol, ¬ IsMember index (some target.qualifiedName) name symbol)
    (nothing : i.isRecursive = true → ∀ symbol, Below index target.qualifiedName symbol →
      symbol.name.isText name = false)
    (held : later.contains target.qualifiedName = true) :
    Spent index name file space publicOnly later i := by
  intro found opens
  cases named.symm.trans opens.named
  refine ⟨fun symbol brings => ?_, fun _ => held⟩
  cases brings with
  | member _ isMember => exact lacks symbol isMember
  | deep recursive isBelow isNamed =>
    rw [nothing recursive symbol isBelow] at isNamed
    cases isNamed
  | one single => rw [wildcard] at single; cases single

end Spent

/-- Where a search through imports finds nothing, it explored, and all of them are spent. -/
def Exhausts (index : Index) (name file : String) (space : Option Key) (publicOnly : Bool)
    (imports : List Import) (visited : List Key) (answer : Option Symbol × List Key) : Prop :=
  answer.1 = none →
    Explores (Idle index name file) (Forwards index file) visited answer.2 ∧
      ∀ i ∈ imports, Spent index name file space publicOnly answer.2 i

/-- One more import is spent at once, or after the search went on from what it names. -/
theorem Exhausts.cons {space : Option Key} {publicOnly : Bool} {name file : String} {i : Import}
    {rest : List Import} {visited before : List Key} {answer : Option Symbol × List Key}
    (explored : Explores (Idle index name file) (Forwards index file) visited before)
    (spent : ∀ later, before ⊆ later → Spent index name file space publicOnly later i)
    (others : Exhausts index name file space publicOnly rest before answer) :
    Exhausts index name file space publicOnly (i :: rest) visited answer := by
  intro isNone
  obtain ⟨explores, spentToo⟩ := others isNone
  exact ⟨explored.trans explores, List.forall_mem_cons.mpr ⟨spent _ explores.more, spentToo⟩⟩

include typed linked follows

theorem throughEach_explores {space : Option Key} {publicOnly : Bool} {name file : String}
    {down : Key → List Key → Search (Option Symbol × List Key)}
    (below : ∀ next visited, Derives index (fun answer => answer.1 = none →
        Explores (Idle index name file) (Forwards index file) visited answer.2 ∧
          answer.2.contains (.text next) = true)
      (down (.text next) visited))
    {imports : List Import} (visited : List Key) :
    Derives index (Exhausts index name file space publicOnly imports visited)
      (throughEach index refer down name space publicOnly imports visited) := by
  induction imports generalizing visited with
  | nil => exact .pure fun _ => ⟨.refl _, List.forall_mem_nil _⟩
  | cons i rest ih =>
    have atOnce (spent : ∀ later, Spent index name file space publicOnly later i) :
        Derives index (Exhausts index name file space publicOnly (i :: rest) visited)
          (throughEach index refer down name space publicOnly rest visited) :=
      (ih visited).mono fun _ others => others.cons (.refl _) fun later _ => spent later
    simp only [throughEach]
    split
    · next hidden =>
      rw [Bool.and_eq_true, bne_iff_ne] at hidden
      exact atOnce fun _ => .of_hidden hidden.1 hidden.2
    · refine (Keeps.lift (resolveImport index i space)).bind fun target named => ?_
      cases target with
      | none => exact atOnce fun _ => .of_unresolved named
      | some target =>
        obtain ⟨next, isNext⟩ :=
          (typed.symbols target (resolveImport_within typed.ids named target rfl)).qualifiedName
        dsimp only
        split
        · next single =>
          split
          · exact .pure fun isNone => (by cases isNone)
          · next other =>
            exact atOnce fun _ =>
              .of_single named (by simpa [Import.isWildcard] using single) other
        · next wildcard =>
          have wildcard : i.isWildcard = true := by
            rw [Bool.not_eq_true, Bool.not_eq_false'] at wildcard
            exact wildcard
          have isName : Key.IsName (some target.qualifiedName) := by
            rintro key ⟨⟩
            exact ⟨next, isNext⟩
          refine (findMember_complete typed follows linked isName name).bind
            fun found complete => ?_
          cases found with
          | some found => exact .pure fun isNone => (by cases isNone)
          | none =>
            dsimp only
            split
            · exact .pure fun isNone => (by cases isNone)
            · next undescended =>
              have nothing (recursive : i.isRecursive = true) (symbol : Symbol)
                  (isBelow : Below index target.qualifiedName symbol) :
                  symbol.name.isText name = false := by
                rw [if_pos recursive, isNext] at undescended
                exact descendant_complete typed undescended (isNext ▸ isBelow)
              rw [isNext]
              refine (below next visited).bind fun answer searched => ?_
              obtain ⟨found, middle⟩ := answer
              cases found with
              | some found => exact .pure fun isNone => (by cases isNone)
              | none =>
                obtain ⟨explored, held⟩ := searched rfl
                refine (ih middle).mono fun _ others => others.cons explored fun later more => ?_
                exact .of_wildcard named wildcard (complete rfl) nothing
                  (isNext ▸ contains_mono more held)

/-- Where the mark of the root is not in use, a search through imports explores. -/
theorem throughImports_explores (name file : String) (fuel : Nat) {space : Option Key}
    (isName : Key.IsName space) (publicOnly : Bool) (visited : List Key)
    (unmarked : space = none → index.importsOf (some (importMark none file)) file = []) :
    Derives index (fun answer => answer.1 = none →
        Explores (Idle index name file) (Forwards index file) visited answer.2 ∧
          answer.2.contains (importMark space file) = true ∧
          (visited.contains (importMark space file) = false →
            ∀ i ∈ index.importsOf space file, Spent index name file space publicOnly answer.2 i))
      (throughImports index refer name file fuel space publicOnly visited) := by
  induction fuel generalizing space publicOnly visited with
  | zero => exact .throw _
  | succ fuel ih =>
    simp only [throughImports]
    split
    · next held =>
      exact .pure fun _ => ⟨.refl _, held, fun fresh => by rw [held] at fresh; cases fresh⟩
    · have below (next : String) (visited : List Key) : Derives index (fun answer =>
          answer.1 = none → Explores (Idle index name file) (Forwards index file) visited answer.2 ∧
            answer.2.contains (.text next) = true)
          (throughImports index refer name file fuel (some (.text next)) true visited) := by
        have isText : Key.IsName (some (.text next)) := by
          rintro key ⟨⟩
          exact ⟨next, rfl⟩
        refine (ih isText true visited fun isNone => (by cases isNone)).mono
          fun answer found isNone => ?_
        exact ⟨(found isNone).1, (found isNone).2.1⟩
      refine (throughEach_explores typed linked follows below _).mono fun answer found isNone => ?_
      obtain ⟨explores, spent⟩ := found isNone
      have held : answer.2.contains (importMark space file) = true :=
        contains_mono explores.more (by simp)
      refine ⟨?_, held, fun _ => spent⟩
      cases space with
      | none =>
        have empty := unmarked rfl
        refine explores.push ("<root:" ++ file ++ ">") (fun i target opens => ?_) ?_
        · cases empty ▸ opens.listed
        · rintro next ⟨i, target, opens, _⟩
          cases empty ▸ opens.listed
      | some space =>
        obtain ⟨space, rfl⟩ := isName space rfl
        refine explores.push space (fun i target opens => ?_) ?_
        · exact (spent i opens.listed target (opens.ofPublic _)).1
        · rintro next ⟨i, target, opens, wildcard, isNext⟩
          exact isNext ▸ (spent i opens.listed target (opens.ofPublic _)).2 wildcard

omit linked follows in
/-- What comes through public imports is brought by one of a namespace that they lead to. -/
theorem Imported.reached {publicOnly : Bool} {space? : Option Key} {name file : String}
    {symbol : Symbol} : Imported index publicOnly space? name file symbol → publicOnly = true →
    ∀ space, space? = some (.text space) →
    ∃ reached, Relation.ReflTransGen (Forwards index file) space reached ∧
      ¬ Idle index name file reached
  | .member opens wildcard isMember, isPublic, space, same =>
    ⟨space, .refl, fun idle => idle _ _ (isPublic ▸ same ▸ opens) _ (.member wildcard isMember)⟩
  | .deep opens recursive isBelow isNamed, isPublic, space, same =>
    ⟨space, .refl,
      fun idle => idle _ _ (isPublic ▸ same ▸ opens) _ (.deep recursive isBelow isNamed)⟩
  | .one opens single isNamed, isPublic, space, same =>
    ⟨space, .refl, fun idle => idle _ _ (isPublic ▸ same ▸ opens) _ (.one single isNamed)⟩
  | @Imported.further _ _ _ _ _ i target _ opens wildcard imported, isPublic, space, same => by
    obtain ⟨next, isNext⟩ := (typed.symbols target
      (resolveImport_within typed.ids opens.named target rfl)).qualifiedName
    obtain ⟨reached, path, gives⟩ := imported.reached rfl next (congrArg some isNext)
    exact ⟨reached, .head ⟨i, target, isPublic ▸ same ▸ opens, wildcard, isNext⟩ path, gives⟩

end Imports

end Scope

end Sysml
