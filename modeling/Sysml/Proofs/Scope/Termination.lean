import Sysml.Proofs.Scope.Memo

/-!
# Searches that end

Where all scopes climb to the root and what documents bind can be looked up, each query
has an answer, whatever is remembered (`resolveReference_ends`), however cyclic references
and imports are. A search for members visits each name at most once, a search through
imports too, and a query that comes up again while it is under way is cut off. Only
redefinitions that nothing binds are left out: they look for inherited members while no
query is under way.
-/

set_option autoImplicit false

namespace Sysml

def Key.IsName (key? : Option Key) : Prop :=
  ∀ key, key? = some key → ∃ name, key = .text name

theorem Key.isName_map (name? : Option String) : Key.IsName (name?.map Key.text) := by
  intro key isKey
  obtain ⟨name, _, same⟩ := Option.map_eq_some_iff.mp isKey
  exact ⟨name, same.symm⟩

namespace Scope

section Remaining

variable {κ : Type} [BEq κ] [EquivBEq κ] {keys seen more : List κ} {key : κ}

def remaining (keys seen : List κ) : Nat :=
  (keys.filter fun key => !seen.contains key).length

omit [EquivBEq κ] in
theorem remaining_le (keys seen : List κ) : remaining keys seen ≤ keys.length :=
  List.length_filter_le ..

/-- Seeing a key that was not seen leaves fewer of them. -/
theorem remaining_cons_lt (known : keys.contains key = true) (fresh : seen.contains key = false) :
    remaining keys (key :: seen) < remaining keys seen := by
  have split : (keys.filter fun other => !(key :: seen).contains other) =
      (keys.filter fun other => !seen.contains other).filter fun other => !(other == key) := by
    rw [List.filter_filter]
    refine List.filter_congr fun other _ => ?_
    rw [List.contains_cons, Bool.not_or]
  obtain ⟨other, member, same⟩ := List.contains_iff_exists_mem_beq.mp known
  rw [remaining, split]
  refine List.length_filter_lt_length_iff_exists.mpr ⟨other, ?_, by simp [BEq.symm same]⟩
  exact List.mem_filter.mpr ⟨member, by rw [← List.contains_congr same, fresh]; rfl⟩

omit [EquivBEq κ] in
/-- Seeing more leaves no more. -/
theorem remaining_mono (part : seen ⊆ more) : remaining keys more ≤ remaining keys seen := by
  rw [remaining, remaining, ← List.countP_eq_length_filter, ← List.countP_eq_length_filter]
  refine List.countP_mono_left fun key _ isFresh => ?_
  rw [Bool.not_eq_true', Bool.eq_false_iff] at isFresh ⊢
  intro held
  obtain ⟨other, member, same⟩ := List.contains_iff_exists_mem_beq.mp held
  exact isFresh (List.contains_iff_exists_mem_beq.mpr ⟨other, part member, same⟩)

end Remaining

/-- A search that has an answer with a property and keeps an invariant of the memo, or else fails
as is allowed, from memos that have the invariant. -/
def Halts {α : Type} (allowed : Failure → Prop) (inv : Memo → Prop) (post : α → Prop)
    (run : Search α) : Prop :=
  ∀ memo : Memo, inv memo →
    (∃ value later, outcome run memo = (.ok value, later) ∧ post value ∧ inv later) ∨
      ∃ failure later, outcome run memo = (.error failure, later) ∧ allowed failure

/-- A search that has an answer with a property and keeps an invariant of the memo, from memos
that have the invariant. -/
abbrev Finishes {α : Type} (inv : Memo → Prop) (post : α → Prop) (run : Search α) : Prop :=
  Halts (fun _ => False) inv post run

namespace Halts

variable {α β : Type} {allowed : Failure → Prop} {inv : Memo → Prop} {p post : α → Prop}

theorem pure {value : α} (holds : post value) : Halts allowed inv post (Pure.pure value) :=
  fun memo kept => .inl ⟨value, memo, rfl, holds, kept⟩

theorem throw {failure : Failure} (isAllowed : allowed failure) :
    Halts allowed inv post (MonadExcept.throw failure : Search α) :=
  fun memo _ => .inr ⟨failure, memo, rfl, isAllowed⟩

theorem bind {final : β → Prop} {run : Search α} {next : α → Search β}
    (first : Halts allowed inv p run)
    (rest : ∀ value, p value → Halts allowed inv final (next value)) :
    Halts allowed inv final (run >>= next) := by
  intro memo kept
  rcases first memo kept with ⟨value, later, ran, holds, keptOn⟩ | ⟨failure, later, ran, isAllowed⟩
  · rw [outcome_bind_of_ok ran]
    exact rest value holds later keptOn
  · rw [outcome_bind_of_error ran]
    exact .inr ⟨failure, later, rfl, isAllowed⟩

theorem mono {run : Search α} (halts : Halts allowed inv p run)
    (weaker : ∀ value, p value → post value) : Halts allowed inv post run := by
  intro memo kept
  rcases halts memo kept with ⟨value, later, ran, holds, keptOn⟩ | failed
  · exact .inl ⟨value, later, ran, weaker value holds, keptOn⟩
  · exact .inr failed

theorem lift {result : Except Failure α} {value : α} (ends : result = .ok value)
    (holds : p value) : Halts allowed inv p (liftM result) := by
  subst ends
  exact pure holds

/-- Where no failure is allowed, there is an answer. -/
theorem ends {run : Search α} (finishes : Finishes inv post run) {memo : Memo} (kept : inv memo) :
    ∃ value later, outcome run memo = (.ok value, later) ∧ post value ∧ inv later := by
  rcases finishes memo kept with answered | ⟨_, _, _, never⟩
  · exact answered
  · exact never.elim

end Halts

/-- A search that has an answer whatever is remembered, and remembers only symbols of the
index. -/
abbrev Ends {α : Type} (index : Index) (post : α → Prop) (run : Search α) : Prop :=
  Finishes (Memo.Within index) post run

/-- What a search for members or imports gives: a symbol of the index, if any, and no less
visited than before. -/
def Visits (index : Index) (visited : List Key) (answer : Option Symbol × List Key) : Prop :=
  index.Has answer.1 ∧ visited ⊆ answer.2

/-- The walk outward from a namespace comes to the root within so many steps. -/
def Climbs (index : Index) : Nat → Option Key → Prop
  | 0, _ => False
  | _ + 1, none => True
  | steps + 1, some space => (∃ name, space = .text name) ∧
      ∃ outer, outerScope index space = .ok outer ∧ Climbs index steps outer

section Rules

variable {index : Index} {allowed : Failure → Prop} {inv : Memo → Prop}
  {refer : Reference → Symbol → Search (Option Symbol)}

theorem has_some {symbol : Symbol} (inside : symbol ∈ index.symbols) :
    index.Has (some symbol) := by
  intro other same
  cases same
  exact inside

def unvisited (index : Index) (visited : List Key) : Nat :=
  remaining (index.symbols.map (·.qualifiedName)) visited

theorem unvisited_le (index : Index) (visited : List Key) :
    unvisited index visited ≤ index.symbols.length :=
  Nat.le_trans (remaining_le ..) (Nat.le_of_eq (List.length_map ..))

theorem unvisited_cons {space : Key} {visited : List Key} {symbol : Symbol}
    (named : symbol ∈ index.named space) (fresh : visited.contains space = false) :
    unvisited index (space :: visited) < unvisited index visited := by
  obtain ⟨inside, same⟩ := List.mem_filter.mp named
  refine remaining_cons_lt ?_ fresh
  exact List.contains_iff_exists_mem_beq.mpr
    ⟨_, List.mem_map_of_mem inside, BEq.symm same⟩

/-- The references that a namespace has are those of the symbols of its name. -/
theorem outgoing_inside {inside : Symbol → Prop} {space : Key}
    (held : ∀ symbol ∈ index.named space, inside symbol) :
    ∀ entry ∈ index.outgoing space, entry.1 ∈ index.symbols ∧ inside entry.1 ∧
      entry.2 ∈ entry.1.references := by
  intro entry listed
  obtain ⟨known, has⟩ := Index.outgoing_within listed
  obtain ⟨symbol, named, isEntry⟩ := List.mem_flatMap.mp listed
  obtain ⟨_, _, rfl⟩ := List.mem_map.mp isEntry
  exact ⟨known, held symbol named, has⟩

section Inside

variable {inside : Symbol → Prop}
  (congr : ∀ one ∈ index.symbols, ∀ other ∈ index.symbols,
    (one.qualifiedName == other.qualifiedName) = true → inside one → inside other)
  (answers : ∀ symbol ∈ index.symbols, inside symbol → ∀ reference ∈ symbol.references,
    Halts allowed inv (fun found => ∀ target, found = some target →
      target ∈ index.symbols ∧ inside target) (refer reference symbol))

include answers

/-- A search through references ends where these lead from some symbols to such symbols only. -/
theorem inherited_ends {down : Key → List Key → Search (Option Symbol × List Key)} {space : Key}
    {start : List Key}
    (below : ∀ general ∈ index.symbols, inside general → ∀ visited, start ⊆ visited →
      Halts allowed inv (Visits index visited) (down general.qualifiedName visited))
    (entries : List (Symbol × Reference))
    (listed : ∀ entry ∈ entries, entry.1 ∈ index.symbols ∧ inside entry.1 ∧
      entry.2 ∈ entry.1.references)
    {visited : List Key} (since : start ⊆ visited) :
    Halts allowed inv (Visits index visited) (inherited refer down space entries visited) := by
  induction entries generalizing visited with
  | nil => exact .pure ⟨index.has_none, List.Subset.refl _⟩
  | cons entry rest ih =>
    obtain ⟨symbol, reference⟩ := entry
    obtain ⟨symbolIn, isInside, referenceIn⟩ := listed (symbol, reference) List.mem_cons_self
    have next {visited : List Key} (since : start ⊆ visited) :=
      ih (fun other member => listed other (List.mem_cons_of_mem _ member)) since
    simp only [inherited]
    refine (answers symbol symbolIn isInside reference referenceIn).bind fun general leads => ?_
    cases general with
    | none => exact next since
    | some general =>
      obtain ⟨generalIn, generalInside⟩ := leads general rfl
      dsimp only
      split
      · exact next since
      · refine (below general generalIn generalInside visited since).bind fun answer found => ?_
        obtain ⟨member, later⟩ := answer
        cases member with
        | some member => exact .pure found
        | none =>
          exact (next (List.Subset.trans since found.2)).mono fun _ visits =>
            ⟨visits.1, List.Subset.trans found.2 visits.2⟩

include congr

omit answers in
/-- The symbols that share the name of one inside are inside. -/
theorem named_inside {general : Symbol} (known : general ∈ index.symbols)
    (isInside : inside general) : ∀ other ∈ index.named general.qualifiedName, inside other := by
  intro other named
  obtain ⟨otherIn, same⟩ := List.mem_filter.mp named
  exact congr general known other otherIn (BEq.symm same) isInside

theorem member_ends_inside (name : String) {fuel : Nat} {space : Option Key} {visited : List Key}
    (held : ∀ name, space = some name → ∀ symbol ∈ index.named name, inside symbol)
    (enough : unvisited index visited < fuel) :
    Halts allowed inv (Visits index visited) (member index refer name fuel space visited) := by
  induction fuel generalizing space visited with
  | zero => omega
  | succ fuel ih =>
    simp only [member]
    split
    · next found looked =>
      exact .pure ⟨has_some (index.members_subset space (List.mem_of_find?_eq_some looked)),
        List.Subset.refl _⟩
    · cases space with
      | none => exact .pure ⟨index.has_none, List.Subset.refl _⟩
      | some space =>
        dsimp only
        split
        · exact .pure ⟨index.has_none, List.Subset.refl _⟩
        · next fresh =>
          have fresh : visited.contains space = false := by simpa using fresh
          refine Halts.mono (p := Visits index (space :: visited)) ?_ fun _ visits =>
            ⟨visits.1, List.Subset.trans (List.subset_cons_self _ _) visits.2⟩
          -- what is visited on the way leaves fewer names to visit, if the namespace has any
          rcases symbols : index.named space with _ | ⟨symbol, rest⟩
          · rw [Index.outgoing, symbols]
            exact .pure ⟨index.has_none, List.Subset.refl _⟩
          · have fewer := unvisited_cons (symbols ▸ List.mem_cons_self) fresh
            refine inherited_ends answers (fun general known isInside visitedThen since =>
              ih ?_ ?_) _ (outgoing_inside (held space rfl)) (List.Subset.refl _)
            · rintro _ ⟨⟩
              exact named_inside congr known isInside
            · have none_more : unvisited index visitedThen ≤ unvisited index (space :: visited) :=
                remaining_mono since
              omega

theorem findInherited_ends_inside {space : Key} (held : ∀ symbol ∈ index.named space, inside symbol)
    (name : String) : Halts allowed inv index.Has (findInherited index refer space name) := by
  have few (visited : List Key) : unvisited index visited < index.memberFuel := by
    have most := unvisited_le index visited
    rw [Index.memberFuel]
    omega
  refine (inherited_ends answers (fun general known isInside visited _ =>
    member_ends_inside congr answers name ?_ (few visited)) _ (outgoing_inside held)
    (List.Subset.refl _)).bind fun _ visits => .pure visits.1
  rintro _ ⟨⟩
  exact named_inside congr known isInside

end Inside

variable (answers : ∀ symbol ∈ index.symbols, ∀ reference ∈ symbol.references,
    Halts allowed inv index.Has (refer reference symbol))

include answers

theorem member_ends (name : String) {fuel : Nat} {space : Option Key} {visited : List Key}
    (enough : unvisited index visited < fuel) :
    Halts allowed inv (Visits index visited) (member index refer name fuel space visited) := by
  refine @member_ends_inside index allowed inv refer (fun _ => True) (fun _ _ _ _ _ _ => trivial)
    (fun symbol known _ reference has => ?_) name fuel space visited (fun _ _ _ _ => trivial) enough
  exact (answers symbol known reference has).mono fun found holds target same =>
    ⟨holds target same, trivial⟩

theorem findInherited_ends (space : Key) (name : String) :
    Halts allowed inv index.Has (findInherited index refer space name) := by
  refine @findInherited_ends_inside index allowed inv refer (fun _ => True)
    (fun _ _ _ _ _ _ => trivial) (fun symbol known _ reference has => ?_) space
    (fun _ _ => trivial) name
  exact (answers symbol known reference has).mono fun found holds target same =>
    ⟨holds target same, trivial⟩

theorem findMember_ends (space : Option Key) (name : String) :
    Halts allowed inv index.Has (findMember index refer space name) := by
  have few := unvisited_le index []
  refine Halts.bind (member_ends answers name ?_) fun _ visits => .pure visits.1
  rw [Index.memberFuel]
  omega

theorem descend_ends {start : Option Symbol} (has : index.Has start) (segments : List String) :
    Halts allowed inv index.Has (descend index refer start segments) := by
  induction segments generalizing start with
  | nil => cases start <;> exact .pure has
  | cons segment rest ih =>
    cases start with
    | none => exact .pure has
    | some symbol => exact (findMember_ends answers _ segment).bind fun _ found => ih found

variable (within : index.IdsWithin)
  (names : ∀ symbol ∈ index.symbols, Key.IsName (some symbol.qualifiedName))
  (imports : ∀ space file, Key.IsName space → ∀ i ∈ index.importsOf space file,
    ∃ found, resolveImport index i space = .ok found)

include within names imports

omit names imports in
theorem throughEach_ends {down : Key → List Key → Search (Option Symbol × List Key)}
    {name : String} {space : Option Key} {publicOnly : Bool} {start : List Key}
    (below : ∀ target ∈ index.symbols, ∀ visited, start ⊆ visited →
      Halts allowed inv (Visits index visited) (down target.qualifiedName visited))
    {listed : List Import} (known : ∀ i ∈ listed, ∃ found, resolveImport index i space = .ok found)
    {visited : List Key} (since : start ⊆ visited) :
    Halts allowed inv (Visits index visited)
      (throughEach index refer down name space publicOnly listed visited) := by
  induction listed generalizing visited with
  | nil => exact .pure ⟨index.has_none, List.Subset.refl _⟩
  | cons i rest ih =>
    have next {visited : List Key} (since : start ⊆ visited) :=
      ih (fun other member => known other (List.mem_cons_of_mem _ member)) since
    obtain ⟨target, named⟩ := known i List.mem_cons_self
    simp only [throughEach]
    split
    · exact next since
    · refine (Halts.lift named (resolveImport_within within named)).bind fun target has => ?_
      cases target with
      | none => exact next since
      | some target =>
        dsimp only
        split
        · split
          · exact .pure ⟨has, List.Subset.refl _⟩
          · exact next since
        · refine (findMember_ends answers _ name).bind fun found hasFound => ?_
          cases found with
          | some found => exact .pure ⟨hasFound, List.Subset.refl _⟩
          | none =>
            dsimp only
            split
            · next found looked =>
              refine .pure ⟨?_, List.Subset.refl _⟩
              split at looked
              · exact looked ▸ descendantFrom_within (index.members_subset _)
              · cases looked
            · refine (below target (has target rfl) visited since).bind fun answer found => ?_
              obtain ⟨found?, later⟩ := answer
              cases found? with
              | some found? => exact .pure found
              | none =>
                exact (next (List.Subset.trans since found.2)).mono fun _ visits =>
                  ⟨visits.1, List.Subset.trans found.2 visits.2⟩

theorem throughImports_ends (name file : String) {fuel : Nat} {space : Option Key}
    {publicOnly : Bool} {visited : List Key} (isName : Key.IsName space)
    (enough : unvisited index visited + (if space.isNone then 1 else 0) < fuel) :
    Halts allowed inv (Visits index visited)
      (throughImports index refer name file fuel space publicOnly visited) := by
  induction fuel generalizing space publicOnly visited with
  | zero => omega
  | succ fuel ih =>
    simp only [throughImports]
    split
    · exact .pure ⟨index.has_none, List.Subset.refl _⟩
    · next fresh =>
      refine Halts.mono (p := Visits index (importMark space file :: visited)) ?_
        fun _ visits => ⟨visits.1, List.Subset.trans (List.subset_cons_self _ _) visits.2⟩
      have goesOn (fewer : unvisited index (importMark space file :: visited) < fuel) :
          Halts allowed inv (Visits index (importMark space file :: visited))
            (throughEach index refer
              (fun target visited =>
                throughImports index refer name file fuel (some target) true visited)
              name space publicOnly (index.importsOf space file)
              (importMark space file :: visited)) := by
        refine throughEach_ends answers within
          (fun target known visitedThen since => ih (names target known) ?_)
          (imports space file isName) (List.Subset.refl _)
        have none_more : unvisited index visitedThen ≤
            unvisited index (importMark space file :: visited) := remaining_mono since
        simp only [Option.isNone_some, Bool.false_eq_true, ↓reduceIte]
        omega
      cases space with
      | none =>
        have none_more : unvisited index (importMark none file :: visited) ≤
            unvisited index visited := remaining_mono (List.subset_cons_self _ _)
        simp only [Option.isNone_none, ↓reduceIte] at enough
        exact goesOn (by omega)
      | some space =>
        rcases symbols : index.named space with _ | ⟨symbol, rest⟩
        · rw [Index.importsOf, symbols]
          exact .pure ⟨index.has_none, List.Subset.refl _⟩
        · have fewer := unvisited_cons (symbols ▸ List.mem_cons_self)
            (show visited.contains space = false by simpa [importMark] using fresh)
          simp only [Option.isNone_some, Bool.false_eq_true, ↓reduceIte] at enough
          exact goesOn (show unvisited index (space :: visited) < fuel by omega)

theorem inNamespace_ends (name file : String) {space : Option Key} (isName : Key.IsName space) :
    Halts allowed inv index.Has (inNamespace index refer name file space) := by
  refine (findMember_ends answers space name).bind fun found has => ?_
  cases found with
  | some found => exact .pure has
  | none =>
    have few := unvisited_le index []
    refine Halts.bind (throughImports_ends answers within names imports name file isName ?_)
      fun _ visits => .pure visits.1
    rw [Index.memberFuel]
    split <;> omega

theorem outward_ends (name file : String) {fuel : Nat} {space : Option Key}
    (climbs : Climbs index fuel space) :
    Halts allowed inv index.Has (outward index refer name file fuel space) := by
  induction fuel generalizing space with
  | zero => cases climbs
  | succ fuel ih =>
    have isName : Key.IsName space := by
      rintro key rfl
      exact climbs.1
    refine (inNamespace_ends answers within names imports name file isName).bind fun found has => ?_
    cases found with
    | some found => exact .pure has
    | none =>
      cases space with
      | none => exact .pure index.has_none
      | some space =>
        obtain ⟨_, outer, around, climbs⟩ := climbs
        refine Halts.bind (Halts.lift (p := (· = outer)) around rfl) fun _ same => ?_
        exact ih (same ▸ climbs)

/-- Where references end, a query ends whose scope climbs to the root. -/
theorem answer_ends {query : Query}
    (climbs : Climbs index (index.outwardFuel query.scope) query.scope) :
    Halts allowed inv index.Has (answer index refer query) := by
  unfold answer
  split
  · exact .pure index.has_none
  · refine (outward_ends answers within names imports _ _ climbs).bind fun start has => ?_
    refine (descend_ends answers has _).bind fun found hasFound => ?_
    cases found with
    | some found => exact .pure hasFound
    | none => exact .pure (index.has_lookup _)

end Rules

/-- The query that a reference of a symbol asks where nothing binds it. A redefinition asks it
around the owner of the symbol. -/
def askedBy (symbol : Symbol) (reference : Reference) : Query where
  path := (reference.target.text?).getD ""
  scope :=
    match reference.kind, symbol.owner with
    | .redefinition, some owner => (parentScope owner).toOption.join
    | _, owner => owner
  file := symbol.file

def Index.asked (index : Index) : List Query :=
  index.symbols.flatMap fun symbol => symbol.references.map (askedBy symbol)

/-- What a reference needs for its search to end where nothing binds it. -/
structure Free (index : Index) (symbol : Symbol) (reference : Reference) : Prop where
  path : ∃ path, reference.target = .text path
  kind : reference.kind = .redefinition → symbol.owner = none
  climbs : Climbs index (index.outwardFuel symbol.owner) symbol.owner

/-- An index on which all references end. -/
structure Index.Tame (index : Index) : Prop where
  ids : index.IdsWithin
  names : ∀ symbol ∈ index.symbols, Key.IsName (some symbol.qualifiedName)
  references : ∀ symbol ∈ index.symbols, ∀ reference ∈ symbol.references, ∃ bound,
    boundTarget index reference = .ok bound ∧ (bound = none → Free index symbol reference)
  imports : ∀ space file, Key.IsName space → ∀ i ∈ index.importsOf space file,
    ∃ found, resolveImport index i space = .ok found

section Nesting

variable {index : Index} {symbol : Symbol} {reference : Reference}

theorem asked_length (index : Index) :
    index.asked.length = index.symbols.foldl (fun count symbol =>
      count + symbol.references.length) 0 := by
  rw [Index.asked, List.length_flatMap,
    ← List.foldl_map (f := fun symbol : Symbol => symbol.references.length) (g := (· + ·)),
    List.sum_eq_foldl]
  simp

/-- A query has an answer if it is known, under way, or answered when it is not. -/
theorem resolveWith_ends {allowed : Failure → Prop} {refer : Refer} {active : List Query}
    {query : Query} (answered : active.contains query = false →
      Halts allowed (Memo.Within index) index.Has (answer index (refer (query :: active)) query)) :
    Halts allowed (Memo.Within index) index.Has (resolveWith index refer active query) := by
  intro memo inside
  rw [resolveWith_outcome]
  split
  · next known looked => exact .inl ⟨known, memo, rfl, inside.lookup looked, inside⟩
  · split
    · exact .inl ⟨none, memo, rfl, index.has_none, inside⟩
    · next idle =>
      rcases answered (by simpa using idle) memo inside with
        ⟨found, later, ran, has, within⟩ | ⟨failure, later, ran, isAllowed⟩
      · rw [ran]
        refine .inl ⟨found, _, rfl, has, fun entry member => ?_⟩
        rcases List.mem_cons.mp member with rfl | old
        · exact has
        · exact within entry old
      · rw [ran]
        exact .inr ⟨failure, _, rfl, isAllowed⟩

variable (tame : index.Tame)

include tame

/-- Each query that a reference asks while others are under way is one that was not asked
before, so references nest no deeper than there are queries to ask. -/
theorem referAt_ends {keys : List Query}
    (covers : ∀ query ∈ index.asked, keys.contains query = true) {depth : Nat}
    {active : List Query} (enough : remaining keys active < depth) (known : symbol ∈ index.symbols)
    (has : reference ∈ symbol.references) :
    Ends index index.Has (referAt index depth active reference symbol) := by
  induction depth generalizing active symbol reference with
  | zero => omega
  | succ depth ih =>
    obtain ⟨bound, isBound, free⟩ := tame.references symbol known reference has
    refine (Halts.lift (p := (· = bound)) isBound rfl).bind fun bound same => ?_
    subst same
    cases bound with
    | some found => exact .pure (boundTarget_within tame.ids isBound)
    | none =>
      obtain ⟨⟨path, isText⟩, kind, climbs⟩ := free rfl
      have isPath : pathOf reference = .ok path := by
        rw [pathOf, isText]
        rfl
      have asked : (⟨path, symbol.owner, symbol.file⟩ : Query) ∈ index.asked := by
        refine List.mem_flatMap.mpr ⟨symbol, known, List.mem_map.mpr ⟨reference, has, ?_⟩⟩
        rw [askedBy, isText]
        split
        · next redefines owned =>
          rw [kind redefines] at owned
          cases owned
        · rfl
      have resolves : Ends index index.Has (resolveWith index (referAt index depth) active
          ⟨path, symbol.owner, symbol.file⟩) := by
        refine resolveWith_ends fun idle => answer_ends ?_ tame.ids tame.names tame.imports climbs
        have fewer := remaining_cons_lt (covers _ asked) idle
        exact fun other knownToo reference has => ih (by omega) knownToo has
      refine (Halts.lift (p := (· = path)) isPath rfl).bind fun path same => ?_
      subst same
      split
      · next redefines owned =>
        rw [kind redefines] at owned
        cases owned
      · exact resolves

/-- A reference has an answer, whatever is remembered. -/
theorem resolveReference_ends (known : symbol ∈ index.symbols)
    (has : reference ∈ symbol.references) :
    Ends index index.Has (resolveReference index reference symbol) := by
  have covers (query : Query) (asked : query ∈ index.asked) : index.asked.contains query = true :=
    List.contains_iff_exists_mem_beq.mpr ⟨query, asked, BEq.rfl⟩
  refine referAt_ends tame covers ?_ known has
  have few := remaining_le index.asked []
  rw [asked_length] at few
  rw [Index.depthBound]
  refine Nat.lt_succ_of_le (Nat.le_trans few (Nat.le_trans (Nat.le_add_right _ 2) ?_))
  exact Nat.le_mul_of_pos_right _ (Nat.succ_pos _)

end Nesting

end Scope

end Sysml
