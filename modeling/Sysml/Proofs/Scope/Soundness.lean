import Sysml.Proofs.Scope.History

/-!
# The scoping rules

What paths and references mean, as rules: a first segment is a member of a namespace
around the place, of one that a chain of references leads to, or comes through imports;
each further segment is a member of what stands before it. Whatever was asked before, an
answer is derivable by these rules (`resolve_sound`), on cyclic references and imports too:
the memo, the queries that are cut off and the namespaces that are passed over can only
hide answers, not make them up.
-/

set_option autoImplicit false

namespace Sysml

def Import.isWildcard (i : Import) : Bool :=
  i.isNamespace || i.isRecursive

namespace Scope

/-- The symbol stands somewhere below a namespace. -/
inductive Below (index : Index) : Key → Symbol → Prop where
  | member {space : Key} {symbol : Symbol} :
      symbol ∈ index.members (some space) → Below index space symbol
  | deeper {space : Key} {between symbol : Symbol} :
      between ∈ index.members (some space) → Below index between.qualifiedName symbol →
      Below index space symbol

theorem Below.member_of {index : Index} {space : Key} {outer symbol : Symbol}
    (below : Below index space outer)
    (member : symbol ∈ index.members (some outer.qualifiedName)) : Below index space symbol := by
  induction below with
  | member inside => exact .deeper inside (.member member)
  | deeper inside _ ih => exact .deeper inside (ih member)

/-- The second namespace stands around the first one, or is it. -/
inductive Around (index : Index) : Option Key → Option Key → Prop where
  | here {space : Option Key} : Around index space space
  | outer {inner : Key} {outer space : Option Key} :
      outerScope index inner = .ok outer → Around index outer space →
      Around index (some inner) space

/-- An import of a namespace that a search may use, and what it names. -/
structure Opens (index : Index) (file : String) (publicOnly : Bool) (space : Option Key)
    (i : Import) (target : Symbol) : Prop where
  listed : i ∈ index.importsOf space file
  visible : publicOnly = true → i.visibility = "public"
  named : resolveImport index i space = .ok (some target)

mutual

/-- What a reference of a symbol means: what a document binds it to, else what its path
means. A redefinition means a feature that the owner inherits, or what the path means around
the owner, and never the redefining feature. -/
inductive Leads (index : Index) : Symbol → Reference → Symbol → Prop where
  | bound {symbol target : Symbol} {reference : Reference} :
      boundTarget index reference = .ok (some target) → Leads index symbol reference target
  | named {symbol target : Symbol} {reference : Reference} {path : String} :
      boundTarget index reference = .ok none → pathOf reference = .ok path →
      (reference.kind = .redefinition → symbol.owner = none) →
      Means index ⟨path, symbol.owner, symbol.file⟩ target → Leads index symbol reference target
  | inherited {symbol general target : Symbol} {reference : Reference} {path last : String}
      {owner : Key} {entry : Symbol × Reference} :
      boundTarget index reference = .ok none → pathOf reference = .ok path →
      reference.kind = .redefinition → symbol.owner = some owner →
      (QualifiedName.segments path).getLast? = some last → entry ∈ index.outgoing owner →
      Leads index entry.1 entry.2 general →
      IsMember index (some general.qualifiedName) last target → target ≠ symbol →
      Leads index symbol reference target
  | around {symbol target : Symbol} {reference : Reference} {path : String} {owner : Key}
      {scope : Option Key} :
      boundTarget index reference = .ok none → pathOf reference = .ok path →
      reference.kind = .redefinition → symbol.owner = some owner →
      parentScope owner = .ok scope → Means index ⟨path, scope, symbol.file⟩ target →
      target ≠ symbol → Leads index symbol reference target

/-- A name means a member of a namespace, or of one that a chain of references leads to. -/
inductive IsMember (index : Index) : Option Key → String → Symbol → Prop where
  | own {space : Option Key} {name : String} {symbol : Symbol} :
      symbol ∈ index.members space → answersTo name symbol = true →
      IsMember index space name symbol
  | inherited {space : Key} {name : String} {general symbol : Symbol}
      {entry : Symbol × Reference} :
      entry ∈ index.outgoing space → Leads index entry.1 entry.2 general →
      IsMember index (some general.qualifiedName) name symbol →
      IsMember index (some space) name symbol

/-- A name means something through the imports of a namespace; all but the first have to be
public. -/
inductive Imported (index : Index) : Bool → Option Key → String → String → Symbol → Prop where
  | member {publicOnly : Bool} {space : Option Key} {name file : String} {i : Import}
      {target symbol : Symbol} :
      Opens index file publicOnly space i target → i.isWildcard = true →
      IsMember index (some target.qualifiedName) name symbol →
      Imported index publicOnly space name file symbol
  | deep {publicOnly : Bool} {space : Option Key} {name file : String} {i : Import}
      {target symbol : Symbol} :
      Opens index file publicOnly space i target → i.isRecursive = true →
      Below index target.qualifiedName symbol → symbol.name.isText name = true →
      Imported index publicOnly space name file symbol
  | one {publicOnly : Bool} {space : Option Key} {name file : String} {i : Import}
      {target : Symbol} :
      Opens index file publicOnly space i target → i.isWildcard = false →
      target.name.isText name = true → Imported index publicOnly space name file target
  | further {publicOnly : Bool} {space : Option Key} {name file : String} {i : Import}
      {target symbol : Symbol} :
      Opens index file publicOnly space i target → i.isWildcard = true →
      Imported index true (some target.qualifiedName) name file symbol →
      Imported index publicOnly space name file symbol

/-- A name means something in a namespace. -/
inductive Offers (index : Index) : Option Key → String → String → Symbol → Prop where
  | member {space : Option Key} {name file : String} {symbol : Symbol} :
      IsMember index space name symbol → Offers index space name file symbol
  | imported {space : Option Key} {name file : String} {symbol : Symbol} :
      Imported index false space name file symbol → Offers index space name file symbol

/-- Each segment means a member of what stands before it. -/
inductive Descends (index : Index) : Symbol → List String → Symbol → Prop where
  | stop {symbol : Symbol} : Descends index symbol [] symbol
  | step {symbol next found : Symbol} {segment : String} {rest : List String} :
      IsMember index (some symbol.qualifiedName) segment next → Descends index next rest found →
      Descends index symbol (segment :: rest) found

/-- What a path means as seen from a namespace. Equal keys name one namespace. -/
inductive Means (index : Index) : Query → Symbol → Prop where
  | walk {query : Query} {first : String} {rest : List String} {scope space : Option Key}
      {start found : Symbol} :
      QualifiedName.segments query.path = first :: rest → (query.scope == scope) = true →
      Around index scope space → Offers index space first query.file start →
      Descends index start rest found → Means index query found
  | whole {query : Query} {found : Symbol} :
      QualifiedName.segments query.path ≠ [] →
      index.lookup (.text query.path) = some found → Means index query found

end

/-- The second query is the first, perhaps with another key for the same scope. -/
theorem Means.congr {index : Index} {query other : Query} {found : Symbol}
    (means : Means index query found) (same : (other == query) = true) :
    Means index other found := by
  simp only [Query.beq_eq, Bool.and_eq_true, beq_iff_eq] at same
  obtain ⟨path, scope, file⟩ := same
  cases means with
  | walk segments equal around offers descends =>
    exact .walk (path ▸ segments) (BEq.trans scope equal) around (file ▸ offers) descends
  | whole some_ looked => exact .whole (path ▸ some_) (path ▸ looked)

section Offering

variable {index : Index} {symbol : Symbol} {name : String}

theorem Below.known {space : Key} (below : Below index space symbol) : symbol ∈ index.symbols := by
  induction below with
  | member inside => exact index.members_subset _ inside
  | deeper _ _ ih => exact ih

theorem IsMember.known {space : Option Key} :
    IsMember index space name symbol → symbol ∈ index.symbols ∧ answersTo name symbol = true
  | .own member answers => ⟨index.members_subset _ member, answers⟩
  | .inherited _ _ isMember => isMember.known

theorem answersTo_name (named : symbol.name.isText name = true) : answersTo name symbol = true := by
  rw [answersTo, named]
  rfl

theorem Imported.known (within : index.IdsWithin) {publicOnly : Bool} {space : Option Key}
    {file : String} : Imported index publicOnly space name file symbol →
      symbol ∈ index.symbols ∧ answersTo name symbol = true
  | .member _ _ isMember => isMember.known
  | .deep _ _ below named => ⟨below.known, answersTo_name named⟩
  | .one opens _ named =>
    ⟨resolveImport_within within opens.named symbol rfl, answersTo_name named⟩
  | .further _ _ imported => imported.known within

/-- What is offered under a name is a symbol of the index that answers to it. -/
theorem Offers.known (within : index.IdsWithin) {space : Option Key} {file : String}
    (offers : Offers index space name file symbol) :
    symbol ∈ index.symbols ∧ answersTo name symbol = true := by
  cases offers with
  | member isMember => exact isMember.known
  | imported imported => exact imported.known within

/-- What the segments of a path lead to answers to the last of them. -/
theorem Descends.answersTo {found : Symbol} {first : String} {rest : List String}
    (descends : Descends index symbol rest found) (answers : Scope.answersTo first symbol = true) :
    ∀ last ∈ (first :: rest).getLast?, Scope.answersTo last found = true := by
  induction rest generalizing first symbol with
  | nil =>
    cases descends
    intro last isLast
    obtain rfl : first = last := by simpa using isLast
    exact answers
  | cons segment rest ih =>
    cases descends with
    | step isMember further =>
      intro last isLast
      rw [List.getLast?_cons_cons] at isLast
      exact ih further isMember.known.2 last isLast

end Offering

def Meets (post : Symbol → Prop) (found : Option Symbol) : Prop :=
  ∀ symbol, found = some symbol → post symbol

theorem meets_none (post : Symbol → Prop) : Meets post none := by
  intro symbol found
  cases found

theorem meets_some {post : Symbol → Prop} {symbol : Symbol} (holds : post symbol) :
    Meets post (some symbol) := by
  intro other same
  cases same
  exact holds

/-- A search whose answers have a property and which keeps an invariant of the memo, from
memos that have the invariant. -/
structure Keeps {α : Type} (inv : Memo → Prop) (post : α → Prop) (run : Search α) : Prop where
  answers : ∀ {memo}, inv memo → ∀ value, (outcome run memo).1 = .ok value → post value
  stores : ∀ {memo}, inv memo → inv (outcome run memo).2

namespace Keeps

variable {α β : Type} {inv : Memo → Prop} {post : α → Prop}

theorem pure {value : α} (holds : post value) : Keeps inv post (Pure.pure value) where
  answers _ _ same := Except.ok.inj same ▸ holds
  stores kept := kept

theorem throw (failure : Failure) : Keeps inv post (MonadExcept.throw failure) where
  answers _ _ same := by cases same
  stores kept := kept

theorem lift (result : Except Failure α) :
    Keeps inv (fun value => result = .ok value) (liftM result) := by
  cases result with
  | error failure => exact throw failure
  | ok value => exact pure rfl

theorem bind {mid : α → Prop} {last : β → Prop} {run : Search α} {next : α → Search β}
    (first : Keeps inv mid run) (rest : ∀ value, mid value → Keeps inv last (next value)) :
    Keeps inv last (run >>= next) := by
  have both {memo : Memo} (kept : inv memo) :
      (∀ value, (outcome (run >>= next) memo).1 = .ok value → last value) ∧
        inv (outcome (run >>= next) memo).2 := by
    have answers := first.answers kept
    have stores := first.stores kept
    rcases ran : outcome run memo with ⟨failure | value, later⟩ <;> rw [ran] at answers stores
    · rw [outcome_bind_of_error ran]
      exact ⟨fun _ same => (by cases same), stores⟩
    · rw [outcome_bind_of_ok ran]
      have goesOn := rest value (answers value rfl)
      exact ⟨goesOn.answers stores, goesOn.stores stores⟩
  exact ⟨fun kept => (both kept).1, fun kept => (both kept).2⟩

theorem mono {weaker : α → Prop} {run : Search α} (keeps : Keeps inv post run)
    (implies : ∀ value, post value → weaker value) : Keeps inv weaker run :=
  ⟨fun kept value same => implies value (keeps.answers kept value same), keeps.stores⟩

theorem and {other : α → Prop} {run : Search α} (first : Keeps inv post run)
    (second : Keeps inv other run) : Keeps inv (fun value => post value ∧ other value) run :=
  ⟨fun kept value same => ⟨first.answers kept value same, second.answers kept value same⟩,
    first.stores⟩

end Keeps

/-- What some calls keep one after the other, their sequence keeps. -/
theorem Memo.after_keeps {index : Index} {inv : Memo → Prop} {history : List Call}
    (keeps : ∀ call ∈ history, ∀ memo, inv memo → inv (outcome (call.run index) memo).2)
    (first : inv []) : inv (Memo.after index history) := by
  have from_ (memo : Memo) (kept : inv memo) :
      inv (history.foldl (fun memo call => (outcome (call.run index) memo).2) memo) := by
    induction history generalizing memo with
    | nil => exact kept
    | cons call history ih =>
      obtain ⟨here, later⟩ := List.forall_mem_cons.mp keeps
      exact ih later _ (here memo kept)
  exact from_ [] first

def Memo.Derived (index : Index) (memo : Memo) : Prop :=
  ∀ entry ∈ memo, Meets (Means index entry.1) entry.2

/-- A search whose answers have a property and which stores derivable answers only, if all
that were stored before it are. -/
abbrev Derives {α : Type} (index : Index) (post : α → Prop) (run : Search α) : Prop :=
  Keeps (Memo.Derived index) post run

section Rules

variable {index : Index} {refer : Reference → Symbol → Search (Option Symbol)}
  (leads : ∀ reference symbol, Derives index (Meets fun general =>
    (general.qualifiedName == symbol.qualifiedName) = false → Leads index symbol reference general)
    (refer reference symbol))

/-- A name means a member of something that a reference of the namespace leads to. -/
def Inherits (index : Index) (space : Key) (name : String) (symbol : Symbol) : Prop :=
  ∃ entry ∈ index.outgoing space, ∃ general, Leads index entry.1 entry.2 general ∧
    (general.qualifiedName == space) = false ∧
    IsMember index (some general.qualifiedName) name symbol

include leads

theorem inherited_derives {down : Key → List Key → Search (Option Symbol × List Key)} {space : Key}
    {name : String}
    (below : ∀ general visited, Derives index
      (fun answer => Meets (IsMember index (some general) name) answer.1) (down general visited))
    {entries : List (Symbol × Reference)} (inside : entries ⊆ index.outgoing space)
    (visited : List Key) :
    Derives index (fun answer => Meets (Inherits index space name) answer.1)
      (inherited refer down space entries visited) := by
  induction entries generalizing visited with
  | nil => exact .pure (meets_none _)
  | cons entry rest ih =>
    obtain ⟨symbol, reference⟩ := entry
    obtain ⟨here, others⟩ := List.cons_subset.mp inside
    simp only [inherited]
    refine (leads reference symbol).bind fun general led => ?_
    cases general with
    | none => exact ih others visited
    | some general =>
      dsimp only
      split
      · exact ih others visited
      · next apart =>
        have apart : (general.qualifiedName == space) = false := by simpa using apart
        -- the symbol is one of the namespace's declarations, so it is not led back to itself
        have ofSpace : (symbol.qualifiedName == space) = true := by
          obtain ⟨other, named, listed⟩ := List.mem_flatMap.mp here
          obtain ⟨_, _, same⟩ := List.mem_map.mp listed
          cases same
          exact (List.mem_filter.mp named).2
        have means : Leads index symbol reference general :=
          led general rfl (by rw [BEq.congr_right ofSpace, apart])
        refine (below _ _).bind fun answer found => ?_
        obtain ⟨member, later⟩ := answer
        cases member with
        | none => exact ih others later
        | some member =>
          exact .pure (meets_some ⟨_, here, general, means, apart, found member rfl⟩)

theorem member_derives (name : String) (fuel : Nat) (space : Option Key) (visited : List Key) :
    Derives index (fun answer => Meets (IsMember index space name) answer.1)
      (member index refer name fuel space visited) := by
  induction fuel generalizing space visited with
  | zero => exact .throw _
  | succ fuel ih =>
    simp only [member]
    split
    · next found looked =>
      exact .pure (meets_some
        (.own (List.mem_of_find?_eq_some looked) (List.find?_some looked)))
    · cases space with
      | none => exact .pure (meets_none _)
      | some space =>
        dsimp only
        split
        · exact .pure (meets_none _)
        · refine (inherited_derives leads (fun general visited => ih (some general) visited)
            (List.Subset.refl _) _).mono fun answer inherits symbol found => ?_
          obtain ⟨entry, listed, general, means, _, isMember⟩ := inherits symbol found
          exact .inherited listed means isMember

theorem findMember_derives (space : Option Key) (name : String) :
    Derives index (Meets (IsMember index space name)) (findMember index refer space name) :=
  (member_derives leads name _ space []).bind fun _ found => .pure found

theorem findInherited_derives (space : Key) (name : String) :
    Derives index (Meets (Inherits index space name)) (findInherited index refer space name) :=
  (inherited_derives leads (fun _ => member_derives leads name _ _) (List.Subset.refl _) _).bind
    fun _ found => .pure found

theorem descend_derives {start : Option Symbol} {post : Symbol → Prop} {segments : List String}
    (reaches : ∀ symbol, start = some symbol → ∀ found, Descends index symbol segments found →
      post found) :
    Derives index (Meets post) (descend index refer start segments) := by
  induction segments generalizing start with
  | nil =>
    cases start with
    | none => exact .pure (meets_none _)
    | some symbol => exact .pure (meets_some (reaches symbol rfl symbol .stop))
  | cons segment rest ih =>
    cases start with
    | none => exact .pure (meets_none _)
    | some symbol =>
      refine (findMember_derives leads _ segment).bind fun next isMember => ih ?_
      intro between same found descends
      exact reaches symbol rfl found (.step (isMember between same) descends)

omit leads in
theorem descendantFrom_below {name : String} {space : Key} {fuel : Nat} {queue : List Symbol}
    {expanded : List Key} (queued : ∀ symbol ∈ queue, Below index space symbol) :
    Meets (fun symbol => Below index space symbol ∧ symbol.name.isText name = true)
      (descendantFrom index name fuel queue expanded) := by
  induction fuel generalizing queue expanded with
  | zero => exact meets_none _
  | succ fuel ih =>
    cases queue with
    | nil => exact meets_none _
    | cons symbol queue =>
      obtain ⟨first, rest⟩ := List.forall_mem_cons.mp queued
      simp only [descendantFrom]
      split
      · next isNamed => exact meets_some ⟨first, isNamed⟩
      · split
        · exact ih rest
        · refine ih fun other listed => ?_
          rcases List.mem_append.mp listed with old | new
          · exact rest other old
          · exact first.member_of new

theorem throughEach_derives {space : Option Key} {publicOnly : Bool} {name file : String}
    {down : Key → List Key → Search (Option Symbol × List Key)}
    (further : ∀ target visited, Derives index
      (fun answer => Meets (Imported index true (some target) name file) answer.1)
      (down target visited))
    {imports : List Import} (inside : imports ⊆ index.importsOf space file) (visited : List Key) :
    Derives index (fun answer => Meets (Imported index publicOnly space name file) answer.1)
      (throughEach index refer down name space publicOnly imports visited) := by
  induction imports generalizing visited with
  | nil => exact .pure (meets_none _)
  | cons i rest ih =>
    obtain ⟨here, others⟩ := List.cons_subset.mp inside
    simp only [throughEach]
    split
    · exact ih others visited
    · next passes =>
      have visible : publicOnly = true → i.visibility = "public" := by
        rintro rfl
        simpa using passes
      refine (Keeps.lift (resolveImport index i space)).bind fun target named => ?_
      cases target with
      | none => exact ih others visited
      | some target =>
        have opens : Opens index file publicOnly space i target := ⟨here, visible, named⟩
        dsimp only
        split
        · next single =>
          have single : i.isWildcard = false := by simpa [Import.isWildcard] using single
          split
          · next isNamed => exact .pure (meets_some (.one opens single isNamed))
          · exact ih others visited
        · next wildcard =>
          have wildcard : i.isWildcard = true := by
            rw [Bool.not_eq_true, Bool.not_eq_false'] at wildcard
            exact wildcard
          refine (findMember_derives leads _ name).bind fun found isMember => ?_
          cases found with
          | some found => exact .pure (meets_some (.member opens wildcard (isMember found rfl)))
          | none =>
            dsimp only
            split
            · next found looked =>
              refine .pure (meets_some ?_)
              split at looked
              · next recursive =>
                obtain ⟨isBelow, isNamed⟩ :=
                  descendantFrom_below (fun _ => Below.member) found looked
                exact .deep opens recursive isBelow isNamed
              · cases looked
            · refine (further _ _).bind fun answer imported => ?_
              obtain ⟨found, later⟩ := answer
              cases found with
              | none => exact ih others later
              | some found =>
                exact .pure (meets_some (.further opens wildcard (imported found rfl)))

theorem throughImports_derives (name file : String) (fuel : Nat) (space : Option Key)
    (publicOnly : Bool) (visited : List Key) :
    Derives index (fun answer => Meets (Imported index publicOnly space name file) answer.1)
      (throughImports index refer name file fuel space publicOnly visited) := by
  induction fuel generalizing space publicOnly visited with
  | zero => exact .throw _
  | succ fuel ih =>
    simp only [throughImports]
    split
    · exact .pure (meets_none _)
    · exact throughEach_derives leads (fun target visited => ih _ _ visited)
        (List.Subset.refl _) _

theorem inNamespace_derives (name file : String) (space : Option Key) :
    Derives index (Meets (Offers index space name file))
      (inNamespace index refer name file space) := by
  refine (findMember_derives leads space name).bind fun found isMember => ?_
  cases found with
  | some found => exact .pure (meets_some (.member (isMember found rfl)))
  | none =>
    refine (throughImports_derives leads name file _ space false []).bind fun answer imported => ?_
    exact .pure fun symbol found => .imported (imported symbol found)

theorem outward_derives (name file : String) (fuel : Nat) {scope space : Option Key}
    (around : ∀ outer, Around index space outer → Around index scope outer) :
    Derives index (Meets fun found => ∃ outer, Around index scope outer ∧
        Offers index outer name file found)
      (outward index refer name file fuel space) := by
  induction fuel generalizing space with
  | zero => exact .throw _
  | succ fuel ih =>
    refine (inNamespace_derives leads name file space).bind fun found offers => ?_
    cases found with
    | some found => exact .pure (meets_some ⟨space, around space .here, offers found rfl⟩)
    | none =>
      cases space with
      | none => exact .pure (meets_none _)
      | some inner =>
        refine (Keeps.lift (outerScope index inner)).bind fun outer isOuter => ?_
        refine ih fun other further => ?_
        exact around other (.outer isOuter further)

/-- Where references lead by the rules, so do queries. -/
theorem answer_derives (query : Query) :
    Derives index (Meets (Means index query)) (answer index refer query) := by
  unfold answer
  split
  · exact .pure (meets_none _)
  · next first rest segments =>
    refine (outward_derives leads first query.file _ fun _ => id).bind fun start found => ?_
    have means : Derives index (Meets (Means index query)) (descend index refer start rest) := by
      refine descend_derives leads fun symbol same target descends => ?_
      obtain ⟨outer, around, offers⟩ := found symbol same
      exact .walk segments BEq.rfl around offers descends
    refine means.bind fun target isTarget => ?_
    cases target with
    | some target => exact .pure (meets_some (isTarget target rfl))
    | none => exact .pure fun symbol looked => .whole (by simp [segments]) looked

end Rules

section References

variable {index : Index} {refer : Refer} {active : List Query}

/-- An answer that is remembered is derivable, and so is one that is stored. -/
theorem resolveWith_derives {query : Query}
    (answers : Derives index (Meets (Means index query))
      (answer index (refer (query :: active)) query)) :
    Derives index (Meets (Means index query)) (resolveWith index refer active query) := by
  have both {memo : Memo} (derived : memo.Derived index) :
      (∀ found, (outcome (resolveWith index refer active query) memo).1 = .ok found →
        Meets (Means index query) found) ∧
      (outcome (resolveWith index refer active query) memo).2.Derived index := by
    rw [resolveWith_outcome]
    split
    · next known looked =>
      refine ⟨fun found same symbol isFound => ?_, derived⟩
      obtain ⟨held, equal, member⟩ := Entries.exists_mem_of_lookup looked
      cases same
      exact (derived _ member symbol isFound).congr equal
    · split
      · exact ⟨fun _ same => Except.ok.inj same ▸ meets_none _, derived⟩
      · have means := answers.answers derived
        have stores := answers.stores derived
        rcases ran : outcome (answer index (refer (query :: active)) query) memo with
          ⟨failure | found, later⟩ <;> rw [ran] at means stores
        · exact ⟨fun _ same => (by cases same), stores⟩
        · refine ⟨fun _ same => Except.ok.inj same ▸ means found rfl, fun entry member => ?_⟩
          rcases List.mem_cons.mp member with rfl | old
          · exact means found rfl
          · exact stores entry old
  exact ⟨fun derived => (both derived).1, fun derived => (both derived).2⟩

variable {reference : Reference} {symbol : Symbol} {path : String}

theorem resolveRedefinition_derives {owner : Key}
    (leads : ∀ reference symbol, Derives index (Meets fun general =>
      (general.qualifiedName == symbol.qualifiedName) = false →
        Leads index symbol reference general) (refer active reference symbol))
    (resolves : ∀ query, Derives index (Meets (Means index query))
      (resolveWith index refer active query))
    (unbound : boundTarget index reference = .ok none) (isPath : pathOf reference = .ok path)
    (redefines : reference.kind = .redefinition) (owned : symbol.owner = some owner) :
    Derives index (Meets fun target =>
        (target.qualifiedName == symbol.qualifiedName) = false →
          Leads index symbol reference target)
      (resolveRedefinition index refer active path symbol owner) := by
  unfold resolveRedefinition
  split
  · exact .throw _
  · next last isLast =>
    refine (findInherited_derives leads owner last).bind fun found inherits => ?_
    cases found with
    | some found =>
      refine .pure (meets_some fun apart => ?_)
      obtain ⟨entry, listed, general, led, _, isMember⟩ := inherits found rfl
      refine .inherited unbound isPath redefines owned isLast listed led isMember ?_
      rintro rfl
      simp at apart
    | none =>
      refine (Keeps.lift (parentScope owner)).bind fun scope isScope => ?_
      refine (resolves _).bind fun found means => .pure fun target kept _ => ?_
      obtain ⟨isFound, other⟩ := Option.filter_eq_some_iff.mp kept
      refine .around unbound isPath redefines owned isScope (means target isFound) ?_
      rintro rfl
      simp at other

theorem referAt_derives (depth : Nat) (active : List Query) (reference : Reference)
    (symbol : Symbol) :
    Derives index (Meets fun target =>
        (target.qualifiedName == symbol.qualifiedName) = false →
          Leads index symbol reference target)
      (referAt index depth active reference symbol) := by
  induction depth generalizing active reference symbol with
  | zero => exact .throw _
  | succ depth ih =>
    have resolves (query : Query) : Derives index (Meets (Means index query))
        (resolveWith index (referAt index depth) active query) :=
      resolveWith_derives (answer_derives (ih (query :: active)) query)
    refine (Keeps.lift (boundTarget index reference)).bind fun found isBound => ?_
    cases found with
    | some found => exact .pure (meets_some fun _ => .bound isBound)
    | none =>
      refine (Keeps.lift (pathOf reference)).bind fun path isPath => ?_
      split
      · next redefines owned =>
        exact resolveRedefinition_derives (ih active) resolves isBound isPath redefines owned
      · next noRedefinition =>
        refine (resolves _).mono fun found means target isFound _ => ?_
        refine .named isBound isPath (fun redefines => ?_) (means target isFound)
        cases owned : symbol.owner with
        | none => rfl
        | some owner => exact absurd owned (noRedefinition owner redefines)

end References

theorem resolve_derives (index : Index) (query : Query) :
    Derives index (Meets (Means index query)) (resolve index query) :=
  resolveWith_derives (answer_derives (referAt_derives _ _) query)

theorem Call.derives (index : Index) (call : Call) :
    Derives index (fun _ => True) (call.run index) := by
  cases call with
  | ask query => exact (resolve_derives index query).mono fun _ _ => trivial
  | refer reference symbol => exact (referAt_derives _ _ reference symbol).mono fun _ _ => trivial

/-- Whatever was asked, only derivable answers are remembered. -/
theorem Memo.after_derived (index : Index) (history : List Call) :
    (Memo.after index history).Derived index :=
  after_keeps (fun call _ _ derived => (Call.derives index call).stores derived)
    fun _ member => (by cases member)

/-- Whatever was asked, only symbols of the index are remembered. -/
theorem Memo.after_within {index : Index} (within : index.IdsWithin) (history : List Call) :
    (Memo.after index history).Within index := by
  refine after_keeps (fun call _ memo inside => ?_) fun _ member => (by cases member)
  cases call with
  | ask query => exact (resolve_behaves within query).within inside
  | refer reference symbol =>
    exact (resolveReference_behaves within reference symbol).within inside

/-- Whatever was asked before, what a path is answered with is a symbol of the index and is
derivable by the scoping rules. -/
theorem resolve_sound (symbols : List Symbol) (rootImports : List (String × List Import))
    (history : List Call) (query : Query) (found : Symbol)
    (answered : (outcome (resolve (Index.build symbols rootImports) query)
      (Memo.after (Index.build symbols rootImports) history)).1 = .ok (some found)) :
    found ∈ symbols ∧ Means (Index.build symbols rootImports) query found := by
  have inside := Index.build_idsWithin symbols rootImports
  have derived := Memo.after_derived (Index.build symbols rootImports) history
  exact ⟨(resolve_behaves inside query).answers (Memo.after_within inside history) _ answered
      found rfl,
    (resolve_derives _ query).answers derived _ answered found rfl⟩

/-- Two packages that import each other, and in one of them two definitions that specialize
each other. -/
def entangled : List Symbol :=
  [{ name := "P", qualifiedName := "P", kind := .package, file := "a.sysml",
     imports := [{ path := "Q", isNamespace := true, visibility := "public" }] },
   { name := "Q", qualifiedName := "Q", kind := .package, file := "a.sysml", serial := 1,
     imports := [{ path := "P", isNamespace := true, visibility := "public" }] },
   { name := "T", qualifiedName := "Q::T", kind := .definition .part, file := "a.sysml",
     owner := some "Q", serial := 2,
     references := [{ kind := .specialization, target := "U" }] },
   { name := "U", qualifiedName := "Q::U", kind := .definition .part, file := "a.sysml",
     owner := some "Q", serial := 3,
     references := [{ kind := .specialization, target := "T" }] },
   { name := "x", qualifiedName := "Q::U::x", kind := .usage .part, file := "a.sysml",
     owner := some "Q::U", serial := 4 }]

/-- The definition comes through the import, and its member from the other definition. -/
theorem resolve_sound_entangled :
    (outcome (resolve (Index.build entangled []) ⟨"T::x", some "P", "a.sysml"⟩)
        (Memo.after (Index.build entangled []) [.ask ⟨"U::y", some "Q", "a.sysml"⟩])).1 =
      .ok (some entangled[4]) ∧
    entangled[4] ∈ entangled ∧
      Means (Index.build entangled []) ⟨"T::x", some "P", "a.sysml"⟩ entangled[4] := by
  have answered : (outcome (resolve (Index.build entangled []) ⟨"T::x", some "P", "a.sysml"⟩)
      (Memo.after (Index.build entangled []) [.ask ⟨"U::y", some "Q", "a.sysml"⟩])).1 =
    .ok (some entangled[4]) := rfl
  exact ⟨answered, resolve_sound entangled [] _ _ _ answered⟩

end Scope

end Sysml

/-!
## What all answers have in common

A property of answers that each new answer has, whatever is derivable and remembered, all
answers have that are ever remembered (`referAt_upholds`), and what a reference means by its
path has it too (`resolveReference_upholds`).
-/

namespace Sysml.Scope

def Keeps.simulation (inv : Memo → Prop) : Simulation where
  related post left _ := Keeps inv post left
  pure := pure
  throw := throw
  bind := bind

/-- A property of queries and their answers that each new answer has. -/
structure Upholds (index : Index) (good : Query → Option Symbol → Prop) : Prop where
  congr : ∀ {query other : Query} {found : Option Symbol}, (other == query) = true →
    good query found → good other found
  answers : ∀ (depth : Nat) (active : List Query) (query : Query) {memo : Memo},
    memo.Derived index → ∀ found,
      (outcome (answer index (referAt index depth active) query) memo).1 = .ok found →
        good query found

structure Memo.Upheld (index : Index) (good : Query → Option Symbol → Prop) (memo : Memo) :
    Prop where
  within : memo.Within index
  derived : memo.Derived index
  good : ∀ entry ∈ memo, good entry.1 entry.2

theorem Memo.upheld_nil (index : Index) (good : Query → Option Symbol → Prop) :
    Memo.Upheld index good [] :=
  ⟨fun _ member => (by cases member), fun _ member => (by cases member),
    fun _ member => (by cases member)⟩

/-- What is derived from derivable answers is derived from those that are upheld. -/
theorem Keeps.derived {index : Index} {good : Query → Option Symbol → Prop} {α : Type}
    {post other : α → Prop} {run : Search α} (keeps : Keeps (Memo.Upheld index good) post run)
    (derives : Derives index other run) :
    Keeps (Memo.Upheld index good) (fun value => post value ∧ other value) run :=
  ⟨fun upheld value same =>
    ⟨keeps.answers upheld value same, derives.answers upheld.derived value same⟩, keeps.stores⟩

section Upholding

variable {index : Index} {good : Query → Option Symbol → Prop} (upholds : Upholds index good)

include upholds

/-- What a query is answered with has the property, unless the query is under way. -/
theorem resolveWith_upholds {depth : Nat} {active : List Query} {query : Query}
    (keeps : Keeps (Memo.Upheld index good) index.Has
      (answer index (referAt index depth (query :: active)) query)) :
    Keeps (Memo.Upheld index good)
      (fun found => index.Has found ∧
        (active.contains query = true ∧ found = none ∨ good query found))
      (resolveWith index (referAt index depth) active query) := by
  have both {memo : Memo} (upheld : memo.Upheld index good) :
      (∀ found, (outcome (resolveWith index (referAt index depth) active query) memo).1 =
          .ok found → index.Has found ∧
            (active.contains query = true ∧ found = none ∨ good query found)) ∧
        (outcome (resolveWith index (referAt index depth) active query) memo).2.Upheld index
          good := by
    have means := (answer_derives (referAt_derives depth (query :: active)) query).answers
      upheld.derived
    have holds := upholds.answers depth (query :: active) query upheld.derived
    have has := keeps.answers upheld
    have stores := keeps.stores upheld
    rw [resolveWith_outcome]
    split
    · next known looked =>
      refine ⟨fun found same => ?_, upheld⟩
      obtain ⟨held, equal, member⟩ := Entries.exists_mem_of_lookup looked
      cases same
      exact ⟨upheld.within _ member, .inr (upholds.congr equal (upheld.good _ member))⟩
    · split
      · next underway =>
        refine ⟨fun found same => ?_, upheld⟩
        cases same
        exact ⟨index.has_none, .inl ⟨underway, rfl⟩⟩
      · rcases ran : outcome (answer index (referAt index depth (query :: active)) query) memo
          with ⟨failure | found, later⟩ <;> rw [ran] at means holds has stores
        · exact ⟨fun _ same => (by cases same), stores⟩
        · refine ⟨fun _ same => ?_, ?_, ?_, ?_⟩
          · cases same
            exact ⟨has found rfl, .inr (holds found rfl)⟩
          · exact List.forall_mem_cons.mpr ⟨has found rfl, stores.within⟩
          · exact List.forall_mem_cons.mpr ⟨means found rfl, stores.derived⟩
          · exact List.forall_mem_cons.mpr ⟨holds found rfl, stores.good⟩
  exact ⟨fun upheld => (both upheld).1, fun upheld => (both upheld).2⟩

variable (within : index.IdsWithin)

include within

/-- Resolving a reference stores only answers that have the property. -/
theorem referAt_upholds (depth : Nat) (active : List Query) (reference : Reference)
    (symbol : Symbol) :
    Keeps (Memo.Upheld index good) index.Has (referAt index depth active reference symbol) :=
  Simulation.refers_related (fun _ => Keeps.simulation (Memo.Upheld index good)) within
    (fun _ _ _ keeps => (resolveWith_upholds upholds keeps).mono fun _ => And.left)
    depth active reference symbol

theorem referAt_agrees (depth : Nat) (active : List Query) : ∀ symbol ∈ index.symbols,
    ∀ reference ∈ symbol.references, (Keeps.simulation (Memo.Upheld index good)).related index.Has
      (referAt index depth active reference symbol)
      (referAt index depth active reference symbol) :=
  fun symbol _ reference _ => referAt_upholds upholds within depth active reference symbol

theorem answer_upholds (depth : Nat) (active : List Query) (query : Query) :
    Keeps (Memo.Upheld index good) index.Has (answer index (referAt index depth active) query) :=
  (Keeps.simulation _).answer_related within (referAt_agrees upholds within depth active) query

/-- What a path is found to mean while nothing is under way has the property. -/
theorem resolveWith_good (depth : Nat) (query : Query) :
    Keeps (Memo.Upheld index good) (fun found => index.Has found ∧ good query found)
      (resolveWith index (referAt index depth) [] query) :=
  (resolveWith_upholds upholds (answer_upholds upholds within depth [query] query)).mono
    fun _ holds => ⟨holds.1, holds.2.resolve_left fun underway => Bool.false_ne_true underway.1⟩

theorem findInherited_upholds (depth : Nat) (active : List Query) (space : Key) (name : String) :
    Keeps (Memo.Upheld index good) index.Has
      (findInherited index (referAt index depth active) space name) :=
  (Keeps.simulation _).findInherited_related (referAt_agrees upholds within depth active) space name

end Upholding

end Sysml.Scope
