import Sysml.Proofs.Outcome
import Sysml.Proofs.Related
import Sysml.Scope.Resolution

/-!
# Name resolution does not depend on ids and serial numbers

What a name means does not depend on the ids that references, imports and symbols have, where
nothing is bound to these, and serial numbers only tell symbols apart. So where symbols change in
their ids alone, and in their serial numbers one for one, each query finds the same symbol as it
is after the change (`resolveReference_recast`).
-/

set_option autoImplicit false

namespace Sysml

def Reference.bare (reference : Reference) : Reference :=
  { reference with elementId := none }

def Import.bare (i : Import) : Import :=
  { i with elementId := none }

/-- A symbol without ids and serial number. -/
def Symbol.bare (symbol : Symbol) : Symbol :=
  { symbol with
    references := symbol.references.map Reference.bare
    imports := symbol.imports.map Import.bare
    elementId := none
    serial := 0 }

/-- A change of symbols in their ids, and in their serial numbers one for one. -/
structure Recasts (change : Symbol → Symbol) : Prop where
  bare : ∀ symbol, (change symbol).bare = symbol.bare
  serial : ∀ one other, (change one).serial = (change other).serial ↔ one.serial = other.serial

namespace Recasts

variable {change : Symbol → Symbol} (recasts : Recasts change) (symbol : Symbol)

include recasts

theorem name : (change symbol).name = symbol.name :=
  (congrArg Symbol.name (recasts.bare symbol) :)

theorem qualifiedName : (change symbol).qualifiedName = symbol.qualifiedName :=
  (congrArg Symbol.qualifiedName (recasts.bare symbol) :)

theorem kind : (change symbol).kind = symbol.kind :=
  (congrArg Symbol.kind (recasts.bare symbol) :)

theorem file : (change symbol).file = symbol.file :=
  (congrArg Symbol.file (recasts.bare symbol) :)

theorem span : (change symbol).span = symbol.span :=
  (congrArg Symbol.span (recasts.bare symbol) :)

theorem owner : (change symbol).owner = symbol.owner :=
  (congrArg Symbol.owner (recasts.bare symbol) :)

theorem isLibrary : (change symbol).isLibrary = symbol.isLibrary :=
  (congrArg Symbol.isLibrary (recasts.bare symbol) :)

theorem answersTo (name : String) : Scope.answersTo name (change symbol) =
    Scope.answersTo name symbol :=
  (congrArg (Scope.answersTo name) (recasts.bare symbol) :)

theorem references : List.Forall₂ (fun one other => other.bare = one.bare) symbol.references
    (change symbol).references :=
  related_of_map (congrArg Symbol.references (recasts.bare symbol)).symm
    fun _ _ _ same => same.symm

theorem imports : List.Forall₂ (fun one other => other.bare = one.bare) symbol.imports
    (change symbol).imports :=
  related_of_map (congrArg Symbol.imports (recasts.bare symbol)).symm fun _ _ _ same => same.symm

end Recasts

namespace Scope

/-- Both indexes bind an id to the same symbol, as it is before and after a change. -/
def BindsAlike (change : Symbol → Symbol) (index other : Index) (id : Option Key) : Prop :=
  boundTo other id = (boundTo index id).map (Option.map change)

structure BoundAlike (change : Symbol → Symbol) (index other : Index) (symbol : Symbol) : Prop where
  references : ∀ reference ∈ symbol.references, BindsAlike change index other reference.targetId
  imports : ∀ i ∈ symbol.imports, BindsAlike change index other i.targetId

/-- An index over changed symbols, which binds what is bound to the same symbols. -/
structure Recast (change : Symbol → Symbol) (index other : Index) : Prop where
  recasts : Recasts change
  symbols : other.symbols = index.symbols.map change
  rootImports : other.rootImports = index.rootImports
  bound : ∀ symbol ∈ index.symbols, BoundAlike change index other symbol
  roots : ∀ entry ∈ index.rootImports, ∀ i ∈ entry.2, BindsAlike change index other i.targetId

def Memo.recast (change : Symbol → Symbol) (memo : Memo) : Memo :=
  memo.map fun entry => (entry.1, entry.2.map change)

theorem Memo.lookup_recast (change : Symbol → Symbol) (memo : Memo) (query : Query) :
    (memo.recast change).lookup query = (memo.lookup query).map (Option.map change) := by
  induction memo with
  | nil => rfl
  | cons entry rest ih =>
    change ((entry.1, entry.2.map change) :: Memo.recast change rest).lookup query = _
    rw [List.lookup_cons, List.lookup_cons, ih]
    split <;> rfl

/-- An import that differs in its id alone, from one that is bound alike. -/
def ImportsAlike (change : Symbol → Symbol) (index other : Index) (i again : Import) : Prop :=
  again.bare = i.bare ∧ BindsAlike change index other i.targetId

/-- A reference that differs in its id alone, from one that is bound alike. -/
def RefersAlike (change : Symbol → Symbol) (index other : Index) (reference again : Reference) :
    Prop :=
  again.bare = reference.bare ∧ BindsAlike change index other reference.targetId

namespace BoundAlike

variable {change : Symbol → Symbol} {index other : Index} {symbol : Symbol}
  (bound : BoundAlike change index other symbol) (recasts : Recasts change)

include bound recasts

theorem refersAlike : List.Forall₂ (RefersAlike change index other) symbol.references
    (change symbol).references :=
  related_imp (recasts.references symbol) fun reference listed _ bare =>
    ⟨bare, bound.references reference listed⟩

theorem importsAlike : List.Forall₂ (ImportsAlike change index other) symbol.imports
    (change symbol).imports :=
  related_imp (recasts.imports symbol) fun i listed _ bare => ⟨bare, bound.imports i listed⟩

end BoundAlike

namespace Recast

variable {change : Symbol → Symbol} {index other : Index} (recast : Recast change index other)

include recast

theorem lookup (name : Key) : other.lookup name = (index.lookup name).map change := by
  rw [Index.lookup, recast.symbols, List.find?_map]
  have same : (fun symbol => symbol.qualifiedName == name) ∘ change =
      fun symbol => symbol.qualifiedName == name := by
    funext symbol
    rw [Function.comp_apply, recast.recasts.qualifiedName]
  rw [same]
  rfl

theorem named (name : Key) : other.named name = (index.named name).map change := by
  rw [Index.named, recast.symbols, List.filter_map]
  have same : (fun symbol => symbol.qualifiedName == name) ∘ change =
      fun symbol => symbol.qualifiedName == name := by
    funext symbol
    rw [Function.comp_apply, recast.recasts.qualifiedName]
  rw [same]
  rfl

theorem members (space : Option Key) : other.members space = (index.members space).map change := by
  rw [Index.members, recast.symbols, List.filter_map]
  have same : (fun symbol => symbol.owner == space) ∘ change =
      fun symbol => symbol.owner == space := by
    funext symbol
    rw [Function.comp_apply, recast.recasts.owner]
  rw [same]
  rfl

theorem importsOf (space : Option Key) (file : String) :
    List.Forall₂ (ImportsAlike change index other) (index.importsOf space file)
      (other.importsOf space file) := by
  cases space with
  | none =>
    change List.Forall₂ _ ((index.rootImports.lookup file).getD [])
      ((other.rootImports.lookup file).getD [])
    rw [recast.rootImports]
    cases found : index.rootImports.lookup file with
    | none => exact .nil
    | some imports =>
      obtain ⟨path, _, member⟩ := Entries.exists_mem_of_lookup found
      exact List.forall₂_same.mpr fun i listed => ⟨rfl, recast.roots _ member i listed⟩
  | some name =>
    change List.Forall₂ _ ((index.named name).flatMap (·.imports))
      ((other.named name).flatMap (·.imports))
    rw [recast.named, List.flatMap_map]
    refine related_flatMap fun symbol named => ?_
    have known : symbol ∈ index.symbols := (List.mem_filter.mp named).1
    exact (recast.bound symbol known).importsAlike recast.recasts

/-- An entry of a namespace's references, before and after the change. -/
theorem outgoing (space : Key) :
    List.Forall₂ (fun entry again => again.1 = change entry.1 ∧
      RefersAlike change index other entry.2 again.2) (index.outgoing space)
      (other.outgoing space) := by
  rw [Index.outgoing, Index.outgoing, recast.named, List.flatMap_map]
  refine related_flatMap fun symbol named => ?_
  have known : symbol ∈ index.symbols := (List.mem_filter.mp named).1
  rw [List.forall₂_map_left_iff, List.forall₂_map_right_iff]
  exact ((recast.bound symbol known).refersAlike recast.recasts).imp fun _ _ alike => ⟨rfl, alike⟩

theorem size : other.symbols.length = index.symbols.length := by
  rw [recast.symbols, List.length_map]

theorem memberFuel : other.memberFuel = index.memberFuel := by
  rw [Index.memberFuel, recast.size]
  rfl

theorem outwardFuel (scope : Option Key) : other.outwardFuel scope = index.outwardFuel scope := by
  have owners : (other.symbols.map fun symbol =>
      ((symbol.owner.bind Key.text?).getD "").length) =
      index.symbols.map fun symbol => ((symbol.owner.bind Key.text?).getD "").length := by
    rw [recast.symbols, List.map_map]
    refine List.map_congr_left fun symbol _ => ?_
    rw [Function.comp_apply, recast.recasts.owner]
  simp only [Index.outwardFuel, recast.size, owners]

theorem depthBound : other.depthBound = index.depthBound := by
  have lengths (symbol : Symbol) :
      (change symbol).references.length = symbol.references.length :=
    (recast.recasts.references symbol).length_eq.symm
  have counted : other.symbols.foldl (fun count symbol => count + symbol.references.length) 0 =
      index.symbols.foldl (fun count symbol => count + symbol.references.length) 0 := by
    rw [recast.symbols, List.foldl_map]
    simp only [lengths]
  simp only [Index.depthBound, counted]

theorem descendantFrom (name : String) (fuel : Nat) (queue : List Symbol) (expanded : List Key) :
    descendantFrom other name fuel (queue.map change) expanded =
      (descendantFrom index name fuel queue expanded).map change := by
  induction fuel generalizing queue expanded with
  | zero => rfl
  | succ fuel ih =>
    cases queue with
    | nil => rfl
    | cons symbol queue =>
      have expands : queue.map change ++ other.members (some symbol.qualifiedName) =
          (queue ++ index.members (some symbol.qualifiedName)).map change := by
        rw [recast.members, List.map_append]
      rw [List.map_cons, Scope.descendantFrom, Scope.descendantFrom, recast.recasts.name,
        recast.recasts.qualifiedName, expands, ih, ih]
      split
      · rfl
      · split <;> rfl

theorem descendant (space : Key) (name : String) :
    descendant other space name = (descendant index space name).map change := by
  rw [Scope.descendant, recast.size, recast.members]
  exact recast.descendantFrom ..

theorem lookupOutward (path scope : Key) :
    lookupOutward other path scope = (lookupOutward index path scope).map (Option.map change) := by
  unfold Scope.lookupOutward
  simp only [recast.lookup]
  split
  · next outer _ =>
    refine congrArg Except.ok ?_
    induction QualifiedName.enclosing outer with
    | nil => rfl
    | cons first rest ih =>
      rw [List.findSome?_cons, List.findSome?_cons, ih]
      cases index.lookup (.text (QualifiedName.join first path.display)) <;> rfl
  · cases index.lookup (.text (QualifiedName.join scope.display path.display)) <;> rfl

theorem resolveImport {i again : Import} (alike : ImportsAlike change index other i again)
    (scope : Option Key) :
    resolveImport other again scope = (resolveImport index i scope).map (Option.map change) := by
  obtain ⟨bare, bound⟩ := alike
  have path : again.path = i.path := (congrArg Import.path bare :)
  have targetId : again.targetId = i.targetId := (congrArg Import.targetId bare :)
  unfold Scope.resolveImport
  rw [targetId, path, bound]
  cases boundTo index i.targetId with
  | error failure => rfl
  | ok bound =>
    cases bound with
    | some found => rfl
    | none =>
      cases isPath : i.path.proper with
      | error failure => rfl
      | ok path =>
        simp only [Except.map, Option.map_none, ok_bind, recast.lookup]
        cases index.lookup path with
        | some found => rfl
        | none =>
          cases scope with
          | none => rfl
          | some scope => exact recast.lookupOutward i.path scope

theorem boundTarget {reference again : Reference}
    (alike : RefersAlike change index other reference again) :
    boundTarget other again = (boundTarget index reference).map (Option.map change) := by
  obtain ⟨bare, bound⟩ := alike
  have targetId : again.targetId = reference.targetId := (congrArg Reference.targetId bare :)
  have targetName : again.targetName = reference.targetName := (congrArg Reference.targetName bare :)
  unfold Scope.boundTarget
  rw [targetId, targetName, bound]
  cases boundTo index reference.targetId with
  | error failure => rfl
  | ok bound =>
    cases bound with
    | some found => rfl
    | none =>
      cases Key.given? reference.targetName with
      | none => rfl
      | some name =>
        cases isName : name.proper with
        | error failure =>
          simp only [Except.map, Option.map_none, ok_bind, isName]
          rfl
        | ok name =>
          simp only [Except.map, Option.map_none, ok_bind, isName, recast.lookup]
          rfl

theorem outerScope (space : Key) : outerScope other space = outerScope index space := by
  unfold Scope.outerScope
  rw [recast.lookup]
  cases index.lookup space with
  | none => rfl
  | some symbol => exact congrArg Except.ok (recast.recasts.owner symbol)

end Recast

abbrev Found (change : Symbol → Symbol) (left right : Search (Option Symbol)) : Prop :=
  Images (Memo.recast change) (Option.map change) left right

abbrev FoundAfter (change : Symbol → Symbol) (left right : Search (Option Symbol × List Key)) :
    Prop :=
  Images (Memo.recast change) (Prod.map (Option.map change) id) left right

section Rules

variable {change : Symbol → Symbol} {index other : Index} (recast : Recast change index other)
  {refer refersTo : Reference → Symbol → Search (Option Symbol)}
  (agree : ∀ reference again symbol, RefersAlike change index other reference again →
    Found change (refer reference symbol) (refersTo again (change symbol)))

include recast agree

theorem inherited_recast {down downAgain : Key → List Key → Search (Option Symbol × List Key)}
    (below : ∀ general visited,
      FoundAfter change (down general visited) (downAgain general visited))
    (space : Key) {entries again : List (Symbol × Reference)}
    (alike : List.Forall₂ (fun entry again => again.1 = change entry.1 ∧
      RefersAlike change index other entry.2 again.2) entries again) (visited : List Key) :
    FoundAfter change (inherited refer down space entries visited)
      (inherited refersTo downAgain space again visited) := by
  induction alike generalizing visited with
  | nil => exact .pure _
  | @cons entry later rest others first _ ih =>
    obtain ⟨symbol, reference⟩ := entry
    obtain ⟨changed, renamed⟩ := later
    obtain ⟨rfl, bare⟩ := first
    refine (agree reference renamed symbol bare).bind fun found => ?_
    cases found with
    | none => exact ih visited
    | some general =>
      dsimp only [Option.map_some]
      rw [recast.recasts.qualifiedName]
      split
      · exact ih visited
      · refine (below general.qualifiedName visited).bind fun ⟨found, visited⟩ => ?_
        cases found with
        | none => exact ih visited
        | some member => exact .pure (some member, visited)

theorem member_recast (name : String) (fuel : Nat) (space : Option Key) (visited : List Key) :
    FoundAfter change (member index refer name fuel space visited)
      (member other refersTo name fuel space visited) := by
  induction fuel generalizing space visited with
  | zero => exact .throw _
  | succ fuel ih =>
    have looked : (other.members space).find? (answersTo name) =
        ((index.members space).find? (answersTo name)).map change := by
      rw [recast.members, List.find?_map]
      have same : answersTo name ∘ change = answersTo name :=
        funext fun symbol => recast.recasts.answersTo symbol name
      rw [same]
    simp only [member, looked]
    cases (index.members space).find? (answersTo name) with
    | some found => exact .pure (some found, visited)
    | none =>
      cases space with
      | none => exact .pure (none, visited)
      | some space =>
        dsimp only [Option.map_none]
        split
        · exact .pure (none, visited)
        · exact inherited_recast recast agree (fun general visited => ih (some general) visited)
            space (recast.outgoing space) (space :: visited)

theorem findMember_recast (space : Option Key) (name : String) :
    Found change (findMember index refer space name) (findMember other refersTo space name) := by
  unfold findMember
  rw [recast.memberFuel]
  exact (member_recast recast agree name _ space []).bind fun found => .pure found.1

theorem findInherited_recast (space : Key) (name : String) :
    Found change (findInherited index refer space name)
      (findInherited other refersTo space name) := by
  unfold findInherited
  rw [recast.memberFuel]
  exact (inherited_recast recast agree
    (fun general visited => member_recast recast agree name _ (some general) visited)
    space (recast.outgoing space) [space]).bind fun found => .pure found.1

theorem throughEach_recast {down downAgain : Key → List Key → Search (Option Symbol × List Key)}
    (below : ∀ general visited,
      FoundAfter change (down general visited) (downAgain general visited))
    (name : String) (space : Option Key) (publicOnly : Bool) {imports again : List Import}
    (alike : List.Forall₂ (ImportsAlike change index other) imports again) (visited : List Key) :
    FoundAfter change (throughEach index refer down name space publicOnly imports visited)
      (throughEach other refersTo downAgain name space publicOnly again visited) := by
  induction alike generalizing visited with
  | nil => exact .pure (none, visited)
  | @cons i later rest others first _ ih =>
    have visibility : later.visibility = i.visibility := (congrArg Import.visibility first.1 :)
    have isNamespace : later.isNamespace = i.isNamespace := (congrArg Import.isNamespace first.1 :)
    have isRecursive : later.isRecursive = i.isRecursive := (congrArg Import.isRecursive first.1 :)
    simp only [throughEach, visibility, isNamespace, isRecursive]
    split
    · exact ih visited
    · refine (Images.lift (recast.resolveImport first space)).bind fun named => ?_
      cases named with
      | none => exact ih visited
      | some target =>
        dsimp only [Option.map_some]
        rw [recast.recasts.name, recast.recasts.qualifiedName]
        split
        · split
          · exact .pure (some target, visited)
          · exact ih visited
        · refine (findMember_recast recast agree (some target.qualifiedName) name).bind
            fun found => ?_
          cases found with
          | some found => exact .pure (some found, visited)
          | none =>
            have sought : (if i.isRecursive = true then
                descendant other target.qualifiedName name else none) =
                (if i.isRecursive = true then descendant index target.qualifiedName name
                  else none).map change := by
              split
              · exact recast.descendant target.qualifiedName name
              · rfl
            simp only [Option.map_none, sought]
            cases (if i.isRecursive = true then descendant index target.qualifiedName name
                else none) with
            | some found => exact .pure (some found, visited)
            | none =>
              refine (below target.qualifiedName visited).bind fun ⟨found, visited⟩ => ?_
              cases found with
              | some found => exact .pure (some found, visited)
              | none => exact ih visited

theorem throughImports_recast (name file : String) (fuel : Nat) (space : Option Key)
    (publicOnly : Bool) (visited : List Key) :
    FoundAfter change (throughImports index refer name file fuel space publicOnly visited)
      (throughImports other refersTo name file fuel space publicOnly visited) := by
  induction fuel generalizing space publicOnly visited with
  | zero => exact .throw _
  | succ fuel ih =>
    simp only [throughImports]
    split
    · exact .pure (none, visited)
    · exact throughEach_recast recast agree
        (fun target visited => ih (some target) true visited) name space publicOnly
        (recast.importsOf space file) _

theorem inNamespace_recast (name file : String) (space : Option Key) :
    Found change (inNamespace index refer name file space)
      (inNamespace other refersTo name file space) := by
  refine (findMember_recast recast agree space name).bind fun found => ?_
  cases found with
  | some found => exact .pure (some found)
  | none =>
    dsimp only [Option.map_none]
    rw [recast.memberFuel]
    exact (throughImports_recast recast agree name file _ space false []).bind
      fun found => .pure found.1

theorem outward_recast (name file : String) (fuel : Nat) (space : Option Key) :
    Found change (outward index refer name file fuel space)
      (outward other refersTo name file fuel space) := by
  induction fuel generalizing space with
  | zero => exact .throw _
  | succ fuel ih =>
    refine (inNamespace_recast recast agree name file space).bind fun found => ?_
    cases found with
    | some found => exact .pure (some found)
    | none =>
      cases space with
      | none => exact .pure none
      | some space =>
        dsimp only [Option.map_none]
        rw [recast.outerScope]
        cases outerScope index space with
        | error failure => exact .throw failure
        | ok outer => exact ih outer

theorem descend_recast (start : Option Symbol) (segments : List String) :
    Found change (descend index refer start segments)
      (descend other refersTo (start.map change) segments) := by
  induction segments generalizing start with
  | nil => cases start with
    | none => exact .pure none
    | some symbol => exact .pure (some symbol)
  | cons segment rest ih =>
    cases start with
    | none => exact .pure none
    | some symbol =>
      simp only [Option.map_some, descend, recast.recasts.qualifiedName]
      exact (findMember_recast recast agree (some symbol.qualifiedName) segment).bind
        fun found => ih found

theorem answer_recast (query : Query) :
    Found change (answer index refer query) (answer other refersTo query) := by
  unfold answer
  rw [recast.outwardFuel]
  cases QualifiedName.segments query.path with
  | nil => exact .pure none
  | cons first rest =>
    refine (outward_recast recast agree first query.file _ query.scope).bind fun start => ?_
    refine (descend_recast recast agree start rest).bind fun found => ?_
    cases found with
    | some found => exact .pure (some found)
    | none =>
      dsimp only [Option.map_none]
      rw [recast.lookup]
      exact .pure (index.lookup (.text query.path))

end Rules

section References

variable {change : Symbol → Symbol} {index other : Index} (recast : Recast change index other)

include recast

theorem resolveWith_recast {refer refersTo : Refer}
    (agree : ∀ active reference again symbol, RefersAlike change index other reference again →
      Found change (refer active reference symbol) (refersTo active again (change symbol)))
    (active : List Query) (query : Query) :
    Found change (resolveWith index refer active query)
      (resolveWith other refersTo active query) := by
  refine Images.reads.bind fun memo => ?_
  rw [Memo.lookup_recast]
  cases memo.lookup query with
  | some known => exact .pure known
  | none =>
    dsimp only [Option.map_none]
    split
    · exact .pure none
    · refine (answer_recast recast (agree (query :: active)) query).bind fun found => ?_
      refine Images.bind (Images.changes fun memo => rfl) fun _ => ?_
      exact .pure found

theorem resolveRedefinition_recast {refer refersTo : Refer}
    (agree : ∀ active reference again symbol, RefersAlike change index other reference again →
      Found change (refer active reference symbol) (refersTo active again (change symbol)))
    (active : List Query) (path : String) (symbol : Symbol) (owner : Key) :
    Found change (resolveRedefinition index refer active path symbol owner)
      (resolveRedefinition other refersTo active path (change symbol) owner) := by
  unfold resolveRedefinition
  rw [recast.recasts.file]
  cases (QualifiedName.segments path).getLast? with
  | none => exact .throw _
  | some last =>
    refine (findInherited_recast recast (agree active) owner last).bind fun found => ?_
    cases found with
    | some found => exact .pure (some found)
    | none =>
      dsimp only [Option.map_none]
      cases parentScope owner with
      | error failure => exact .throw failure
      | ok scope =>
        refine (resolveWith_recast recast agree active ⟨path, scope, symbol.file⟩).bind
          fun found => ?_
        have same : (found.map change).filter
            (fun found => found.serial != (change symbol).serial) =
            (found.filter fun found => found.serial != symbol.serial).map change := by
          cases found with
          | none => rfl
          | some found =>
            have alike : ((change found).serial != (change symbol).serial) =
                (found.serial != symbol.serial) := by
              rw [Bool.eq_iff_iff, bne_iff_ne, bne_iff_ne]
              exact not_congr (recast.recasts.serial found symbol)
            rw [Option.map_some, Option.filter_some, Option.filter_some, alike]
            split <;> rfl
        rw [same]
        exact .pure _

theorem referAt_recast (depth : Nat) (active : List Query) (reference again : Reference)
    (symbol : Symbol) (alike : RefersAlike change index other reference again) :
    Found change (referAt index depth active reference symbol)
      (referAt other depth active again (change symbol)) := by
  induction depth generalizing active reference again symbol with
  | zero => exact .throw _
  | succ depth ih =>
    have target : again.target = reference.target := (congrArg Reference.target alike.1 :)
    have kind : again.kind = reference.kind := (congrArg Reference.kind alike.1 :)
    have path : pathOf again = pathOf reference := by rw [pathOf, pathOf, target]
    refine (Images.lift (recast.boundTarget alike)).bind fun bound => ?_
    cases bound with
    | some found => exact .pure (some found)
    | none =>
      dsimp only [Option.map_none]
      rw [path, kind, recast.recasts.owner, recast.recasts.file]
      cases pathOf reference with
      | error failure => exact .throw failure
      | ok path =>
        split
        · exact resolveRedefinition_recast recast ih active path symbol _
        · exact resolveWith_recast recast ih active ⟨path, symbol.owner, symbol.file⟩

/-- What a reference means does not depend on ids and serial numbers. -/
theorem resolveReference_recast {reference again : Reference}
    (alike : RefersAlike change index other reference again) (symbol : Symbol) :
    Found change (resolveReference index reference symbol)
      (resolveReference other again (change symbol)) := by
  unfold resolveReference
  rw [recast.depthBound]
  exact referAt_recast recast _ [] reference again symbol alike

end References

end Scope

end Sysml
