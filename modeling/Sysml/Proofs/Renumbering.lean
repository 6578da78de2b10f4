import Mathlib.Data.List.Basic
import Sysml.Document.Export
import Sysml.Proofs.Workspace.Recasting

/-!
# Nothing depends on serial numbers

Serial numbers only tell symbols apart, and which of them a document took up already. Where they
are replaced one for one, each query finds the same symbol under its new number
(`resolveReference_renumbered`), the same is found wrong with a workspace (`rebuild_renumbered`),
and the same document is made (`compose_renumbered`).
-/

set_option autoImplicit false

namespace Sysml

def Symbol.renumber (number : Nat → Nat) (symbol : Symbol) : Symbol :=
  { symbol with serial := number symbol.serial }

theorem Symbol.recasts_renumber {number : Nat → Nat} (apart : Function.Injective number) :
    Recasts (Symbol.renumber number) :=
  ⟨fun _ => rfl, fun _ _ => apart.eq_iff⟩

namespace Scope

def Memo.renumber (number : Nat → Nat) (memo : Memo) : Memo :=
  memo.map fun entry => (entry.1, entry.2.map (Symbol.renumber number))

def Index.renumber (number : Nat → Nat) (index : Index) : Index :=
  index.adjust (Symbol.renumber number)

variable {number : Nat → Nat} {index : Index}

theorem Index.lookup_renumbered (name : Key) :
    (index.renumber number).lookup name = (index.lookup name).map (Symbol.renumber number) :=
  List.find?_map ..

theorem Index.lookupId_renumbered (id : Key) :
    (index.renumber number).lookupId id = (index.lookupId id).map (Symbol.renumber number) := by
  change (index.byId.map fun entry => (entry.1, entry.2.renumber number)).lookup id =
    (index.byId.lookup id).map _
  induction index.byId with
  | nil => rfl
  | cons entry rest ih =>
    rw [List.map_cons, List.lookup_cons, List.lookup_cons, ih]
    split <;> rfl

theorem Index.build_renumbered (symbols : List Symbol) (rootImports : List (String × List Import)) :
    Index.build (symbols.map (Symbol.renumber number)) rootImports =
      (Index.build symbols rootImports).renumber number := by
  have ids : (symbols.map (Symbol.renumber number)).filterMap (fun symbol =>
      (Key.given? symbol.elementId).map fun id => (id, symbol)) =
      (symbols.filterMap fun symbol => (Key.given? symbol.elementId).map fun id => (id, symbol)).map
        fun entry => (entry.1, entry.2.renumber number) := by
    rw [List.filterMap_map, List.map_filterMap]
    simp only [Option.map_map]
    rfl
  rw [build, ids]
  rfl

/-- Whatever is bound is bound to the symbol under its new number. -/
theorem bindsAlike_renumbered (id : Option Key) :
    BindsAlike (Symbol.renumber number) index (index.renumber number) id := by
  unfold BindsAlike boundTo
  cases Key.given? id with
  | none => rfl
  | some id =>
    dsimp only
    cases id.proper with
    | error failure => rfl
    | ok key => exact congrArg Except.ok (Index.lookupId_renumbered key)

/-- Replacing serial numbers one for one is a change that queries do not depend on. -/
theorem Index.recast_renumbered (apart : Function.Injective number) (index : Index) :
    Recast (Symbol.renumber number) index (index.renumber number) where
  recasts := Symbol.recasts_renumber apart
  symbols := rfl
  rootImports := rfl
  bound _ _ := ⟨fun _ _ => bindsAlike_renumbered _, fun _ _ => bindsAlike_renumbered _⟩
  roots _ _ _ _ := bindsAlike_renumbered _

section Apart

variable (apart : Function.Injective number)

include apart

theorem resolveImport_renumbered (i : Import) (scope : Option Key) :
    resolveImport (index.renumber number) i scope =
      (resolveImport index i scope).map (Option.map (Symbol.renumber number)) :=
  (index.recast_renumbered apart).resolveImport ⟨rfl, bindsAlike_renumbered _⟩ scope

/-- What a reference means does not depend on serial numbers. -/
theorem resolveReference_renumbered (reference : Reference) (symbol : Symbol) :
    Images (Memo.renumber number) (Option.map (Symbol.renumber number))
      (resolveReference index reference symbol)
      (resolveReference (index.renumber number) reference (symbol.renumber number)) :=
  resolveReference_recast (index.recast_renumbered apart) ⟨rfl, bindsAlike_renumbered _⟩ symbol

end Apart

end Scope

open Scope

/-! ## Workspaces -/

def SourceFile.renumber (number : Nat → Nat) (file : SourceFile) : SourceFile :=
  { file with symbols := file.symbols.map (Symbol.renumber number) }

namespace Workspace

variable {number : Nat → Nat} {w other : Workspace}

theorem symbols_renumbered (files : other.files = w.files.map (SourceFile.renumber number)) :
    other.symbols = w.symbols.map (Symbol.renumber number) :=
  symbols_recast files

theorem rootImports_renumbered (files : other.files = w.files.map (SourceFile.renumber number)) :
    other.rootImports = w.rootImports :=
  rootImports_recast files

theorem index_renumbered (files : other.files = w.files.map (SourceFile.renumber number)) :
    Index.build other.symbols other.rootImports =
      (Index.build w.symbols w.rootImports).renumber number := by
  rw [symbols_renumbered files, rootImports_renumbered files, Index.build_renumbered]

/-- What an index can be built over can be so under other serial numbers. -/
theorem isIndexable_renumbered (files : other.files = w.files.map (SourceFile.renumber number)) :
    other.symbols.all isIndexable = w.symbols.all isIndexable := by
  rw [symbols_renumbered files, List.all_map]
  rfl

section Apart

variable (apart : Function.Injective number)
  (files : other.files = w.files.map (SourceFile.renumber number))

include apart files

/-- Building the index over renumbered files gives the renumbered index and the same findings. -/
theorem rebuild_renumbered {index : Index} {later : Workspace}
    (built : w.rebuild = (.ok index, later)) :
    other.rebuild = (.ok (index.renumber number),
      { other with
        index := some (index.renumber number)
        memo := later.memo.renumber number, findings := later.findings }) := by
  have recast := index_renumbered files ▸
    Index.recast_renumbered apart (Index.build w.symbols w.rootImports)
  obtain ⟨rfl, -⟩ := rebuild_ok built
  have rebuilt := (rebuild_recast recast files (isIndexable_renumbered files)).1 _ later built
  rw [reindexed, index_renumbered files] at rebuilt
  exact rebuilt

/-- Where building the index fails, it fails alike over renumbered files. -/
theorem rebuild_renumbered_error {failure : Failure}
    (failed : w.rebuild.1 = .error failure) : other.rebuild.1 = .error failure := by
  have recast := index_renumbered files ▸
    Index.recast_renumbered apart (Index.build w.symbols w.rootImports)
  exact (rebuild_recast recast files (isIndexable_renumbered files)).2 failure failed

end Apart

end Workspace

/-! ## Documents -/

def Goal.renumber (number : Nat → Nat) : Goal → Goal
  | .loaded symbol => .loaded (symbol.renumber number)
  | .outside id name => .outside id name

/-- A relationship that leads to a symbol with another serial number. -/
def Link.renumber (number : Nat → Nat) (link : Link) : Link :=
  { link with goal := link.goal.renumber number }

def Draft.renumber (number : Nat → Nat) (draft : Draft) : Draft :=
  { draft with
    visited := draft.visited.map number
    pending := draft.pending.map (Symbol.renumber number)
    memo := draft.memo.renumber number }

section Documents

variable {number : Nat → Nat} {index : Index}

theorem Reference.link?_renumbered (reference : Reference) (symbol : Symbol)
    (meant : Option Symbol) :
    reference.link? (symbol.renumber number) (meant.map (Symbol.renumber number)) =
      (reference.link? symbol meant).map (Link.renumber number) := by
  cases meant with
  | some target => rfl
  | none =>
    unfold Reference.link?
    cases Key.given? reference.targetId <;> rfl

theorem Import.link?_renumbered (i : Import) (symbol : Symbol) (named : Option Symbol) :
    i.link? (symbol.renumber number) (named.map (Symbol.renumber number)) =
      (i.link? symbol named).map (Option.map (Link.renumber number)) := by
  cases named with
  | some target => rfl
  | none =>
    unfold Import.link?
    cases Key.given? i.targetId with
    | none => rfl
    | some id =>
      dsimp only [Option.map_none]
      cases lastPiece i.path <;> rfl

namespace Draft

theorem canonical_renumbered (symbol : Symbol) :
    canonical (index.renumber number) (symbol.renumber number) =
      (canonical index symbol).renumber number := by
  have looked : (index.renumber number).lookup (symbol.renumber number).qualifiedName =
      (index.lookup symbol.qualifiedName).map (Symbol.renumber number) :=
    Index.lookup_renumbered ..
  unfold canonical
  rw [looked]
  change (if symbol.kind.isPackage then _ else _) = _
  split
  · cases index.lookup symbol.qualifiedName with
    | none => rfl
    | some first =>
      change (if first.kind.isPackage then first.renumber number else symbol.renumber number) =
        (if first.kind.isPackage then first else symbol).renumber number
      split <;> rfl
  · rfl

theorem idOf_renumbered (symbol : Symbol) :
    idOf (index.renumber number) (symbol.renumber number) = idOf index symbol := by
  rw [idOf, canonical_renumbered]
  rfl

theorem ownerOf_renumbered (symbol : Symbol) :
    ownerOf (index.renumber number) (symbol.renumber number) =
      (ownerOf index symbol).map (Symbol.renumber number) := by
  change (Key.given? symbol.owner).bind (index.renumber number).lookup =
    ((Key.given? symbol.owner).bind index.lookup).map _
  cases Key.given? symbol.owner with
  | none => rfl
  | some owner => exact Index.lookup_renumbered owner

theorem elementRecord_renumbered (provenance : String) (symbol : Symbol) :
    elementRecord (index.renumber number) provenance (symbol.renumber number) =
      elementRecord index provenance symbol := by
  have owner : (ownerOf (index.renumber number) (symbol.renumber number)).map
      (idOf (index.renumber number)) = (ownerOf index symbol).map (idOf index) := by
    rw [ownerOf_renumbered, Option.map_map]
    exact congrArg (fun f => (ownerOf index symbol).map f) (funext idOf_renumbered)
  rw [elementRecord, idOf_renumbered, owner]
  rfl

theorem mention_renumbered (selfContained : Bool) (target : Symbol) (draft : Draft) :
    (draft.renumber number).mention (index.renumber number) selfContained
        (target.renumber number) =
      (draft.mention index selfContained target).renumber number := by
  unfold mention
  rw [idOf_renumbered]
  change (if target.isLibrary && !draft.holds (idOf index target) then _ else _) = _
  split
  · split
    · simp only [renumber, List.map_append, List.map_cons, List.map_nil]
    · rfl
  · rfl

theorem reach_renumbered (selfContained : Bool) (goal : Goal) (draft : Draft) :
    (draft.renumber number).reach (index.renumber number) selfContained (goal.renumber number) =
      (draft.reach index selfContained goal).renumber number := by
  cases goal with
  | loaded target => exact mention_renumbered selfContained target draft
  | outside id name => rfl

theorem declare_renumbered (selfContained : Bool) (provenance : String) (symbol : Symbol)
    (draft : Draft) :
    (draft.renumber number).declare (index.renumber number) selfContained provenance
        (symbol.renumber number) =
      (draft.declare index selfContained provenance symbol).renumber number := by
  unfold declare
  rw [idOf_renumbered, elementRecord_renumbered, ownerOf_renumbered]
  change (if draft.holds (idOf index symbol) then _ else _) = _
  split
  · rfl
  · cases ownerOf index symbol with
    | none => rfl
    | some owner =>
      exact mention_renumbered selfContained owner
        (draft.add (elementRecord index provenance symbol))

theorem linkId_renumbered (link : Link) (draft : Draft) :
    (draft.renumber number).linkId (link.renumber number) = draft.linkId link := by
  have fresh (tries ordinal : Nat) :
      (draft.renumber number).freshId? link.kind link.key tries ordinal =
        draft.freshId? link.kind link.key tries ordinal := by
    induction tries generalizing ordinal with
    | zero => rfl
    | succ tries ih =>
      rw [freshId?, freshId?, ih]
      rfl
  have same : (draft.renumber number).freshId? (link.renumber number).kind
      (link.renumber number).key ((draft.renumber number).records.length + 1) 1 =
        draft.freshId? link.kind link.key (draft.records.length + 1) 1 := fresh ..
  unfold linkId
  rw [same]
  rfl

theorem addLink_renumbered (selfContained : Bool) (provenance : String) (owner : Key) (link : Link)
    (draft : Draft) :
    addLink (index.renumber number) selfContained provenance owner (link.renumber number)
        (draft.renumber number) =
      (addLink index selfContained provenance owner link draft).map (renumber number) := by
  have goal : (link.goal.renumber number).id (index.renumber number) = link.goal.id index := by
    cases link.goal with
    | loaded symbol => exact idOf_renumbered symbol
    | outside id name => rfl
  have record (id : Key) : (link.renumber number).record (index.renumber number) provenance owner
      id = link.record index provenance owner id := by
    rw [Link.record]
    change { Link.record link index provenance owner id with
      target := some ((link.goal.renumber number).id (index.renumber number)) } = _
    rw [goal]
    rfl
  have reached : (draft.renumber number).reach (index.renumber number) selfContained
      (link.renumber number).goal = (draft.reach index selfContained link.goal).renumber number :=
    reach_renumbered selfContained link.goal draft
  unfold addLink
  rw [reached]
  dsimp only
  rw [linkId_renumbered]
  cases (draft.reach index selfContained link.goal).linkId link with
  | error failure => rfl
  | ok id =>
    rw [ok_bind, ok_bind, record]
    rfl

/-- A step in the making of a document goes as before. -/
abbrev Makes (number : Nat → Nat) {α β : Type} (image : α → β) (left : Drafting α)
    (right : Drafting β) : Prop :=
  Images (renumber number) image left right

theorem search_renumbered {α β : Type} {image : α → β} {left : Search α} {right : Search β}
    (found : Images (Memo.renumber number) image left right) :
    Makes number image (search left) (search right) := by
  have ran {γ : Type} (run : Search γ) (draft : Draft) : outcome (search run) draft =
      ((outcome run draft.memo).1, { draft with memo := (outcome run draft.memo).2 }) := by
    unfold search
    rw [outcome_bind_of_ok (outcome_get draft)]
    rcases searched : outcome run draft.memo with ⟨failure | value, memo⟩ <;>
      · unfold outcome at searched
        rw [searched]
        rfl
  intro draft
  rw [ran, ran]
  change ((outcome right (Memo.renumber number draft.memo)).1, { draft.renumber number with
    memo := (outcome right (Memo.renumber number draft.memo)).2 }) = _
  rw [found draft.memo]
  rfl

theorem addLink?_renumbered (selfContained : Bool) (provenance : String) (owner : Key)
    (link? : Option Link) :
    Makes number id (addLink? index selfContained provenance owner link?)
      (addLink? (index.renumber number) selfContained provenance owner
        (link?.map (Link.renumber number))) := by
  cases link? with
  | none => exact .pure ()
  | some link =>
    refine Images.reads.bind fun draft => ?_
    refine Images.bind (Images.lift (addLink_renumbered selfContained provenance owner link draft))
      fun later => ?_
    exact .writes later

section Apart

variable (apart : Function.Injective number) (selfContained : Bool) (provenance : String)

include apart

theorem addReference_renumbered (symbol : Symbol) (reference : Reference) :
    Makes number id (addReference index selfContained provenance symbol reference)
      (addReference (index.renumber number) selfContained provenance (symbol.renumber number)
        reference) := by
  refine (search_renumbered (resolveReference_renumbered apart reference symbol)).bind
    fun meant => ?_
  rw [Reference.link?_renumbered, idOf_renumbered]
  exact addLink?_renumbered selfContained provenance _ _

theorem addImport_renumbered (symbol : Symbol) (i : Import) :
    Makes number id (addImport index selfContained provenance symbol i)
      (addImport (index.renumber number) selfContained provenance (symbol.renumber number) i) := by
  refine Images.bind (Images.lift (resolveImport_renumbered apart i (some symbol.qualifiedName)))
    fun named => ?_
  refine Images.bind (Images.lift (Import.link?_renumbered i symbol named)) fun link? => ?_
  rw [idOf_renumbered]
  exact addLink?_renumbered selfContained provenance _ link?

theorem takeUp_renumbered (symbol : Symbol) :
    Makes number id (takeUp index selfContained provenance symbol)
      (takeUp (index.renumber number) selfContained provenance (symbol.renumber number)) := by
  refine Images.reads.bind fun draft => ?_
  have known : (draft.renumber number).visited.contains (symbol.renumber number).serial =
      draft.visited.contains symbol.serial := by
    rw [Bool.eq_iff_iff, List.contains_iff_mem, List.contains_iff_mem]
    exact List.mem_map_of_injective apart
  rw [known]
  split
  · exact .pure ()
  · refine Images.bind (Images.changes fun draft => ?_) fun _ => ?_
    · exact declare_renumbered selfContained provenance symbol
        { draft with visited := symbol.serial :: draft.visited }
    · have references : Makes number id
          (symbol.references.forM (addReference index selfContained provenance symbol))
          ((symbol.references.map id).forM (addReference (index.renumber number) selfContained
            provenance (symbol.renumber number))) :=
        Images.forM fun reference =>
          addReference_renumbered apart selfContained provenance symbol reference
      have imports : Makes number id
          (symbol.imports.forM (addImport index selfContained provenance symbol))
          ((symbol.imports.map id).forM (addImport (index.renumber number) selfContained
            provenance (symbol.renumber number))) :=
        Images.forM fun i => addImport_renumbered apart selfContained provenance symbol i
      rw [List.map_id] at references imports
      exact references.bind fun _ => imports

theorem drain_renumbered (fuel : Nat) :
    Makes number id (drain index selfContained fuel)
      (drain (index.renumber number) selfContained fuel) := by
  induction fuel with
  | zero =>
    refine Images.reads.bind fun draft => ?_
    have empty : (draft.renumber number).pending.isEmpty = draft.pending.isEmpty :=
      List.isEmpty_map ..
    rw [empty]
    split
    · exact .throw _
    · exact .pure ()
  | succ fuel ih =>
    refine Images.reads.bind fun draft => ?_
    have queued : (draft.renumber number).pending = draft.pending.map (Symbol.renumber number) := rfl
    rw [queued]
    cases draft.pending with
    | nil => exact .pure ()
    | cons symbol rest =>
      refine Images.bind (Images.changes fun draft => ?_) fun _ => ?_
      · simp only [renumber, idOf_renumbered]
      · exact (takeUp_renumbered apart selfContained Record.inlinedProvenance symbol).bind
          fun _ => ih

/-- The document that is made of symbols does not depend on their serial numbers. -/
theorem compose_renumbered (symbols : List Symbol) :
    Makes number id (compose index selfContained symbols)
      (compose (index.renumber number) selfContained (symbols.map (Symbol.renumber number))) := by
  have taken : Makes number id
      (symbols.forM (takeUp index selfContained Record.modelProvenance))
      ((symbols.map (Symbol.renumber number)).forM
        (takeUp (index.renumber number) selfContained Record.modelProvenance)) :=
    Images.forM fun symbol => takeUp_renumbered apart selfContained Record.modelProvenance symbol
  refine taken.bind fun _ => Images.reads.bind fun draft => ?_
  have fuel : drainFuel (index.renumber number) (draft.renumber number) = drainFuel index draft := by
    have pending : (draft.renumber number).pending.length = draft.pending.length :=
      List.length_map ..
    rw [drainFuel, pending]
    exact List.foldl_map ..
  rw [fuel]
  exact drain_renumbered apart selfContained _

end Apart

end Draft

end Documents

end Sysml
