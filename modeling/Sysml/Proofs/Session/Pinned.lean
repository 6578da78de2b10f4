import Mathlib.Data.List.Dedup
import Sysml.Proofs.Document.Pinned
import Sysml.Proofs.Session.Complete
import Sysml.Proofs.Session.Freshness
import Sysml.Proofs.Session.Reloading

/-!
# Ids given to texts

Entries that give ids to what texts declare change nothing but ids: the index is built or not as it
was before, the same is told of each file, and a document is the one that is built without the
entries with its ids replaced one for one (`applyEntries_renames`).
-/

set_option autoImplicit false

namespace Sysml

open Scope Workspace

theorem Symbol.Written.idless {symbol : Symbol} {file : String} {isLibrary : Bool}
    (written : symbol.Written file isLibrary) : symbol.Idless := by
  constructor
  · exact written.elementId
  · intro reference has
    rw [Reference.withId, ← (written.references reference has).elementId]
  · intro i has
    rw [Import.withId, ← (written.imports i has).elementId]

/-- Nothing is bound to an id in a text, so ids in places are a change that no query depends on. -/
theorem Scope.Index.Written.recast {index other : Index} (written : index.Written) (ids : Ids)
    (roots : ∀ entry ∈ index.rootImports, ∀ i ∈ entry.2, i.targetId = none)
    (symbols : other.symbols = index.symbols.map (Symbol.withIds ids))
    (rootImports : other.rootImports = index.rootImports) :
    Recast (Symbol.withIds ids) index other := by
  have unbound {id : Option Key} (none_ : id = none) :
      BindsAlike (Symbol.withIds ids) index other id := by
    subst none_
    rfl
  refine ⟨Symbol.recasts_withIds ids, symbols, rootImports, fun symbol known => ?_, ?_⟩
  · obtain ⟨file, isLibrary, isWritten⟩ := written symbol known
    constructor
    · exact fun reference has => unbound (isWritten.references reference has).targetId
    · exact fun i has => unbound (isWritten.imports i has).targetId
  · exact fun entry listed i has => unbound (roots entry listed i has)

namespace SourceFile.Parsed

theorem rootImports {files : List SourceFile} (parsed : ∀ file ∈ files, file.Parsed) :
    ∀ entry ∈ files.map (fun file => (file.path, file.imports)), ∀ i ∈ entry.2,
      i.targetId = none := by
  intro entry listed i has
  obtain ⟨file, member, rfl⟩ := List.mem_map.mp listed
  have written := Notation.parse_imports_written file.path file.text file.isLibrary
  rw [← (parsed file member).imports] at written
  exact (written i has).targetId

end SourceFile.Parsed

namespace Workspace

variable {w later : Workspace} {ids : Ids}

/-- Symbols of texts can be found by their names, also where they have ids. -/
theorem isIndexable_withIds {symbol : Symbol} {file : String} {isLibrary : Bool}
    (written : symbol.Written file isLibrary)
    (proper : ∀ place id, ids place = some id → id.isProper = true) :
    isIndexable (symbol.withIds ids) = true ∧ isIndexable symbol = true := by
  obtain ⟨name, isName⟩ := written.qualifiedName
  have owner : symbol.owner.all Key.isProper = true := by
    cases owned : symbol.owner with
    | none => rfl
    | some owner =>
      obtain ⟨outer, rfl⟩ := written.owner owner owned
      rfl
  have id : (Key.given? (ids (.element symbol.serial))).all Key.isProper = true := by
    cases held : Key.given? (ids (.element symbol.serial)) with
    | none => rfl
    | some id => exact proper _ id (Option.filter_eq_some_iff.mp held).1
  constructor
  · change (symbol.qualifiedName.isProper && symbol.owner.all Key.isProper &&
      (Key.given? (ids (.element symbol.serial))).all Key.isProper) = true
    rw [isName, owner, id]
    rfl
  · rw [isIndexable, isName, owner, written.elementId]
    rfl

/-- A check that is up to date is what building the index again gives. -/
theorem Checked.rebuild (checked : w.Checked)
    (indexable : w.symbols.all isIndexable = true)
    (named : (w.symbols.all fun symbol => symbol.name.isProper) = true) :
    w.rebuild = (.ok (Index.build w.symbols w.rootImports), w) := by
  have same : { w.reindexed with findings := w.findings, memo := w.memo } = w := by
    rw [reindexed, ← checked.found]
  rw [rebuild_eq, indexable, named, checked.check]
  simp only [Bool.not_true, Bool.false_eq_true, ↓reduceIte, same]

end Workspace

namespace Session

variable {session : Session} {ids : Ids}

section Read

variable (read : session.Read)

include read

/-- Ids in the places of texts are a change of the index that no query depends on. -/
theorem Read.recast_build {later : Workspace}
    (files : later.files = session.workspace.files.map (SourceFile.recast (Symbol.withIds ids))) :
    Recast (Symbol.withIds ids)
      (Index.build session.workspace.symbols session.workspace.rootImports)
      (Index.build later.symbols later.rootImports) :=
  (read.written _).recast ids (SourceFile.Parsed.rootImports read.parsed) (symbols_recast files)
    (rootImports_recast files)

theorem Read.indexable (proper : ∀ place id, ids place = some id → id.isProper = true) :
    (session.workspace.symbols.map (Symbol.withIds ids)).all isIndexable = true ∧
      session.workspace.symbols.all isIndexable = true := by
  have each := fun symbol known => (read.written []) symbol known
  constructor
  · rw [List.all_map, List.all_eq_true]
    intro symbol known
    obtain ⟨_, _, written⟩ := each symbol known
    exact (isIndexable_withIds written proper).1
  · rw [List.all_eq_true]
    intro symbol known
    obtain ⟨_, _, written⟩ := each symbol known
    exact (isIndexable_withIds written proper).2

theorem Read.idless : ∀ symbol ∈ session.workspace.symbols, symbol.Idless := by
  intro symbol known
  obtain ⟨_, _, written⟩ := read.written [] symbol known
  exact written.idless

theorem Read.named : (session.workspace.symbols.all fun symbol => symbol.name.isProper) = true := by
  rw [List.all_eq_true]
  intro symbol known
  obtain ⟨_, _, written⟩ := read.written [] symbol known
  obtain ⟨name, isName⟩ := written.name
  rw [isName]
  rfl

end Read

/-- The second session is ready where the first is, and then has the same files and the same index
with ids in places, and remembers and finds the same. -/
structure Pins (ids : Ids) (plain pinned : Session) : Prop where
  ready : pinned.isReady = plain.isReady
  files : pinned.workspace.files =
    plain.workspace.files.map (SourceFile.recast (Symbol.withIds ids))
  index : plain.isReady = true → ∃ index other, plain.workspace.index = some index ∧
    pinned.workspace.index = some other ∧ Recast (Symbol.withIds ids) index other
  memo : plain.isReady = true →
    pinned.workspace.memo = plain.workspace.memo.recast (Symbol.withIds ids)
  findings : plain.isReady = true → pinned.workspace.findings = plain.workspace.findings

theorem Pins.checkFile {plain pinned : Session} (pins : Pins ids plain pinned)
    (ready : plain.isReady = true) (path : String) :
    (outcome (checkFile path) pinned).1 = (outcome (checkFile path) plain).1 := by
  obtain ⟨index, other, found, foundToo, _⟩ := pins.index ready
  exact checkFile_recast ready (pins.ready.trans ready) pins.files found foundToo
    (pins.findings ready) path

/-- Where the index is stale, what becomes of the session is told by building it. -/
theorem Consistent.reindexed_stale (consistent : session.Consistent)
    (stale : session.phase = .empty ∨ session.isDirty = true) :
    (outcome reindex session).2.workspace = session.workspace.rebuild.2 ∧
      (outcome reindex session).2.isReady = session.workspace.rebuild.1.isOk := by
  have unready : session.isReady = false := by
    rcases stale with isEmpty | isDirty
    · rw [isReady, isEmpty]
    · rw [isReady, consistent.dirty isDirty]
  rw [consistent.reindex_stale stale]
  rcases session.workspace.rebuild with ⟨failure | index, later⟩
  · exact ⟨rfl, unready⟩
  · exact ⟨rfl, rfl⟩

/-- While a session is ready there is no index to build. -/
theorem Consistent.reindex_ready (consistent : session.Consistent)
    (ready : session.isReady = true) : outcome reindex session = (.ok ⟨⟩, session) := by
  have isOpen : session.phase ≠ .empty := by
    intro isEmpty
    rw [isReady, isEmpty] at ready
    cases ready
  have clean : session.isDirty ≠ true := by
    intro isDirty
    rw [isReady, consistent.dirty isDirty] at ready
    cases ready
  rw [outcome_reindex, if_neg isOpen, if_neg clean]

/-- Building the index over files with ids in places goes as it does without. -/
theorem Read.rebuild_pins (read : session.Read) {plain pinned : Session} {later : Workspace}
    (files : later.files = session.workspace.files.map (SourceFile.recast (Symbol.withIds ids)))
    (proper : ∀ place id, ids place = some id → id.isProper = true)
    (isPlain : plain.workspace = session.workspace.rebuild.2 ∧
      plain.isReady = session.workspace.rebuild.1.isOk)
    (isPinned : pinned.workspace = later.rebuild.2 ∧ pinned.isReady = later.rebuild.1.isOk) :
    Pins ids plain pinned := by
  have recast := read.recast_build files
  have indexable : later.symbols.all isIndexable = session.workspace.symbols.all isIndexable := by
    rw [symbols_recast files, (read.indexable proper).1, (read.indexable proper).2]
  obtain ⟨builds, fails⟩ := rebuild_recast recast files indexable
  have kept := (rebuild_files session.workspace).1
  have keptToo := (rebuild_files later).1
  obtain ⟨plainIs, plainReady⟩ := isPlain
  obtain ⟨pinnedIs, pinnedReady⟩ := isPinned
  have allFiles : pinned.workspace.files =
      plain.workspace.files.map (SourceFile.recast (Symbol.withIds ids)) := by
    rw [plainIs, pinnedIs, kept, keptToo, files]
  rcases built : session.workspace.rebuild with ⟨failure | index, next⟩
  · have failed := fails failure (congrArg Prod.fst built)
    rw [built] at plainReady
    rw [failed] at pinnedReady
    have unready {what : Prop} (ready : plain.isReady = true) : what := by
      rw [plainReady] at ready
      cases ready
    exact ⟨pinnedReady.trans plainReady.symm, allFiles, unready, unready, unready⟩
  · rw [builds index next built] at pinnedIs pinnedReady
    rw [built] at plainIs plainReady
    have found := rebuild_index built
    obtain ⟨rfl, -⟩ := rebuild_ok built
    refine ⟨pinnedReady.trans plainReady.symm, allFiles, fun _ => ?_, fun _ => ?_, fun _ => ?_⟩
    · exact ⟨_, _, plainIs ▸ found, by rw [pinnedIs]; rfl, recast⟩
    · rw [plainIs, pinnedIs]
    · rw [plainIs, pinnedIs]

theorem after_concat (changes : List Change) (last : Change) :
    after (changes ++ [last]) = (after changes).change last := by
  rw [after, List.foldl_append]
  rfl

/-- After texts were loaded the index is stale or ready. -/
theorem stale_or_ready {changes : List Change} (reads : ∀ change ∈ changes, change.reads = true) :
    ((after changes).phase = .empty ∨ (after changes).isDirty = true) ∨
      (after changes).isReady = true := by
  induction changes using List.reverseRecOn with
  | nil => exact .inl (.inl rfl)
  | append_singleton changes last ih =>
    have before := ih fun change listed => reads change (List.mem_append_left _ listed)
    have isReading := reads last (List.mem_append_right _ (List.mem_singleton_self _))
    rw [after_concat]
    cases last with
    | load path text isLibrary => exact .inl (.inr rfl)
    | reindex =>
      rcases before with stale | ready
      · have consistent := after_consistent changes
        change _ ∨ (outcome reindex (after changes)).2.isReady = _
        rw [(consistent.reindexed_stale stale).2]
        change ((outcome reindex (after changes)).2.phase = _ ∨
          (outcome reindex (after changes)).2.isDirty = _) ∨ _
        rw [consistent.reindex_stale stale]
        rcases (after changes).workspace.rebuild with ⟨failure | index, later⟩
        · exact .inl stale
        · exact .inr rfl
      · right
        change (outcome reindex (after changes)).2.isReady = true
        rw [(after_consistent changes).reindex_ready ready]
        exact ready
    | loadModel symbols source => cases isReading
    | applyEntries entries => cases isReading
    | importDocument document source => cases isReading

/-- The session after the index was built: it is ready if the index could be built. -/
theorem Read.reindexed (read : session.Read) (consistent : session.Consistent)
    (due : (session.phase = .empty ∨ session.isDirty = true) ∨ session.isReady = true) :
    (outcome Session.reindex session).2.workspace = session.workspace.rebuild.2 ∧
      (outcome Session.reindex session).2.isReady = session.workspace.rebuild.1.isOk := by
  rcases due with stale | ready
  · exact consistent.reindexed_stale stale
  · have checked := read.checked ready
    have nothing : ∀ place id, (fun _ => none : Ids) place = some id → id.isProper = true := nofun
    have indexable := (read.indexable nothing).2
    rw [consistent.reindex_ready ready, checked.rebuild indexable read.named]
    exact ⟨rfl, ready⟩

/-- While a session is ready, ids that are put in places without building the index are seen at
once. -/
theorem Read.pins_ready (read : session.Read) (consistent : session.Consistent)
    (ready : session.isReady = true) {later : Workspace}
    (identified : Identified session.workspace ids later) :
    Pins ids session { session with workspace := later } := by
  obtain ⟨index, current⟩ := consistent.current ready
  have checked := read.checked ready
  obtain rfl := Option.some.inj (checked.found.symm.trans current.found)
  have adjusted := identified.whole _ current
  have recast : Recast (Symbol.withIds ids)
      (Index.build session.workspace.symbols session.workspace.rootImports)
      ((Index.build session.workspace.symbols session.workspace.rootImports).adjust
        (Symbol.withIds ids)) :=
    (read.written _).recast ids (SourceFile.Parsed.rootImports read.parsed) rfl rfl
  refine ⟨rfl, identified.files, fun _ => ?_, fun _ => ?_, fun _ => ?_⟩
  · refine ⟨_, _, current.found, ?_, recast⟩
    rw [adjusted, Workspace.adjust, current.found]
    rfl
  · rw [adjusted]
    rfl
  · rw [adjusted]
    rfl

/-- Entries put ids in places, and building the index after them goes as it does without. -/
theorem reindex_pins {changes : List Change} (reads : ∀ change ∈ changes, change.reads = true)
    {entries : List Value}
    (apart : (entries.filterMap Pin.entryId?).Pairwise fun one other => (one == other) = false)
    (proper : ∀ id ∈ entries.filterMap Pin.entryId?, id.isProper = true) :
    ∃ ids, Ids.Drawn (entries.filterMap Pin.entryId?) ids ∧
      Pins ids (after (changes ++ [.reindex]))
        (after (changes ++ [.applyEntries entries, .reindex])) := by
  have consistent := after_consistent changes
  have consistentToo := after_consistent (changes ++ [.applyEntries entries])
  have read := after_read reads
  have due := stale_or_ready reads
  have split : changes ++ [.applyEntries entries, .reindex] =
      (changes ++ [.applyEntries entries]) ++ [.reindex] := by
    rw [List.append_assoc]
    rfl
  rw [split, after_concat, after_concat (changes ++ _)]
  rw [after_concat] at consistentToo ⊢
  change (outcome (applyEntries entries) (after changes)).2.Consistent at consistentToo
  change ∃ ids, _ ∧ Pins ids (outcome reindex (after changes)).2
    (outcome reindex (outcome (applyEntries entries) (after changes)).2).2
  generalize after changes = session at consistent read due consistentToo
  obtain ⟨ids, later, identified, drawn, applied⟩ :=
    applyEntries_identified consistent.tidy read.idless apart
  have properToo : ∀ place id, ids place = some id → id.isProper = true :=
    fun place id held => proper id (drawn.known place id held)
  refine ⟨ids, drawn, ?_⟩
  have isPlain := read.reindexed consistent due
  rcases applied with ⟨same, none_⟩ | ⟨count, some_, same⟩
  · have kept : (outcome (applyEntries entries) session).2 =
        { session with workspace := later } := by
      rw [outcome_applyEntries, ← same]
      rcases ran : session.workspace.applyEntries entries with ⟨failure | count, next⟩
      · rfl
      · exact if_pos (none_ count (by rw [ran]))
    rw [kept] at consistentToo ⊢
    rcases due with stale | ready
    · exact read.rebuild_pins identified.files properToo isPlain
        (consistentToo.reindexed_stale stale)
    · rw [consistent.reindex_ready ready, consistentToo.reindex_ready ready]
      exact read.pins_ready consistent ready identified
  · rw [outcome_applyEntries, same] at consistentToo ⊢
    dsimp only at consistentToo ⊢
    rw [if_neg some_] at consistentToo ⊢
    have files : ({ later with index := none } : Workspace).files =
        session.workspace.files.map (SourceFile.recast (Symbol.withIds ids)) := identified.files
    exact read.rebuild_pins files properToo isPlain (consistentToo.reindexed_stale (.inr rfl))

/-- What is made of a twin is the document with its ids replaced one for one. -/
theorem documentOf_twin {index other : Index} {pairs : List (Key × Key)} {draft twin : Draft}
    (isTwin : Draft.TwinBy ids index other pairs draft twin) (selfContained : Bool) (name : Value) :
    documentOf twin selfContained name =
        (documentOf draft selfContained name).renamed (twinOf pairs) ∧
      (documentOf draft selfContained name).Renames (twinOf pairs) := by
  constructor
  · rw [documentOf, isTwin.renamed_records, isTwin.renamed_external]
    rfl
  · intro one listed two listedToo
    obtain ⟨again, paired⟩ := isTwin.paired_ids listed
    obtain ⟨againToo, pairedToo⟩ := isTwin.paired_ids listedToo
    rw [isTwin.oneForOne.twinOf_eq paired, isTwin.oneForOne.twinOf_eq pairedToo]
    exact isTwin.oneForOne.beq_eq paired pairedToo

/-- With ids in places the same document is built under other ids, or building fails alike. -/
theorem Pins.buildDocument {plain pinned : Session} (pins : Pins ids plain pinned)
    (consistent : plain.Consistent) (consistentToo : pinned.Consistent)
    (ready : plain.isReady = true) {index : Index}
    (found : plain.workspace.index = some index)
    (isPinned : ∀ other, Recast (Symbol.withIds ids) index other → Pinned ids index other)
    (selfContained : Bool) (name : Value) :
    (∀ document, (outcome (buildDocument selfContained name) plain).1 = .ok document →
      ∃ rename, document.Renames rename ∧
        (outcome (buildDocument selfContained name) pinned).1 = .ok (document.renamed rename)) ∧
      ∀ failure, (outcome (buildDocument selfContained name) plain).1 = .error failure →
        (outcome (buildDocument selfContained name) pinned).1 = .error failure := by
  have readyToo := pins.ready.trans ready
  obtain ⟨_, other, isFound, isOther, recast⟩ := pins.index ready
  obtain rfl := Option.some.inj (found.symm.trans isFound)
  obtain ⟨_, current⟩ := consistent.current ready
  obtain rfl := Option.some.inj (found.symm.trans current.found)
  obtain ⟨_, currentToo⟩ := consistentToo.current readyToo
  obtain rfl := Option.some.inj (isOther.symm.trans currentToo.found)
  have own : pinned.workspace.ownSymbols =
      plain.workspace.ownSymbols.map (Symbol.withIds ids) := by
    rw [consistentToo.tidy.ownSymbols_eq, consistent.tidy.ownSymbols_eq,
      symbols_recast pins.files, List.filter_map]
    rfl
  have inside : plain.workspace.ownSymbols ⊆ index.symbols :=
    current.symbols ▸ ownSymbols_subset _
  have ends : EndAlike (fun _ _ => Draft.Twins ids index other 0)
      (outcome (Draft.compose index selfContained plain.workspace.ownSymbols)
        { memo := plain.workspace.memo })
      (outcome (Draft.compose other selfContained pinned.workspace.ownSymbols)
        { memo := pinned.workspace.memo }) := by
    rw [own, pins.memo ready]
    exact Draft.compose_pinned (isPinned other recast) inside current.memo
  rw [outcome_buildDocument consistent ready current,
    outcome_buildDocument consistentToo readyToo currentToo]
  generalize outcome (Draft.compose index selfContained plain.workspace.ownSymbols) _ = one,
    outcome (Draft.compose other selfContained pinned.workspace.ownSymbols) _ = two at ends
  cases ends with
  | error failure draft twin => exact ⟨nofun, fun _ same => same⟩
  | @ok _ _ draft twin twins =>
    obtain ⟨pairs, _, isTwin, _⟩ := twins
    obtain ⟨same, renames⟩ := documentOf_twin isTwin selfContained name
    refine ⟨?_, nofun⟩
    rintro document ⟨⟩
    exact ⟨twinOf pairs, renames, congrArg Except.ok same⟩

/-- However texts were loaded, of which symbols that share a qualified name are packages: entries
with different ids, none of which may be minted, change nothing but ids. The index can be built
after them where it can without them. Then the same is told of each file, and either kind of
document is the one that is built without the entries with its ids replaced one for one, or cannot
be built either. -/
theorem applyEntries_renames {changes : List Change} {index : Index} {entries : List Value}
    (reads : ∀ change ∈ changes, change.reads = true)
    (built : Index.build (after changes).workspace.symbols (after changes).workspace.rootImports =
      index)
    (share : index.PackagesShare) (mints : MintsApart (exportKeys index))
    (apart : (entries.filterMap Pin.entryId?).Pairwise fun one other => (one == other) = false)
    (proper : ∀ id ∈ entries.filterMap Pin.entryId?, id.isProper = true)
    (unminted : ∀ id ∈ entries.filterMap Pin.entryId?, ∀ key ∈ exportKeys index,
      (id == .text (Document.mintId key.1 key.2)) = false)
    {plain pinned : Session} (isPlain : after (changes ++ [.reindex]) = plain)
    (isPinned : after (changes ++ [.applyEntries entries, .reindex]) = pinned) :
    pinned.isReady = plain.isReady ∧
      (plain.isReady = true →
        (∀ path, (outcome (checkFile path) pinned).1 = (outcome (checkFile path) plain).1) ∧
        ∀ selfContained name,
          (∀ document, (outcome (buildDocument selfContained name) plain).1 = .ok document →
            ∃ rename, document.Renames rename ∧
              (outcome (buildDocument selfContained name) pinned).1 =
                .ok (document.renamed rename)) ∧
          ∀ failure, (outcome (buildDocument selfContained name) plain).1 = .error failure →
            (outcome (buildDocument selfContained name) pinned).1 = .error failure) := by
  obtain ⟨ids, drawn, pins⟩ := reindex_pins reads apart proper
  have consistent := after_consistent (changes ++ [.reindex])
  have consistentToo := after_consistent (changes ++ [.applyEntries entries, .reindex])
  have read : (after (changes ++ [.reindex])).Read := by
    refine after_read fun change listed => ?_
    rcases List.mem_append.mp listed with old | new
    · exact reads change old
    · rw [List.mem_singleton.mp new]
      rfl
  have files : (after (changes ++ [.reindex])).workspace.files =
      (after changes).workspace.files := by
    rw [after_concat]
    exact reindex_files (after changes)
  rw [isPlain] at pins consistent read files
  rw [isPinned] at pins consistentToo
  refine ⟨pins.ready, fun ready => ⟨pins.checkFile ready, ?_⟩⟩
  have found : plain.workspace.index = some index := by
    rw [(read.checked ready).found, ← built]
    simp only [Workspace.symbols, Workspace.rootImports, files]
  obtain ⟨_, current⟩ := consistent.current ready
  obtain rfl := Option.some.inj (found.symm.trans current.found)
  have written : index.Written := built ▸ (after_read reads).written _
  refine pins.buildDocument consistent consistentToo ready found fun other recast => ?_
  exact {
    recast, written, share, mints
    within := current.ids
    serials := current.symbols ▸ consistent.tidy.serials
    usable := fun place id held => by
      have listed := drawn.known place id held
      obtain ⟨entry, _, given⟩ := List.mem_filterMap.mp listed
      exact ⟨by simpa using (Option.filter_eq_some_iff.mp given).2, proper id listed⟩
    apart := ⟨drawn.apart, fun place id held => unminted id (drawn.known place id held)⟩ }

def specializedTwice : List Change :=
  [.load "a.sysml" "part def A :> B, B;\npart def B;" false]

/-- Entries that give ids to the definition and to the first of its relationships. -/
def firstPinned : List Value :=
  [.map [(.text "id", .text "a"), (.text "qualifiedName", .text "A")],
    .map [(.text "id", .text "s"), (.text "source", .text "A"),
      (.text "kind", .text "Specialization"), (.text "target", .text "B")]]

/-- Of two relationships that are alike the first one is given an id: the second one takes the id
that is minted for the first one without the entries. -/
theorem applyEntries_renames_shifted :
    ∃ document rename,
      (outcome (buildDocument false (.text "model")) (after (specializedTwice ++ [.reindex]))).1 =
        .ok document ∧
      document.Renames rename ∧
      (outcome (buildDocument false (.text "model"))
        (after (specializedTwice ++ [.applyEntries firstPinned, .reindex]))).1 =
          .ok (document.renamed rename) ∧
      ((document.renamed rename).ids.map Key.display).take 2 = ["a", "s"] ∧
      ((document.renamed rename).ids.map Key.display)[2]? = (document.ids.map Key.display)[1]? := by
  have facts : (after (specializedTwice ++ [.reindex])).isReady = true ∧
      (((after specializedTwice).workspace.symbols.map (·.qualifiedName)).map Key.display).Nodup ∧
      ((exportKeys (Index.build (after specializedTwice).workspace.symbols
        (after specializedTwice).workspace.rootImports)).dedup.map
          fun key => Document.mintId key.1 key.2).Nodup ∧
      (∀ id ∈ firstPinned.filterMap Pin.entryId?,
        ∀ key ∈ (exportKeys (Index.build (after specializedTwice).workspace.symbols
          (after specializedTwice).workspace.rootImports)).dedup,
            (id == .text (Document.mintId key.1 key.2)) = false) ∧
      (outcome (buildDocument false (.text "model"))
        (after (specializedTwice ++ [.reindex]))).1.toOption.map
          (fun document => (document.ids.map Key.display)[1]?) =
        (outcome (buildDocument false (.text "model"))
          (after (specializedTwice ++ [.applyEntries firstPinned, .reindex]))).1.toOption.map
            (fun document => (document.ids.map Key.display)[2]?) ∧
      (outcome (buildDocument false (.text "model"))
        (after (specializedTwice ++ [.applyEntries firstPinned, .reindex]))).1.toOption.map
          (fun document => (document.ids.map Key.display).take 2) = some ["a", "s"] := by
    decide +kernel
  obtain ⟨ready, texts, once, unminted, told, pinned⟩ := facts
  generalize isIndex : Index.build (after specializedTwice).workspace.symbols
    (after specializedTwice).workspace.rootImports = index at once unminted
  have share : index.PackagesShare := by
    subst isIndex
    exact (namesApart_of_nodup (List.Nodup.of_map _ texts)).packagesShare
  have mints : MintsApart (exportKeys index) :=
    (mintsApart_of_nodup once).mono (List.subset_dedup _)
  obtain ⟨_, alike⟩ := applyEntries_renames (by decide) isIndex share mints (by decide +kernel)
    (by decide +kernel)
    (fun id given key exported => unminted id given key (List.mem_dedup.mpr exported)) rfl rfl
  obtain ⟨succeeds, fails⟩ := (alike ready).2 false (.text "model")
  cases ran : (outcome (buildDocument false (.text "model"))
      (after (specializedTwice ++ [.reindex]))).1 with
  | error failure =>
    rw [fails failure ran] at pinned
    cases pinned
  | ok document =>
    obtain ⟨rename, renames, ranToo⟩ := succeeds document ran
    rw [ran, ranToo] at told
    rw [ranToo] at pinned
    exact ⟨document, rename, rfl, renames, ranToo, Option.some.inj pinned,
      (Option.some.inj told).symm⟩

end Session

end Sysml
