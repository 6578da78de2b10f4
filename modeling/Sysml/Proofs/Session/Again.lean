import Sysml.Proofs.Renumbering
import Sysml.Proofs.Session.Export
import Sysml.Proofs.Session.Reachable

/-!
# Importing a document again

A second import binds the same elements to the same library symbols and makes the same symbols of
the others, but numbers these anew. As nothing depends on serial numbers, the session tells the
same (`importDocument_again`). This holds where the library elements that the document brings
along are known from another file: one that the first import made a symbol of is taken for a
loaded one by the second.
-/

set_option autoImplicit false

namespace Sysml

open Scope

/-! ## Giving ids -/

/-- The id that pins give to the symbol of a serial number; each pin has a serial number and an
id. -/
def pinnedId (pins : List (Nat × Key)) (serial : Nat) (id : Option Key) : Option Key :=
  pins.foldl (fun id pin => if serial = pin.1 then some pin.2 else id) id

/-- Pins either leave an id or replace whatever it is. -/
theorem pinnedId_fixed (pins : List (Nat × Key)) (serial : Nat) :
    (∀ id, pinnedId pins serial id = id) ∨ ∃ given, ∀ id, pinnedId pins serial id = given := by
  induction pins with
  | nil => exact .inl fun _ => rfl
  | cons pin rest ih =>
    by_cases same : serial = pin.1
    · refine .inr ⟨pinnedId rest serial (some pin.2), fun id => ?_⟩
      rw [pinnedId, List.foldl_cons, if_pos same]
      rfl
    · have skips (id : Option Key) : pinnedId (pin :: rest) serial id = pinnedId rest serial id := by
        rw [pinnedId, List.foldl_cons, if_neg same]
        rfl
      simpa only [skips] using ih

/-- The same pins once more change nothing. -/
theorem pinnedId_again (pins : List (Nat × Key)) (serial : Nat) (id : Option Key) :
    pinnedId pins serial (pinnedId pins serial id) = pinnedId pins serial id := by
  rcases pinnedId_fixed pins serial with leaves | ⟨given, replaces⟩
  · rw [leaves]
  · rw [replaces, replaces]

def Symbol.withPins (pins : List (Nat × Key)) (symbol : Symbol) : Symbol :=
  { symbol with elementId := pinnedId pins symbol.serial symbol.elementId }

theorem Symbol.withPins_again (pins : List (Nat × Key)) (symbol : Symbol) :
    (symbol.withPins pins).withPins pins = symbol.withPins pins := by
  rw [withPins, withPins]
  exact congrArg (fun elementId => { symbol with elementId }) (pinnedId_again ..)

def SourceFile.withPins (pins : List (Nat × Key)) (file : SourceFile) : SourceFile :=
  { file with symbols := file.symbols.map (Symbol.withPins pins) }

theorem SourceFile.withPins_again (pins : List (Nat × Key)) (file : SourceFile) :
    (file.withPins pins).withPins pins = file.withPins pins := by
  rw [withPins, withPins]
  refine congrArg (fun symbols => { file with symbols }) ?_
  rw [List.map_map]
  exact List.map_congr_left fun symbol _ => symbol.withPins_again pins

namespace Workspace

def pinEach (w : Workspace) (pins : List (Nat × Key)) : Workspace :=
  pins.foldl (fun w pin => w.pin pin.1 pin.2) w

theorem adjust_adjust (w : Workspace) (first second : Symbol → Symbol) :
    (w.adjust first).adjust second = w.adjust (second ∘ first) := by
  simp [adjust, Index.adjust, Function.comp_def]

theorem pinEach_eq_adjust (w : Workspace) (pins : List (Nat × Key)) :
    w.pinEach pins = w.adjust (Symbol.withPins pins) := by
  induction pins generalizing w with
  | nil =>
    have same : Symbol.withPins [] = id := rfl
    rw [same]
    simp [pinEach, adjust, Index.adjust]
  | cons pin rest ih =>
    rw [pinEach, List.foldl_cons, ← pinEach, ih, Workspace.pin, adjust_adjust]
    refine congrArg w.adjust (funext fun symbol => ?_)
    rw [Function.comp_apply]
    split
    · next same =>
      simp only [Symbol.withPins, pinnedId, List.foldl_cons, same, if_true]
    · next other =>
      simp only [Symbol.withPins, pinnedId, List.foldl_cons, other, if_false]

theorem pinEach_files (w : Workspace) (pins : List (Nat × Key)) :
    (w.pinEach pins).files = w.files.map (SourceFile.withPins pins) ∧
      (w.pinEach pins).nextSerial = w.nextSerial := by
  rw [pinEach_eq_adjust]
  exact ⟨rfl, rfl⟩

end Workspace

namespace Document

/-- Indexes that bind the elements of a document alike make the same symbols of the others and
give the same ids. -/
theorem takeElements_alike {document : Document} {source : String} {one other : Index}
    {records : List Record}
    (alike : ∀ record ∈ records, record.isRelationship = false → ∀ name,
      document.qualifiedNameOf record = .ok name →
        (loadedTwin? other record name).map (Option.map (·.serial)) =
          (loadedTwin? one record name).map (Option.map (·.serial)))
    {taken final : Elements} {session later : Session}
    (took : outcome (document.takeElements source one taken records) session =
      (.ok final, later)) :
    ∃ pins, later = { session with workspace := session.workspace.pinEach pins } ∧
      ∀ again : Session, outcome (document.takeElements source other taken records) again =
        (.ok final, { again with workspace := again.workspace.pinEach pins }) := by
  induction records generalizing taken session with
  | nil =>
    cases took
    exact ⟨[], rfl, fun _ => rfl⟩
  | cons record rest ih =>
    obtain ⟨alikeFirst, alikeRest⟩ := List.forall_mem_cons.mp alike
    rw [takeElements] at took
    split at took
    · next isRelationship =>
      obtain ⟨pins, same, agains⟩ := ih alikeRest took
      refine ⟨pins, same, fun again => ?_⟩
      rw [takeElements, if_pos isRelationship]
      exact agains again
    · next isElement =>
      obtain ⟨name, _, named, took⟩ := outcome_bind_ok took
      rw [outcome_ofExcept] at named
      obtain ⟨isName, rfl⟩ := Prod.mk.inj named
      obtain ⟨twin?, _, sought, took⟩ := outcome_bind_ok took
      rw [outcome_liftM] at sought
      obtain ⟨isTwin, rfl⟩ := Prod.mk.inj sought
      have alikeTwin := alikeFirst (Bool.eq_false_iff.mpr isElement) name isName
      rw [isTwin] at alikeTwin
      have namedAgain (again : Session) : outcome (MonadExcept.ofExcept
          (document.qualifiedNameOf record) : Operation Key) again = (.ok name, again) := by
        rw [outcome_ofExcept, isName]
      have soughtAgain (again : Session) : ∃ twinAgain?,
          outcome (liftM (loadedTwin? other record name) : Operation (Option Symbol)) again =
            (.ok twinAgain?, again) ∧ twinAgain?.map (·.serial) = twin?.map (·.serial) := by
        rw [outcome_liftM]
        cases twinAgain : loadedTwin? other record name with
        | error failure =>
          rw [twinAgain] at alikeTwin
          cases alikeTwin
        | ok twinAgain? =>
          rw [twinAgain] at alikeTwin
          exact ⟨twinAgain?, rfl, Except.ok.inj alikeTwin⟩
      cases twin? with
      | some twin =>
        obtain ⟨pins, same, agains⟩ := ih alikeRest took
        refine ⟨(twin.serial, record.id) :: pins, same, fun again => ?_⟩
        obtain ⟨twinAgain?, sought, sameTwin⟩ := soughtAgain again
        obtain ⟨twinAgain, rfl, sameSerial⟩ := Option.map_eq_some_iff.mp sameTwin
        rw [takeElements, if_neg isElement, outcome_bind_of_ok (namedAgain again),
          outcome_bind_of_ok sought]
        dsimp only
        rw [sameSerial]
        exact agains _
      | none =>
        obtain ⟨symbol, _, made, took⟩ := outcome_bind_ok took
        rw [outcome_ofExcept] at made
        obtain ⟨isSymbol, rfl⟩ := Prod.mk.inj made
        obtain ⟨pins, same, agains⟩ := ih alikeRest took
        refine ⟨pins, same, fun again => ?_⟩
        obtain ⟨twinAgain?, sought, sameTwin⟩ := soughtAgain again
        obtain rfl := Option.map_eq_none_iff.mp sameTwin
        have madeAgain : outcome (MonadExcept.ofExcept (document.symbolOf source name record) :
            Operation Symbol) again = (.ok symbol, again) := by
          rw [outcome_ofExcept, isSymbol]
        rw [takeElements, if_neg isElement, outcome_bind_of_ok (namedAgain again),
          outcome_bind_of_ok sought]
        dsimp only
        rw [outcome_bind_of_ok madeAgain]
        exact agains again

/-- The library elements that a document brings along are known, and first from other files. -/
def KnownElsewhere (document : Document) (source : String) (w : Workspace) : Prop :=
  ∀ record ∈ document.elements, record.provenance.isText Record.inlinedProvenance = true →
    ∀ name, document.qualifiedNameOf record = .ok name →
      ∃ known, w.symbols.find? (fun symbol => symbol.qualifiedName == name) = some known ∧
        ∀ file ∈ w.files, known ∈ file.symbols → file.path ≠ source

end Document

/-- What is found first stays so without files that it is not in. -/
theorem find?_filter_files {files : List SourceFile} {kept : SourceFile → Bool}
    {sought : Symbol → Bool} {known : Symbol}
    (found : (files.flatMap (·.symbols)).find? sought = some known)
    (keeps : ∀ file ∈ files, known ∈ file.symbols → kept file = true) :
    ((files.filter kept).flatMap (·.symbols)).find? sought = some known := by
  induction files with
  | nil => exact found
  | cons file rest ih =>
    obtain ⟨keepsFirst, keepsRest⟩ := List.forall_mem_cons.mp keeps
    rw [List.flatMap_cons, List.find?_append] at found
    cases inFirst : file.symbols.find? sought with
    | some first =>
      rw [inFirst, Option.some_or] at found
      rw [List.filter_cons, if_pos (keepsFirst (Option.some.inj found ▸
        List.mem_of_find?_eq_some inFirst)), List.flatMap_cons, List.find?_append, inFirst]
      exact found
    | none =>
      rw [inFirst, Option.none_or] at found
      rw [List.filter_cons]
      split
      · rw [List.flatMap_cons, List.find?_append, inFirst]
        exact ih found keepsRest
      · exact ih found keepsRest

namespace Workspace

variable {w : Workspace} (pins : List (Nat × Key)) (symbols : List Symbol) (source : String)

/-- The files after a document was loaded over elements that were given ids. -/
theorem loadModel_files (w : Workspace) :
    ((w.pinEach pins).loadModel symbols source).files =
      ((w.files.filter fun file => file.path != source).map (SourceFile.withPins pins)) ++
        [⟨source, "", false, numbered w.nextSerial symbols, [], []⟩] := by
  obtain ⟨files, next⟩ := w.pinEach_files pins
  rw [loadModel, put, next]
  dsimp only
  rw [files, List.filter_map]
  rfl

/-- What was known from other files first is still so after the import. -/
theorem lookup_loadModel {rootImports : List (String × List Import)} {name : Key} {known : Symbol}
    (found : w.symbols.find? (fun symbol => symbol.qualifiedName == name) = some known)
    (elsewhere : ∀ file ∈ w.files, known ∈ file.symbols → file.path ≠ source) :
    (Index.build ((w.pinEach pins).loadModel symbols source).symbols rootImports).lookup name =
      some (known.withPins pins) := by
  have kept := find?_filter_files found fun file inside has =>
    bne_iff_ne.mpr (elsewhere file inside has)
  have pinned : (((w.files.filter fun file => file.path != source).map
      (SourceFile.withPins pins)).flatMap (·.symbols)).find?
        (fun symbol => symbol.qualifiedName == name) = some (known.withPins pins) := by
    have changed : ((w.files.filter fun file => file.path != source).map
        (SourceFile.withPins pins)).flatMap (·.symbols) =
        ((w.files.filter fun file => file.path != source).flatMap (·.symbols)).map
          (Symbol.withPins pins) := by
      rw [List.flatMap_map, List.map_flatMap]
      rfl
    rw [changed, List.find?_map]
    exact congrArg (Option.map (Symbol.withPins pins)) kept
  change (((w.pinEach pins).loadModel symbols source).files.flatMap (·.symbols)).find? _ = _
  rw [loadModel_files, List.flatMap_append, List.find?_append, pinned]
  rfl

end Workspace

/-- After an import the elements of the document are bound as they were. -/
theorem Document.KnownElsewhere.alike {document : Document} {source : String} {w : Workspace}
    (elsewhere : document.KnownElsewhere source w) {index : Index} (same : index.symbols = w.symbols)
    (pins : List (Nat × Key)) (symbols : List Symbol) (rootImports : List (String × List Import)) :
    ∀ record ∈ document.records, record.isRelationship = false → ∀ name,
      document.qualifiedNameOf record = .ok name →
        (loadedTwin? (Index.build ((w.pinEach pins).loadModel symbols source).symbols rootImports)
          record name).map (Option.map (·.serial)) =
        (loadedTwin? index record name).map (Option.map (·.serial)) := by
  intro record member isElement name isName
  unfold loadedTwin?
  split
  · next inlined =>
    unfold Key.proper
    split
    · have isRecord : record ∈ document.elements :=
        List.mem_filter.mpr ⟨member, by rw [isElement]; rfl⟩
      obtain ⟨known, found, apart⟩ := elsewhere record isRecord inlined name isName
      have before : index.lookup name = some known := by
        rw [Index.lookup, same]
        exact found
      rw [ok_bind, ok_bind, before, Workspace.lookup_loadModel pins symbols source found apart,
        Option.filter_some, Option.filter_some]
      change Except.map _ (pure (if known.isLibrary = true then _ else _)) = _
      split <;> rfl
    · rfl
  · rfl

/-! ## Numbering anew -/

def shifted (first count serial : Nat) : Nat :=
  if serial < first then serial else serial + count

theorem shifted_injective (first count : Nat) : Function.Injective (shifted first count) := by
  intro one other same
  unfold shifted at same
  split at same <;> split at same <;> omega

theorem Workspace.numbered_shifted (first count : Nat) (symbols : List Symbol) :
    (numbered first symbols).map (Symbol.renumber (shifted first count)) =
      numbered (first + count) symbols := by
  apply List.ext_getElem
  · simp [numbered]
  · intro i _ _
    have moved : shifted first count (first + i) = first + count + i := by
      unfold shifted
      rw [if_neg (by omega)]
      omega
    simp [numbered, Symbol.renumber, moved]

/-- Files with smaller serial numbers stay as they are. -/
theorem SourceFile.renumber_below {first : Nat} {file : SourceFile}
    (below : ∀ symbol ∈ file.symbols, symbol.serial < first) (count : Nat) :
    file.renumber (shifted first count) = file := by
  have same : file.symbols.map (Symbol.renumber (shifted first count)) = file.symbols := by
    refine (List.map_congr_left fun symbol has => ?_).trans (List.map_id _)
    rw [Symbol.renumber, shifted, if_pos (below symbol has)]
    rfl
  rw [renumber, same]

/-- Loading the document over itself only numbers its symbols anew. -/
theorem Workspace.Tidy.loadModel_again {w once : Workspace} (tidy : w.Tidy)
    {pins : List (Nat × Key)} {symbols : List Symbol} {source : String}
    (files : once.files = ((w.pinEach pins).loadModel symbols source).files)
    (next : once.nextSerial = w.nextSerial + symbols.length) :
    ((once.pinEach pins).loadModel symbols source).files =
      ((w.pinEach pins).loadModel symbols source).files.map
        (SourceFile.renumber (shifted w.nextSerial symbols.length)) := by
  have kept : (once.files.filter fun file => file.path != source).map (SourceFile.withPins pins) =
      (w.files.filter fun file => file.path != source).map (SourceFile.withPins pins) := by
    have dropped : ((⟨source, "", false, numbered w.nextSerial symbols, [], []⟩ :
        SourceFile).path != source) = false := bne_self_eq_false' source
    rw [files, loadModel_files, List.filter_append, List.filter_cons, dropped, List.filter_map]
    simp only [Bool.false_eq_true, if_false, List.filter_nil, List.append_nil, List.map_map]
    have twice : (w.files.filter fun file => file.path != source).filter
        ((fun file => file.path != source) ∘ SourceFile.withPins pins) =
        w.files.filter fun file => file.path != source := by
      rw [List.filter_filter]
      refine List.filter_congr fun file _ => ?_
      exact Bool.and_self _
    rw [twice]
    exact List.map_congr_left fun file _ => file.withPins_again pins
  have fixed : ((w.files.filter fun file => file.path != source).map
      (SourceFile.withPins pins)).map
        (SourceFile.renumber (shifted w.nextSerial symbols.length)) =
      (w.files.filter fun file => file.path != source).map (SourceFile.withPins pins) := by
    refine (List.map_congr_left fun file inside => ?_).trans (List.map_id _)
    obtain ⟨old, isOld, rfl⟩ := List.mem_map.mp inside
    refine SourceFile.renumber_below (fun symbol has => ?_) _
    obtain ⟨before, wasIn, rfl⟩ := List.mem_map.mp has
    exact tidy.below before (List.mem_flatMap_of_mem (List.mem_filter.mp isOld).1 wasIn)
  rw [loadModel_files, loadModel_files, kept, next, List.map_append, fixed]
  rw [List.map_singleton, SourceFile.renumber, numbered_shifted]

/-- Where a document could be loaded and checked, it can be loaded over itself: the index and the
answers are the same under new serial numbers. -/
theorem Workspace.Tidy.rebuild_again {w later : Workspace} (tidy : w.Tidy)
    {pins : List (Nat × Key)} {symbols : List Symbol} {source : String} {index : Index}
    (built : ((w.pinEach pins).loadModel symbols source).rebuild = (.ok index, later)) :
    ∃ again, ((later.pinEach pins).loadModel symbols source).rebuild =
        (.ok (index.renumber (shifted w.nextSerial symbols.length)), again) ∧
      again.index = some (index.renumber (shifted w.nextSerial symbols.length)) ∧
      again.files = later.files.map
        (SourceFile.renumber (shifted w.nextSerial symbols.length)) ∧
      again.memo = later.memo.renumber (shifted w.nextSerial symbols.length) := by
  obtain ⟨files, next⟩ := rebuild_files ((w.pinEach pins).loadModel symbols source)
  rw [built] at files next
  have nextSerial : later.nextSerial = w.nextSerial + symbols.length := by
    rw [next, ← (w.pinEach_files pins).2]
    rfl
  have renumbered := tidy.loadModel_again files nextSerial
  have rebuilt := rebuild_renumbered (shifted_injective w.nextSerial symbols.length) renumbered
    built
  refine ⟨_, rebuilt, rfl, renumbered.trans ?_, rfl⟩
  rw [← files]

namespace Session

/-- The symbols of a ready session are those of its index. -/
theorem outcome_symbols {session : Session} {index : Index} (consistent : session.Consistent)
    (ready : session.isReady = true) (current : session.workspace.Current index) :
    outcome Session.symbols session = (.ok index.symbols, session) := by
  have gives := outcome_index consistent
  rw [ready, if_pos rfl, currentIndex_of_current current] at gives
  exact (outcome_bind_of_ok gives).trans rfl

/-- A session that differs from another in serial numbers builds the same documents. -/
theorem buildDocument_renumbered {once twice : Session} {index : Index} {number : Nat → Nat}
    (apart : Function.Injective number) (consistent : once.Consistent)
    (ready : once.isReady = true) (current : once.workspace.Current index)
    (consistentToo : twice.Consistent) (readyToo : twice.isReady = true)
    (currentToo : twice.workspace.Current (index.renumber number))
    (files : twice.workspace.files = once.workspace.files.map (SourceFile.renumber number))
    (memo : twice.workspace.memo = once.workspace.memo.renumber number)
    (selfContained : Bool) (name : Value) :
    (outcome (buildDocument selfContained name) twice).1 =
      (outcome (buildDocument selfContained name) once).1 := by
  have own : twice.workspace.ownSymbols =
      once.workspace.ownSymbols.map (Symbol.renumber number) := by
    rw [Workspace.ownSymbols, Workspace.ownSymbols, files, List.filter_map, List.flatMap_map,
      List.filter_flatMap, List.filter_flatMap, List.map_flatMap]
    refine List.flatMap_congr fun file _ => ?_
    exact List.filter_map ..
  have made : Draft.Makes number id (Draft.compose index selfContained once.workspace.ownSymbols)
      (Draft.compose (index.renumber number) selfContained
        (once.workspace.ownSymbols.map (Symbol.renumber number))) :=
    Draft.compose_renumbered apart selfContained once.workspace.ownSymbols
  have made := made { memo := once.workspace.memo }
  have start : ({ memo := twice.workspace.memo } : Draft) =
      Draft.renumber number { memo := once.workspace.memo } := by
    rw [memo]
    rfl
  rw [outcome_buildDocument consistent ready current,
    outcome_buildDocument consistentToo readyToo currentToo, own, start, made]
  rcases outcome (Draft.compose index selfContained once.workspace.ownSymbols)
    { memo := once.workspace.memo } with ⟨failure | done, draft⟩ <;> rfl

theorem Consistent.current_of {session : Session} {index : Index}
    (consistent : session.Consistent) (ready : session.isReady = true)
    (found : session.workspace.index = some index) : session.workspace.Current index := by
  obtain ⟨held, current⟩ := consistent.current ready
  cases found.symm.trans current.found
  exact current

/-- After the last stage of an import the session is ready, with the index over what was loaded. -/
theorem takeIn_ok {symbols : List Symbol} {source : String} {told result : ImportResult}
    {session later : Session}
    (took : outcome (takeIn symbols source told) session = (.ok result, later)) :
    ∃ index, (session.workspace.loadModel symbols source).rebuild = (.ok index, later.workspace) ∧
      later.isReady = true ∧ outcome reindex later = (.ok ⟨⟩, later) ∧ result = told := by
  rw [outcome_takeIn] at took
  split at took
  · next index workspace built =>
    cases took
    exact ⟨index, built, rfl, rfl, rfl⟩
  · cases took

/-- A document whose library elements are known from other files may be imported again: the
second import tells the same, and the session has the same symbols, but for their serial numbers,
and the same documents as after the first. -/
theorem importDocument_again {changes : List Change} {session : Session}
    (reached : after changes = session) {document : Document} {source : String}
    (elsewhere : document.KnownElsewhere source session.workspace) {result : ImportResult}
    {once : Session}
    (imported : outcome (importDocument document source) session = (.ok result, once)) :
    ∃ twice, outcome (importDocument document source) once = (.ok result, twice) ∧
      (∃ known again, outcome Session.symbols once = (.ok known, once) ∧
        outcome Session.symbols twice = (.ok again, twice) ∧
        again.map (Symbol.renumber fun _ => 0) = known.map (Symbol.renumber fun _ => 0)) ∧
      ∀ selfContained name, (outcome (buildDocument selfContained name) twice).1 =
        (outcome (buildDocument selfContained name) once).1 := by
  have consistent : session.Consistent := reached ▸ after_consistent changes
  have onceConsistent : once.Consistent := by
    have keeps := keeps_importDocument document source session consistent
    rw [imported] at keeps
    exact keeps
  obtain ⟨ready, index, taken, pinned, symbols, skipped, valid, built, readyConsistent, isReady,
    current, took, attached, tookIn⟩ := importDocument_stages consistent imported
  have files := reindex_files session
  rw [built] at files
  have elsewhereReady : document.KnownElsewhere source ready.workspace := by
    unfold Document.KnownElsewhere Workspace.symbols
    rw [files]
    exact elsewhere
  obtain ⟨first, rebuilt, onceReady, reindexed, rfl⟩ := takeIn_ok tookIn
  obtain ⟨somePins, samePinned, _⟩ := Document.takeElements_alike (fun _ _ _ _ _ => rfl) took
  have isIndex := (Workspace.rebuild_ok rebuilt).1
  rw [samePinned, warned_workspace] at isIndex
  obtain ⟨pins, rfl, takesAgain⟩ := Document.takeElements_alike
    (elsewhereReady.alike current.symbols somePins symbols _) took
  rw [← isIndex] at takesAgain
  rw [warned_workspace] at rebuilt
  obtain ⟨again, rebuiltAgain, againIndex, againFiles, againMemo⟩ :=
    readyConsistent.tidy.rebuild_again rebuilt
  have onceCurrent := onceConsistent.current_of onceReady (Workspace.rebuild_index rebuilt)
  have gives : outcome Session.index once = (.ok first, once) := by
    rw [outcome_index onceConsistent, onceReady, currentIndex_of_current onceCurrent]
    rfl
  obtain ⟨twice, takesIn, twiceWorkspace, twiceReady⟩ :
      ∃ twice, outcome (takeIn symbols source (told document symbols))
          (Session.warned { once with workspace := once.workspace.pinEach pins } skipped) =
          (.ok (told document symbols), twice) ∧
        twice.workspace = again ∧ twice.isReady = true := by
    rw [outcome_takeIn, warned_workspace, rebuiltAgain]
    exact ⟨_, rfl, rfl, rfl⟩
  have ranAgain : outcome (importDocument document source) once =
      (.ok (told document symbols), twice) := by
    rw [importDocument_eq valid, outcome_bind_of_ok reindexed, outcome_bind_of_ok gives,
      outcome_bindAll (takesAgain once) attached, takesIn]
  have twiceConsistent : twice.Consistent := by
    have keeps := keeps_importDocument document source once onceConsistent
    rw [ranAgain] at keeps
    exact keeps
  have twiceCurrent := twiceConsistent.current_of twiceReady (twiceWorkspace ▸ againIndex)
  refine ⟨twice, ranAgain, ⟨_, _, outcome_symbols onceConsistent onceReady onceCurrent,
    outcome_symbols twiceConsistent twiceReady twiceCurrent, ?_⟩, fun selfContained name => ?_⟩
  · change (first.symbols.map _).map _ = _
    rw [List.map_map]
    rfl
  · exact buildDocument_renumbered (shifted_injective _ _) onceConsistent onceReady onceCurrent
      twiceConsistent twiceReady twiceCurrent (twiceWorkspace ▸ againFiles)
      (twiceWorkspace ▸ againMemo) selfContained name

def inlinedPackage : Record :=
  { id := .text "L", kind := "Package", name := .text "Lib"
    provenance := .text Record.inlinedProvenance }

def packaged : Document where
  records := [{ id := .text "a", kind := "PartUsage", name := .text "a" }, inlinedPackage]

def shelved : Session :=
  after [.load "lib.sysml" "package Lib { part def T; }" true]

theorem packaged_knownElsewhere : packaged.KnownElsewhere "m.json" shelved.workspace := by
  have paths : ∀ file ∈ shelved.workspace.files, file.path ≠ "m.json" := by decide +kernel
  have found : (shelved.workspace.symbols.find? fun symbol =>
      symbol.qualifiedName == .text "Lib").isSome = true := by decide +kernel
  obtain ⟨known, isKnown⟩ := Option.isSome_iff_exists.mp found
  intro record member inlined name isName
  have listed : record ∈ packaged.records := (List.mem_filter.mp member).1
  simp only [packaged, List.mem_cons, List.not_mem_nil, or_false] at listed
  rcases listed with rfl | rfl
  · cases inlined
  · have named : packaged.qualifiedNameOf inlinedPackage = .ok (.text "Lib") := rfl
    rw [named] at isName
    cases isName
    exact ⟨known, isKnown, fun file inside _ => paths file inside⟩

theorem importDocument_again_packaged :
    packaged.KnownElsewhere "m.json" shelved.workspace ∧
      ∃ result once, outcome (importDocument packaged "m.json") shelved = (.ok result, once) ∧
      ∃ twice, outcome (importDocument packaged "m.json") once = (.ok result, twice) ∧
        (∃ known again, outcome Session.symbols once = (.ok known, once) ∧
          outcome Session.symbols twice = (.ok again, twice) ∧
          again.map (Symbol.renumber fun _ => 0) = known.map (Symbol.renumber fun _ => 0)) ∧
        ∀ selfContained name, (outcome (buildDocument selfContained name) twice).1 =
          (outcome (buildDocument selfContained name) once).1 := by
  have isTaken : (outcome (importDocument packaged "m.json") shelved).1.toOption.isSome = true := by
    decide +kernel
  rcases imported : outcome (importDocument packaged "m.json") shelved with ⟨failure | result, once⟩
  · rw [imported] at isTaken
    cases isTaken
  · exact ⟨packaged_knownElsewhere, result, once, rfl,
      importDocument_again rfl packaged_knownElsewhere imported⟩

def symbolsAfter (run : Operation ImportResult) (session : Session) : Option Nat :=
  (outcome (do let _ ← run; Session.symbols) session).1.toOption.map List.length

/-- A library element that no other file has is lost by the second import, which takes the symbol
that the first made of it for a loaded one. -/
theorem importDocument_again_lost :
    symbolsAfter (importDocument packaged "m.json") {} = some 2 ∧
      symbolsAfter (do
        let _ ← importDocument packaged "m.json"
        importDocument packaged "m.json") {} = some 1 := by
  decide +kernel

end Session

end Sysml
