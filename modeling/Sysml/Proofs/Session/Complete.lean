import Sysml.Proofs.Document.Complete
import Sysml.Proofs.Document.Gathering
import Sysml.Proofs.Document.Portable
import Sysml.Proofs.Document.TakingIn
import Sysml.Proofs.Notation.Passage
import Sysml.Proofs.Session.Export
import Sysml.Proofs.Workspace.Findings

/-!
# Nothing is lost in an export

The document of a session that only read texts has a record for each of the model's
own symbols, references and imports, but for the references and imports that the last
check reported (`buildDocument_complete`). A self-contained document has the model's own
elements and exactly those of libraries that the model needs (`buildDocument_inlines`).
-/

set_option autoImplicit false

/-! ## Sessions that only read texts

After source texts were loaded and nothing else, each file holds what its text gives,
and while the session is ready its findings are those of a check of all files. -/

namespace Sysml

open Scope

def Change.reads : Change → Bool
  | .load _ _ _ | .reindex => true
  | _ => false

structure SourceFile.Parsed (file : SourceFile) : Prop where
  symbols : ∃ first, file.symbols =
    Workspace.numbered first (Notation.parse file.path file.text file.isLibrary).symbols
  imports : file.imports = (Notation.parse file.path file.text file.isLibrary).imports
  faults : file.faults = (Notation.parse file.path file.text file.isLibrary).diagnostics

/-- The index is over all symbols, and what is remembered and found comes from a check
of all files. -/
structure Workspace.Checked (w : Workspace) : Prop where
  found : w.index = some (Index.build w.symbols w.rootImports)
  check : outcome w.checking [] = (.ok w.findings, w.memo)

/-- All files hold what their texts give, and were checked while the session is ready. -/
structure Session.Read (session : Session) : Prop where
  parsed : ∀ file ∈ session.workspace.files, file.Parsed
  checked : session.isReady = true → session.workspace.Checked

namespace Workspace

variable {w : Workspace}

theorem parsed_load (parsed : ∀ file ∈ w.files, file.Parsed) (path text : String)
    (isLibrary : Bool) : ∀ file ∈ (w.load path text isLibrary).files, file.Parsed := by
  intro file member
  rcases List.mem_append.mp member with old | new
  · exact parsed file (List.mem_filter.mp old).1
  · cases List.mem_singleton.mp new
    exact ⟨⟨w.nextSerial, rfl⟩, rfl, rfl⟩

theorem checked_rebuild {index : Index} {later : Workspace}
    (built : w.rebuild = (.ok index, later)) : later.Checked ∧ later.files = w.files := by
  obtain ⟨rfl, findings, memo, ran, rfl⟩ := rebuild_ok built
  exact ⟨⟨rfl, ran⟩, rfl⟩

end Workspace

namespace Session

variable {session : Session}

theorem Read.load (read : session.Read) (path text : String) (isLibrary : Bool) :
    (session.change (.load path text isLibrary)).Read :=
  ⟨Workspace.parsed_load read.parsed path text isLibrary, fun isReady => (by cases isReady)⟩

theorem Read.reindex (read : session.Read) (consistent : session.Consistent) :
    (session.change .reindex).Read := by
  have files := (Workspace.rebuild_files session.workspace).1
  change (outcome Session.reindex session).2.Read
  rw [outcome_reindex]
  split
  · next isEmpty =>
    rcases built : session.workspace.rebuild with ⟨failure | index, later⟩
    · rw [built] at files
      refine ⟨files ▸ read.parsed, fun ready => ?_⟩
      simp [isReady, isEmpty] at ready
    · obtain ⟨checked, same⟩ := Workspace.checked_rebuild built
      exact ⟨same ▸ read.parsed, fun _ => checked⟩
  · split
    · next isDirty =>
      rcases built : session.workspace.rebuild with ⟨failure | index, later⟩
      · rw [built] at files
        refine ⟨files ▸ read.parsed, fun ready => ?_⟩
        simp [isReady, consistent.dirty isDirty] at ready
      · obtain ⟨checked, same⟩ := Workspace.checked_rebuild built
        exact ⟨same ▸ read.parsed, fun _ => checked⟩
    · exact read

/-- After any texts were loaded, and the index was built at any time. -/
theorem after_read {changes : List Change} (reads : ∀ change ∈ changes, change.reads = true) :
    (after changes).Read := by
  have from_ (session : Session) (consistent : session.Consistent) (read : session.Read) :
      (changes.foldl Session.change session).Read := by
    induction changes generalizing session with
    | nil => exact read
    | cons first rest ih =>
      have isReading := reads first List.mem_cons_self
      refine ih (fun change member => reads change (List.mem_cons_of_mem _ member)) _
        (consistent.change first) ?_
      cases first with
      | load path text isLibrary => exact read.load path text isLibrary
      | reindex => exact read.reindex consistent
      | loadModel symbols source => cases isReading
      | applyEntries entries => cases isReading
      | importDocument document source => cases isReading
  exact from_ {} consistent_new ⟨fun _ member => (by cases member), fun isReady => (by cases isReady)⟩

end Session

end Sysml

/-! ## What is exported of the model -/

namespace Sysml

open Scope Workspace

theorem Symbol.Written.renumber {symbol : Symbol} {file : String} {isLibrary : Bool}
    (written : symbol.Written file isLibrary) (serial : Nat) :
    { symbol with serial }.Written file isLibrary :=
  ⟨written.file, written.library, written.elementId, written.name, written.qualifiedName,
    written.unnamed, written.owner, written.shortName, written.references, written.imports⟩

theorem symbolMarks_numbered (first : Nat) (symbols : List Symbol) :
    Notation.symbolMarks (numbered first symbols) = Notation.symbolMarks symbols := by
  have alike {α : Type} (field : Symbol → α)
      (keeps : ∀ (symbol : Symbol) (serial : Nat), field { symbol with serial } = field symbol) :
      (numbered first symbols).map field = symbols.map field := by
    apply List.ext_getElem
    · simp [numbered]
    · intro i _ _
      simp [numbered, keeps]
  have references := alike (·.references) fun _ _ => rfl
  have imports := alike (·.imports) fun _ _ => rfl
  have marks (symbols : List Symbol) : Notation.symbolMarks symbols =
      (symbols.map (·.references)).flatMap (·.map (·.span.start)) ++
        (symbols.map (·.imports)).flatMap (·.map (·.span.start)) := by
    simp [Notation.symbolMarks, Notation.referencesOf, Notation.ownedImports, List.map_flatMap,
      List.flatMap_map, Function.comp_def]
  rw [marks, marks, references, imports]

/-- Where all that symbols have starts at different places, the start tells which it is
and whose. -/
theorem eq_of_start {α : Type} (items : Symbol → List α) (start : α → Position)
    {symbols : List Symbol}
    (distinct : ((symbols.flatMap fun symbol => (items symbol).map (symbol, ·)).map
      fun pair => start pair.2).Nodup)
    {one other : Symbol} {first second : α} (oneIn : one ∈ symbols) (firstIn : first ∈ items one)
    (otherIn : other ∈ symbols) (secondIn : second ∈ items other)
    (same : start first = start second) : one = other ∧ first = second := by
  have pairs : (one, first) = (other, second) :=
    List.inj_on_of_nodup_map distinct
      (List.mem_flatMap_of_mem oneIn (List.mem_map_of_mem firstIn))
      (List.mem_flatMap_of_mem otherIn (List.mem_map_of_mem secondIn)) same
  exact ⟨congrArg Prod.fst pairs, congrArg Prod.snd pairs⟩

namespace SourceFile.Parsed

variable {file : SourceFile} (parsed : file.Parsed)

include parsed

theorem written : ∀ symbol ∈ file.symbols, symbol.Written file.path file.isLibrary := by
  intro symbol member
  obtain ⟨first, same⟩ := parsed.symbols
  rw [same] at member
  obtain ⟨old, inside, serial, rfl⟩ := mem_numbered member
  exact (Notation.parse_written file.path file.text file.isLibrary old inside).renumber serial

/-- The owner of a symbol is a symbol of the file. -/
theorem owner {symbol : Symbol} (member : symbol ∈ file.symbols) {owner : Key}
    (owned : symbol.owner = some owner) :
    ∃ holder ∈ file.symbols, holder.qualifiedName = owner := by
  obtain ⟨first, same⟩ := parsed.symbols
  rw [same] at member ⊢
  obtain ⟨old, inside, serial, rfl⟩ := mem_numbered member
  obtain ⟨holder, holds, named⟩ :=
    Notation.parse_owner file.path file.text file.isLibrary old inside owner owned
  obtain ⟨place, bound, rfl⟩ := List.getElem_of_mem holds
  exact ⟨_, List.mem_mapIdx.mpr ⟨place, bound, rfl⟩, named⟩

/-- No two references or imports of the file start at the same place. -/
theorem marks_nodup :
    (Notation.symbolMarks file.symbols ++ file.imports.map (·.span.start)).Nodup := by
  obtain ⟨first, same⟩ := parsed.symbols
  rw [same, symbolMarks_numbered, parsed.imports]
  exact Notation.parse_marks_nodup ..

/-- An import outside of any declaration starts where no other one does. -/
theorem root_span_ne {symbol : Symbol} {i root : Import} (inside : symbol ∈ file.symbols)
    (owned : i ∈ symbol.imports) (outer : root ∈ file.imports) : root.span ≠ i.span := by
  intro same
  have isOwned : i.span.start ∈ Notation.symbolMarks file.symbols := by
    refine List.mem_append_right _ (List.mem_map.mpr ⟨(symbol, i), ?_, rfl⟩)
    exact List.mem_flatMap_of_mem inside (List.mem_map_of_mem owned)
  have isRoot : root.span.start ∈ file.imports.map (·.span.start) :=
    List.mem_map_of_mem outer
  exact (List.nodup_append.mp parsed.marks_nodup).2.2 _ isOwned _ isRoot
    (congrArg Span.start same.symm)

theorem faults_syntax : ∀ fault ∈ file.faults,
    fault.finding.isUnresolved = false ∧ fault.finding.isUnresolvedImport = false := by
  intro fault member
  rw [parsed.faults] at member
  obtain ⟨_, _, rfl⟩ := List.mem_map.mp member
  exact ⟨rfl, rfl⟩

end SourceFile.Parsed

def Reported (found : List Diagnostic) (codes : List String) (span : Span) : Prop :=
  ∃ diagnostic ∈ found, diagnostic.span = span ∧ diagnostic.finding.code ∈ codes

section Reports

variable {file : SourceFile} {index : Index} {memo : Memo} {found : List Diagnostic}
  {symbol : Symbol} (parsed : file.Parsed) (told : TellsFile index memo file found)
  (inside : symbol ∈ file.symbols)

include parsed told inside

/-- The references that mean nothing are those that are reported. -/
theorem reference_reported {reference : Reference} (has : reference ∈ symbol.references) :
    Reported (file.faults ++ found) ["E0101", "E0102", "E0103"] reference.span ↔
      meaning index memo symbol reference = none := by
  obtain ⟨outer, inner, rfl, noReference, _, tells⟩ := told.symbols
  constructor
  · rintro ⟨diagnostic, member, span, code⟩
    have about := (Finding.code_unresolved diagnostic.finding).mp code
    have isInner : diagnostic ∈ aboutReferences inner := by
      rcases List.mem_append.mp member with fault | member
      · rw [(parsed.faults_syntax diagnostic fault).1] at about
        cases about
      · rcases List.mem_append.mp member with first | second
        · have : diagnostic ∈ aboutReferences outer := List.mem_filter.mpr ⟨first, about⟩
          rw [noReference] at this
          cases this
        · exact List.mem_filter.mpr ⟨second, about⟩
    rw [tells.missing] at isInner
    obtain ⟨other, otherIn, listed⟩ := List.mem_flatMap.mp isInner
    obtain ⟨asked, askedIn, isMissing⟩ := List.mem_filterMap.mp listed
    unfold missing at isMissing
    split at isMissing
    · cases isMissing
    · next noTarget =>
      cases isMissing
      have distinct := (List.nodup_append.mp (List.nodup_append.mp parsed.marks_nodup).1).1
      obtain ⟨rfl, rfl⟩ := eq_of_start (·.references) (·.span.start) distinct otherIn askedIn
        inside has (congrArg Span.start span)
      simpa using noTarget
  · intro nothing
    have isMissing : missing index memo symbol reference =
        some ⟨symbol.file, reference.span, .unresolved reference.kind reference.target.display⟩ := by
      rw [missing, nothing]
      rfl
    have listed : (⟨symbol.file, reference.span,
        .unresolved reference.kind reference.target.display⟩ : Diagnostic) ∈
          aboutReferences inner := by
      rw [tells.missing]
      exact List.mem_flatMap_of_mem inside (List.mem_filterMap.mpr ⟨reference, has, isMissing⟩)
    refine ⟨_, List.mem_append_right _ (List.mem_append_right _ (List.mem_filter.mp listed).1), rfl,
      (Finding.code_unresolved _).mpr rfl⟩

/-- The imports that name nothing are those that are reported. -/
theorem import_reported {i : Import} (has : i ∈ symbol.imports) :
    Reported (file.faults ++ found) ["W0301"] i.span ↔
      naming index (some symbol.qualifiedName) i = none := by
  obtain ⟨outer, inner, rfl, _, roots, tells⟩ := told.symbols
  constructor
  · rintro ⟨diagnostic, member, span, code⟩
    have about := (Finding.code_unresolvedImport diagnostic.finding).mp (List.mem_singleton.mp code)
    have isInner : diagnostic ∈ aboutImports inner := by
      rcases List.mem_append.mp member with fault | member
      · rw [(parsed.faults_syntax diagnostic fault).2] at about
        cases about
      · rcases List.mem_append.mp member with first | second
        · have isRoot : diagnostic ∈ aboutImports outer := List.mem_filter.mpr ⟨first, about⟩
          rw [roots] at isRoot
          obtain ⟨root, rootIn, isMissing⟩ := List.mem_filterMap.mp isRoot
          unfold missingImport at isMissing
          split at isMissing
          · cases isMissing
          · cases isMissing
            exact absurd span (parsed.root_span_ne inside has rootIn)
        · exact List.mem_filter.mpr ⟨second, about⟩
    rw [tells.missingImports] at isInner
    obtain ⟨other, otherIn, listed⟩ := List.mem_flatMap.mp isInner
    obtain ⟨asked, askedIn, isMissing⟩ := List.mem_filterMap.mp listed
    unfold missingImport at isMissing
    split at isMissing
    · cases isMissing
    · next noTarget =>
      cases isMissing
      have distinct := (List.nodup_append.mp (List.nodup_append.mp parsed.marks_nodup).1).2.1
      obtain ⟨rfl, rfl⟩ := eq_of_start (·.imports) (·.span.start) distinct otherIn askedIn
        inside has (congrArg Span.start span)
      simpa using noTarget
  · intro nothing
    have isMissing : missingImport index file.path (some symbol.qualifiedName) i =
        some ⟨file.path, i.span, .unresolvedImport i.text.display⟩ := by
      rw [missingImport, nothing]
      rfl
    have listed : (⟨file.path, i.span, .unresolvedImport i.text.display⟩ : Diagnostic) ∈
        aboutImports inner := by
      rw [tells.missingImports]
      exact List.mem_flatMap_of_mem inside (List.mem_filterMap.mpr ⟨i, has, isMissing⟩)
    exact ⟨_, List.mem_append_right _ (List.mem_append_right _ (List.mem_filter.mp listed).1), rfl,
      List.mem_singleton.mpr ((Finding.code_unresolvedImport _).mpr rfl)⟩

end Reports

/-- What is found for a file under its path. -/
theorem lookup_related {relation : SourceFile → List Diagnostic → Prop} {files : List SourceFile}
    {entries : List (String × List Diagnostic)}
    (related : List.Forall₂ (fun file entry => entry.1 = file.path ∧ relation file entry.2)
      files entries)
    (paths : (files.map (·.path)).Nodup) {file : SourceFile} (member : file ∈ files) :
    ∃ found, entries.lookup file.path = some found ∧ relation file found := by
  induction related with
  | nil => cases member
  | @cons first entry files entries holds rest ih =>
    obtain ⟨path, about⟩ := holds
    have apart := List.nodup_cons.mp paths
    rw [List.lookup_cons, path]
    rcases List.mem_cons.mp member with rfl | later
    · exact ⟨entry.2, by simp, about⟩
    · have other : (file.path == first.path) = false := by
        rw [beq_eq_false_iff_ne]
        exact fun same => apart.1 (List.mem_map.mpr ⟨file, later, same⟩)
      simp only [other]
      exact ih apart.2 later

/-- The model's own symbols are those of the files that are no libraries. -/
theorem Workspace.ownSymbols_file {w : Workspace} {symbol : Symbol}
    (own : symbol ∈ w.ownSymbols) :
    ∃ file ∈ w.files, file.isLibrary = false ∧ symbol ∈ file.symbols := by
  obtain ⟨file, inside, has⟩ := List.mem_flatMap.mp (List.mem_filter.mp own).1
  exact ⟨file, (List.mem_filter.mp inside).1, by simpa using (List.mem_filter.mp inside).2, has⟩

namespace Session.Read

variable {session : Session} (read : session.Read) (tidy : session.workspace.Tidy)
  (checked : session.workspace.Checked)

include read

theorem written (imports : List (String × List Import)) :
    (Index.build session.workspace.symbols imports).Written := by
  intro symbol member
  obtain ⟨file, inside, has⟩ := List.mem_flatMap.mp member
  exact ⟨file.path, file.isLibrary, (read.parsed file inside).written symbol has⟩

include tidy checked

/-- The findings of each file that is no library tell of its references and imports. -/
theorem tells {file : SourceFile} (member : file ∈ session.workspace.files)
    (user : file.isLibrary = false) :
    ∃ found, session.workspace.findings.lookup file.path = some found ∧
      TellsFile (Index.build session.workspace.symbols session.workspace.rootImports)
        session.workspace.memo file found := by
  have unbound : ∀ file ∈ session.workspace.files, ∀ symbol ∈ file.symbols, Unbound symbol := by
    intro file inside symbol has reference asked
    have isWritten := ((read.parsed file inside).written symbol has).references reference asked
    rw [isWritten.targetId]
    rfl
  have related := checkFiles_tells (Index.build_idsWithin _ _) (fun _ member => (by cases member))
    unbound checked.check fun _ _ was => was
  exact lookup_related related (tidy.paths.sublist (List.filter_sublist.map _))
    (List.mem_filter.mpr ⟨member, by simp [user]⟩)

theorem answered {symbol : Symbol} (own : symbol ∈ session.workspace.ownSymbols) :
    Answered (Index.build session.workspace.symbols session.workspace.rootImports)
      session.workspace.memo symbol := by
  obtain ⟨file, inside, user, has⟩ := ownSymbols_file own
  obtain ⟨found, _, told⟩ := read.tells tidy checked inside user
  obtain ⟨outer, inner, _, _, _, tells⟩ := told.symbols
  exact ⟨tells.references symbol has, tells.imports symbol has, fun i owned =>
    ⟨_, (((read.parsed file inside).written symbol has).imports i owned).link? _⟩⟩

end Session.Read

/-- The relationship of a reference to what it means, but for the id. -/
def Reference.relationship (index : Index) (symbol : Symbol) (reference : Reference)
    (target : Symbol) : Record :=
  { id := .text "", kind := reference.kind.metaclass
    owner := some (Draft.idOf index symbol), source := some (Draft.idOf index symbol)
    target := some (Draft.idOf index target), provenance := .text Record.modelProvenance }

/-- The relationship of an import to what it names, but for the id. -/
def Import.relationship (index : Index) (symbol : Symbol) (i : Import) (target : Symbol) :
    Record :=
  { id := .text ""
    kind :=
      if i.isNamespace || i.isRecursive then Record.namespaceImport else Record.membershipImport
    name := target.name.value
    owner := some (Draft.idOf index symbol), source := some (Draft.idOf index symbol)
    target := some (Draft.idOf index target)
    properties := [(.text "isRecursive", .bool i.isRecursive),
      (.text "visibility", .text i.visibility)]
    provenance := .text Record.modelProvenance }

/-- The relationships of a symbol that was read from a text of the model's own. -/
theorem links_relationships {index : Index} {memo : Memo} {symbol : Symbol} {file : String}
    (written : symbol.Written file false) :
    ((links index memo symbol).map fun link =>
      link.record index symbol.provenance (Draft.idOf index symbol) (.text "")) =
      (symbol.references.filterMap fun reference =>
        (meaning index memo symbol reference).map (reference.relationship index symbol)) ++
      symbol.imports.filterMap fun i =>
        (naming index (some symbol.qualifiedName) i).map (i.relationship index symbol) := by
  have provenance : symbol.provenance = Record.modelProvenance := by
    simp [Symbol.provenance, written.library]
  rw [links, List.map_append, List.map_filterMap, List.map_filterMap, provenance]
  congr 1
  · refine List.filterMap_congr fun reference member => ?_
    rw [(written.references reference member).link?, Option.map_map]
    rfl
  · refine List.filterMap_congr fun i member => ?_
    rw [(written.imports i member).link?]
    change Option.map _ (Option.map _ _) = _
    rw [Option.map_map]
    rfl

namespace Session

/-- The diagnostics of a file: the faults of its notation and what the last check found. -/
theorem outcome_checkFile {session : Session} {index : Index} (consistent : session.Consistent)
    (ready : session.isReady = true) (current : session.workspace.Current index)
    {file : SourceFile} (member : file ∈ session.workspace.files) :
    outcome (checkFile file.path) session =
      (.ok (file.faults ++ (session.workspace.findings.lookup file.path).getD []), session) := by
  unfold checkFile
  rw [outcome_bind_of_ok (outcome_require ready _), outcome_onWorkspace, Workspace.checkFile,
    consistent.tidy.file?_path member]
  dsimp only
  rw [currentIndex_of_current current]

/-- However texts were loaded: while the index is current and ids are apart, a document is
built. Its elements are one for each id of the model's own symbols, in their order; its
relationships are one for each of their references that means something and each of their
imports that names something, in order; and those that mean or name nothing are those that
are reported of the file. -/
theorem buildDocument_complete {changes : List Change} {session : Session} {index : Index}
    (reads : ∀ change ∈ changes, change.reads = true) (reached : after changes = session)
    (ready : session.isReady = true) (indexed : session.workspace.index = some index)
    (apart : MintsApart (mintKeys index session.workspace.memo)) (name : Value) :
    ∃ document later,
      outcome (buildDocument false name) session = (.ok document, later) ∧
      document.elements = (firstOfEach index session.workspace.ownSymbols).map
        (Draft.elementRecord index Record.modelProvenance) ∧
      document.relationships.map Record.anonymous =
        (session.workspace.ownSymbols.flatMap fun symbol =>
          (symbol.references.filterMap fun reference =>
            (meaning index session.workspace.memo symbol reference).map
              (reference.relationship index symbol)) ++
          symbol.imports.filterMap fun i =>
            (naming index (some symbol.qualifiedName) i).map (i.relationship index symbol)) ∧
      ∀ symbol ∈ session.workspace.ownSymbols, ∃ found,
        outcome (checkFile symbol.file) session = (.ok found, session) ∧
        (∀ reference ∈ symbol.references,
          outcome (resolveReference index reference symbol) session.workspace.memo =
            (.ok (meaning index session.workspace.memo symbol reference),
              session.workspace.memo) ∧
          (Reported found ["E0101", "E0102", "E0103"] reference.span ↔
            meaning index session.workspace.memo symbol reference = none)) ∧
        ∀ i ∈ symbol.imports,
          resolveImport index i (some symbol.qualifiedName) =
            .ok (naming index (some symbol.qualifiedName) i) ∧
          (Reported found ["W0301"] i.span ↔
            naming index (some symbol.qualifiedName) i = none) := by
  subst reached
  have consistent := after_consistent changes
  have read := after_read reads
  have checked := read.checked ready
  have tidy := consistent.tidy
  obtain ⟨other, current⟩ := consistent.current ready
  obtain rfl : other = index := Option.some.inj (current.found.symm.trans indexed)
  have built : other = Index.build (after changes).workspace.symbols
      (after changes).workspace.rootImports :=
    Option.some.inj (indexed.symm.trans checked.found)
  have written : other.Written := built ▸ read.written _
  have answered : ∀ symbol ∈ (after changes).workspace.ownSymbols,
      Answered other (after changes).workspace.memo symbol := by
    intro symbol own
    rw [built]
    exact read.answered tidy checked own
  have listed : (after changes).workspace.ownSymbols.Sublist other.symbols := by
    rw [current.symbols]
    exact List.filter_sublist.trans (List.filter_sublist.flatMap _)
  have serials : (other.symbols.map (·.serial)).Nodup := current.symbols ▸ tidy.serials
  have user : ∀ symbol ∈ (after changes).workspace.ownSymbols, symbol.isLibrary = false := by
    intro symbol own
    simpa using (List.mem_filter.mp own).2
  have modelled : ∀ symbol ∈ (after changes).workspace.ownSymbols,
      symbol.provenance = Record.modelProvenance := by
    intro symbol own
    simp [Symbol.provenance, user symbol own]
  obtain ⟨draft, composed, underway⟩ :=
    Draft.compose_ends apart written current.ids listed serials user answered
  have ran := outcome_buildDocument consistent ready current false name
  rw [composed] at ran
  refine ⟨documentOf draft false name, _, ran, ?_, ?_, ?_⟩
  · refine (underway.composed.elements apart written listed.subset).trans ?_
    refine List.map_congr_left fun symbol member => ?_
    rw [modelled symbol (firstOfEach_subset _ _ member)]
  · refine underway.composed.relationships.trans ?_
    refine List.flatMap_congr fun symbol own => ?_
    obtain ⟨file, inside, isUser, has⟩ := Workspace.ownSymbols_file own
    exact links_relationships (isUser ▸ (read.parsed file inside).written symbol has)
  · intro symbol own
    obtain ⟨file, inside, isUser, has⟩ := Workspace.ownSymbols_file own
    have parsed := read.parsed file inside
    obtain ⟨found, looked, told⟩ := read.tells tidy checked inside isUser
    rw [← built] at told
    have diagnostics := outcome_checkFile consistent ready current inside
    rw [looked] at diagnostics
    refine ⟨file.faults ++ found, ?_, fun reference asked => ⟨?_, ?_⟩, fun i owned => ⟨?_, ?_⟩⟩
    · rw [(parsed.written symbol has).file]
      exact diagnostics
    · exact (answered symbol own).references reference asked
    · exact reference_reported parsed told has asked
    · exact (answered symbol own).imports i owned
    · exact import_reported parsed told has owned

/-- A definition that specializes another and has an import that names nothing: two
elements and one relationship. -/
theorem buildDocument_complete_unnamed :
    ∃ session index document later,
      after [.load "a.sysml" "part def A :> B { import Z; }\npart def B;" false, .reindex] =
        session ∧
      outcome (buildDocument false (.text "model")) session = (.ok document, later) ∧
      document.elements = (firstOfEach index session.workspace.ownSymbols).map
        (Draft.elementRecord index Record.modelProvenance) ∧
      document.elements.length = 2 ∧ document.relationships.length = 1 := by
  generalize reached : after
    [.load "a.sysml" "part def A :> B { import Z; }\npart def B;" false, .reindex] = session
  have reads : ∀ change ∈ ([.load "a.sysml" "part def A :> B { import Z; }\npart def B;" false,
      .reindex] : List Change), change.reads = true := by decide
  have found : session.isReady = true ∧
      ((mintKeys (Index.build session.workspace.symbols session.workspace.rootImports)
        session.workspace.memo).map fun key => Document.mintId key.1 key.2).Nodup ∧
      (outcome (buildDocument false (.text "model")) session).1.toOption.map
        (fun document => (document.elements.length, document.relationships.length)) =
          some (2, 1) := by
    subst reached
    decide +kernel
  obtain ⟨ready, minted, counted⟩ := found
  have indexed := ((reached ▸ after_read reads).checked ready).found
  obtain ⟨document, later, ran, elements, _⟩ :=
    buildDocument_complete reads reached ready indexed (mintsApart_of_nodup minted) (.text "model")
  rw [ran] at counted
  have counts := Prod.mk.inj (Option.some.inj counted)
  exact ⟨session, _, document, later, rfl, ran, elements, counts.1, counts.2⟩

end Session

end Sysml

/-! ## What is taken from libraries -/

namespace Sysml

open Scope

namespace Session

/-- What the document of a session that only read texts was made of, where library
elements become part of it or no file is a library. -/
theorem buildDocument_gathers {changes : List Change} {session later : Session} {index : Index}
    (reads : ∀ change ∈ changes, change.reads = true) (reached : after changes = session)
    (indexed : session.workspace.index = some index) {selfContained : Bool}
    (own : selfContained = false → ∀ file ∈ session.workspace.files, file.isLibrary = false)
    {name : Value} {document : Document}
    (built : outcome (buildDocument selfContained name) session = (.ok document, later)) :
    index.Written ∧ index.symbols = session.workspace.symbols ∧
      (selfContained = false → ∀ symbol ∈ index.symbols, symbol.isLibrary = false) ∧
      document.externalRefs = [] ∧
      ∃ taken, Gathered index later.workspace.memo taken document.records := by
  subst reached
  have consistent := after_consistent changes
  have read := after_read reads
  obtain ⟨other, draft, ready, current, composed, rfl⟩ := buildDocument_ok consistent built
  obtain rfl : other = index := Option.some.inj (current.found.symm.trans indexed)
  have whole : other = Index.build (after changes).workspace.symbols
      (after changes).workspace.rootImports :=
    Option.some.inj (indexed.symm.trans (read.checked ready).found)
  have written : other.Written := whole ▸ read.written _
  have serials : (other.symbols.map (·.serial)).Nodup :=
    current.symbols ▸ consistent.tidy.serials
  have user : selfContained = false → ∀ symbol ∈ other.symbols, symbol.isLibrary = false := by
    intro plain symbol member
    rw [current.symbols] at member
    obtain ⟨file, inside, has⟩ := List.mem_flatMap.mp member
    rw [((read.parsed file inside).written symbol has).library, own plain file inside]
  have remembered : later.workspace.memo = draft.memo := by
    rw [outcome_buildDocument consistent ready current, composed] at built
    cases built
    rfl
  have plain : selfContained = true ∨ ∀ symbol ∈ other.symbols, symbol.isLibrary = false := by
    cases selfContained with
    | true => exact .inl rfl
    | false => exact .inr (user rfl)
  rw [consistent.tidy.ownSymbols_eq, ← current.symbols] at composed
  obtain ⟨taken, gathered, external⟩ :=
    Draft.compose_gathers current.ids written plain serials current.memo composed
  exact ⟨written, current.symbols, user, external, taken, remembered ▸ gathered⟩

/-- A symbol that was read from a text and its owner stand in one file. -/
theorem Read.owner_library {session : Session} {index : Index} (read : session.Read)
    (written : index.Written) (same : index.symbols = session.workspace.symbols)
    (names : (index.symbols.map (·.qualifiedName)).Nodup) {symbol owner : Symbol}
    (known : symbol ∈ index.symbols) (owned : Draft.ownerOf index symbol = some owner) :
    owner.isLibrary = symbol.isLibrary := by
  obtain ⟨name, given, looked⟩ := Option.bind_eq_some_iff.mp owned
  obtain ⟨file, inside, has⟩ := List.mem_flatMap.mp (same ▸ known)
  have parsed := read.parsed file inside
  obtain ⟨holder, holds, isName⟩ := parsed.owner has (Option.filter_eq_some_iff.mp given).1
  have holderIn : holder ∈ index.symbols := same ▸ List.mem_flatMap_of_mem inside holds
  have ownerIn := Draft.ownerOf_mem owned
  have equal : (owner.qualifiedName == holder.qualifiedName) = true := by
    rw [isName]
    simpa using List.find?_some looked
  obtain rfl := List.inj_on_of_nodup_map names ownerIn holderIn
    ((written.name_beq ownerIn holderIn).mp equal)
  rw [(parsed.written _ holds).library, (parsed.written symbol has).library]

/-- A self-contained document refers to nothing but its own elements. These are, each once,
the model's own symbols and the library symbols that they need, and what all of these refer
to is what their references and imports are resolved to after the document was built. -/
theorem buildDocument_inlines {changes : List Change} {session later : Session} {index : Index}
    (reads : ∀ change ∈ changes, change.reads = true) (reached : after changes = session)
    (indexed : session.workspace.index = some index)
    (named : ∀ symbol ∈ index.symbols, symbol.name ≠ .text "")
    (names : (index.symbols.map (·.qualifiedName)).Nodup) {name : Value} {document : Document}
    (built : outcome (buildDocument true name) session = (.ok document, later))
    (apart : MintsApart (mintKeys index later.workspace.memo)) :
    document.externalRefs = [] ∧
      (∀ record ∈ document.records, ∀ id,
        record.owner = some id ∨ record.source = some id ∨ record.target = some id →
          ∃ element ∈ document.elements, element.id = id) ∧
      document.ids.Nodup ∧
      ∃ symbols : List Symbol, symbols.Nodup ∧
        (∀ symbol, symbol ∈ symbols ↔ symbol ∈ index.symbols ∧
          (symbol.isLibrary = false ∨ Needed index later.workspace.memo symbol)) ∧
        document.elements = (symbols.map fun symbol =>
          Draft.elementRecord index
            (if symbol.isLibrary then Record.inlinedProvenance else Record.modelProvenance)
            symbol) ∧
        ∀ symbol ∈ symbols,
          (∀ reference ∈ symbol.references, ∃ meant,
            outcome (resolveReference index reference symbol) later.workspace.memo =
              (.ok meant, later.workspace.memo)) ∧
          ∀ i ∈ symbol.imports, ∃ found,
            resolveImport index i (some symbol.qualifiedName) = .ok found := by
  obtain ⟨written, same, user, external, taken, gathered⟩ :=
    buildDocument_gathers reads reached indexed (fun plain => (by cases plain)) built
  have portable := gathered.portable written apart (namesApart_of_nodup names) named user rfl
    external
  have read : session.Read := reached ▸ after_read reads
  have owners : ∀ symbol ∈ index.symbols, symbol.isLibrary = false → ∀ owner,
      Draft.ownerOf index symbol = some owner → owner.isLibrary = false := by
    intro symbol known own owner owned
    rw [read.owner_library written same names known owned, own]
  have kept {symbol : Symbol} : symbol ∈ firstOfEach index taken ↔ symbol ∈ taken :=
    gathered.mem_firstOfEach written apart names
  refine ⟨external, fun record member id isEnd => portable.ends member isEnd, portable.ids,
    firstOfEach index taken, ?_, ?_, ?_, ?_⟩
  · refine (firstOfEach_apart index taken).imp fun isApart same => ?_
    rw [same, BEq.rfl] at isApart
    cases isApart
  · intro symbol
    rw [kept]
    constructor
    · exact fun isTaken => ⟨gathered.inside isTaken,
        gathered.taken_needed written apart names owners isTaken⟩
    · rintro ⟨known, own | needed⟩
      · exact gathered.own_taken known own
      · exact gathered.needed_taken written apart names needed
  · exact gathered.composed.elements apart written gathered.inside
  · intro symbol member
    have answered := gathered.answered symbol (kept.mp member)
    exact ⟨fun reference has => ⟨_, answered.references reference has⟩,
      fun i has => ⟨_, answered.imports i has⟩⟩

/-- A definition that specializes a library definition in a package: of the library all but the
definition that nothing needs becomes part of the document. -/
theorem buildDocument_inlines_owner :
    ∃ session index document later, ∃ symbols : List Symbol,
      after [.load "lib.sysml" "package L { part def B; part def C; }" true,
        .load "a.sysml" "part def A :> L::B;" false, .reindex] = session ∧
      session.workspace.index = some index ∧ index.symbols.length = 4 ∧
      outcome (buildDocument true (.text "model")) session = (.ok document, later) ∧
      document.externalRefs = [] ∧ document.elements.length = 3 ∧
      (∀ symbol, symbol ∈ symbols ↔ symbol ∈ index.symbols ∧
        (symbol.isLibrary = false ∨ Needed index later.workspace.memo symbol)) ∧
      document.elements = symbols.map fun symbol =>
        Draft.elementRecord index
          (if symbol.isLibrary then Record.inlinedProvenance else Record.modelProvenance) symbol := by
  generalize reached : after [.load "lib.sysml" "package L { part def B; part def C; }" true,
    .load "a.sysml" "part def A :> L::B;" false, .reindex] = session
  have reads : ∀ change ∈ ([.load "lib.sysml" "package L { part def B; part def C; }" true,
      .load "a.sysml" "part def A :> L::B;" false, .reindex] : List Change),
      change.reads = true := by decide
  have found : session.isReady = true ∧ session.workspace.symbols.length = 4 ∧
      "" ∉ session.workspace.symbols.map (·.name.display) ∧
      (session.workspace.symbols.map (·.qualifiedName.display)).Nodup ∧
      (outcome (buildDocument true (.text "model")) session).1.toOption.map
        (fun document => document.elements.length) = some 3 ∧
      ((mintKeys (Index.build session.workspace.symbols session.workspace.rootImports)
        (outcome (buildDocument true (.text "model")) session).2.workspace.memo).map
          fun key => Document.mintId key.1 key.2).Nodup := by
    subst reached
    decide +kernel
  obtain ⟨ready, known, some_, distinct, counted, minted⟩ := found
  have indexed := ((reached ▸ after_read reads).checked ready).found
  have named : ∀ symbol ∈ session.workspace.symbols, symbol.name ≠ .text "" :=
    fun symbol member empty => some_ (List.mem_map.mpr ⟨symbol, member, by rw [empty]; rfl⟩)
  have names : (session.workspace.symbols.map (·.qualifiedName)).Nodup :=
    .of_map Key.display (by rwa [List.map_map])
  have apart := mintsApart_of_nodup minted
  rcases built : outcome (buildDocument true (.text "model")) session with
    ⟨failure | document, later⟩ <;> rw [built] at counted apart
  · cases counted
  · obtain ⟨external, _, _, symbols, _, members, elements, _⟩ :=
      buildDocument_inlines reads reached indexed named names built apart
    exact ⟨session, _, document, later, symbols, rfl, indexed, known, built, external,
      Option.some.inj counted, members, elements⟩

end Session

end Sysml
