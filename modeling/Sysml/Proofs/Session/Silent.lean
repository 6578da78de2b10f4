import Mathlib.Data.List.Pairwise
import Sysml.Proofs.Document.Told
import Sysml.Proofs.Session.Complete
import Sysml.Proofs.Workspace.Findings

/-!
# Sessions without diagnostics

Where nothing is wrong with the texts that were read, all references mean something, and the
document that is built is told by a text (`buildDocument_told`).
-/

set_option autoImplicit false

namespace Sysml

open Scope

theorem Symbol.Spoken.renumber {symbol : Symbol} (spoken : symbol.Spoken) (serial : Nat) :
    { symbol with serial }.Spoken :=
  ⟨spoken.kind, spoken.direction, spoken.plain, spoken.doc, spoken.placed⟩

/-- The symbols of a file without faults are as they have to be. -/
theorem SourceFile.Parsed.spoken {file : SourceFile} (parsed : file.Parsed)
    (clean : file.faults = []) : ∀ symbol ∈ file.symbols, symbol.Spoken := by
  intro symbol member
  obtain ⟨first, same⟩ := parsed.symbols
  rw [same] at member
  obtain ⟨old, inside, serial, rfl⟩ := Workspace.mem_numbered member
  exact (Notation.parse_spoken (parsed.faults.symm.trans clean) old inside).renumber serial

namespace Session

/-- No diagnostic is given for any file. -/
def Silent (session : Session) : Prop :=
  ∀ path, (outcome (checkFile path) session).1 = .ok []

theorem Silent.ready {session : Session} (silent : session.Silent) : session.isReady = true := by
  cases ready : session.isReady with
  | true => rfl
  | false =>
    have nothing := silent ""
    rw [checkFile, outcome_bind, require, outcome_bind_of_ok (outcome_get session), ready] at nothing
    cases nothing

/-- A session is silent where nothing is wrong with any of its files. -/
theorem after_silent {changes : List Change} (ready : (after changes).isReady = true)
    (nothing : ((after changes).workspace.files.all fun file => file.faults.isEmpty &&
      (((after changes).workspace.findings.lookup file.path).getD []).isEmpty) = true) :
    (after changes).Silent := by
  intro path
  have consistent := after_consistent changes
  obtain ⟨index, current⟩ := consistent.current ready
  cases found : (after changes).workspace.file? path with
  | none =>
    unfold checkFile
    rw [outcome_bind_of_ok (outcome_require ready _), outcome_onWorkspace, Workspace.checkFile,
      found]
  | some file =>
    have inside := List.mem_of_find?_eq_some found
    have isPath : (file.path == path) = true :=
      List.find?_some (p := fun file : SourceFile => file.path == path) found
    obtain rfl : file.path = path := beq_iff_eq.mp isPath
    have clean := List.all_eq_true.mp nothing file inside
    rw [Bool.and_eq_true, List.isEmpty_iff, List.isEmpty_iff] at clean
    rw [outcome_checkFile consistent ready current inside, clean.1, clean.2]
    rfl

section Texts

variable {changes : List Change} {session : Session} {index : Index}
  (reads : ∀ change ∈ changes, change.reads = true) (reached : after changes = session)
  (user : ∀ file ∈ session.workspace.files, file.isLibrary = false) (silent : session.Silent)

include reads reached user silent

/-- A file has no faults, and nothing is found for it. -/
theorem Silent.nothing {file : SourceFile} (inside : file ∈ session.workspace.files) :
    file.faults = [] ∧ session.workspace.findings.lookup file.path = some [] := by
  subst reached
  have consistent := after_consistent changes
  obtain ⟨index, current⟩ := consistent.current silent.ready
  have checked := (after_read reads).checked silent.ready
  obtain ⟨found, looked, _⟩ :=
    (after_read reads).tells consistent.tidy checked inside (user file inside)
  have diagnostics := congrArg Prod.fst (outcome_checkFile consistent silent.ready current inside)
  rw [silent file.path, looked] at diagnostics
  obtain ⟨noFault, nothing⟩ := List.append_eq_nil_iff.mp (Except.ok.inj diagnostics).symm
  obtain rfl : found = [] := nothing
  exact ⟨noFault, looked⟩

/-- A file has no faults, and nothing was found in it. -/
theorem Silent.findings {file : SourceFile} (inside : file ∈ session.workspace.files) :
    file.faults = [] ∧
      Workspace.TellsFile (Index.build session.workspace.symbols session.workspace.rootImports)
        session.workspace.memo file [] := by
  obtain ⟨noFault, nothing⟩ := silent.nothing reads reached user inside
  subst reached
  obtain ⟨found, looked, tells⟩ := (after_read reads).tells (after_consistent changes).tidy
    ((after_read reads).checked silent.ready) inside (user file inside)
  obtain rfl : found = [] := Option.some.inj (looked.symm.trans nothing)
  exact ⟨noFault, tells⟩

omit user in
/-- All that is known was read from a file. -/
theorem Silent.file (indexed : session.workspace.index = some index) {symbol : Symbol}
    (known : symbol ∈ index.symbols) :
    ∃ file ∈ session.workspace.files, file.Parsed ∧ symbol ∈ file.symbols := by
  subst reached
  have read := after_read reads
  obtain rfl : index = Index.build (after changes).workspace.symbols
      (after changes).workspace.rootImports :=
    Option.some.inj (indexed.symm.trans (read.checked silent.ready).found)
  obtain ⟨file, inside, has⟩ := List.mem_flatMap.mp known
  exact ⟨file, inside, read.parsed file inside, has⟩

/-- All that is known is as a text without faults gives it. -/
theorem Silent.spoken (indexed : session.workspace.index = some index) :
    ∀ symbol ∈ index.symbols, symbol.Spoken := by
  intro symbol known
  obtain ⟨file, inside, parsed, has⟩ := silent.file reads reached indexed known
  exact parsed.spoken (silent.nothing reads reached user inside).1 symbol has

/-- The index of a session without diagnostics is clear where names are legible and minted ids
stay apart. -/
theorem Silent.clear (indexed : session.workspace.index = some index)
    (legible : ∀ symbol ∈ index.symbols, symbol.Legible)
    (apart : MintsApart (mintKeys index session.workspace.memo)) :
    index.Clear session.workspace.memo := by
  have spoken := silent.spoken reads reached user indexed
  have file_of {symbol : Symbol} (known : symbol ∈ index.symbols) :=
    silent.file reads reached indexed known
  have told {file : SourceFile} (inside : file ∈ session.workspace.files) :=
    silent.findings reads reached user inside
  subst reached
  have read := after_read reads
  obtain rfl : index = Index.build (after changes).workspace.symbols
      (after changes).workspace.rootImports :=
    Option.some.inj (indexed.symm.trans (read.checked silent.ready).found)
  refine ⟨read.written _, apart, spoken, legible, ?_, ?_⟩
  · intro symbol known owner owned
    obtain ⟨file, inside, parsed, has⟩ := file_of known
    obtain ⟨holder, holds, isHolder⟩ := parsed.owner has owned
    exact ⟨holder, List.mem_flatMap_of_mem inside holds, isHolder⟩
  · intro symbol known reference asked nothing
    obtain ⟨file, inside, parsed, has⟩ := file_of known
    obtain ⟨noFault, tells⟩ := told inside
    obtain ⟨diagnostic, member, _⟩ := (reference_reported parsed tells has asked).mpr nothing
    simp [noFault] at member

/-- No symbol is a duplicate. -/
theorem Silent.duplicates (indexed : session.workspace.index = some index) : ∀ symbol ∈ index.symbols,
    symbol.serial ∉ Workspace.duplicates [] index.symbols := by
  intro symbol known duplicate
  obtain ⟨file, inside, _, has⟩ := silent.file reads reached indexed known
  obtain ⟨_, nothing⟩ := silent.nothing reads reached user inside
  subst reached
  have checked := (after_read reads).checked silent.ready
  obtain rfl : index = Index.build (after changes).workspace.symbols
      (after changes).workspace.rootImports := Option.some.inj (indexed.symm.trans checked.found)
  obtain ⟨found, looked, doubled⟩ :=
    @lookup_related (fun file found => Workspace.ReportsDoubled _ file.symbols found) _ _
      (Workspace.checkFiles_doubled checked.check)
      ((after_consistent changes).tidy.paths.sublist (List.filter_sublist.map _)) file
      (List.mem_filter.mpr ⟨inside, by simp [user file inside]⟩)
  obtain rfl : found = [] := Option.some.inj (looked.symm.trans nothing)
  have none_ := List.subset_nil.mp (doubled symbol has)
  have listed : (Workspace.duplicates [] (after changes).workspace.symbols).contains
      symbol.serial = true := List.contains_iff_mem.mpr duplicate
  rw [Workspace.doubledFindings, if_pos listed] at none_
  cases none_

/-- Only packages are declared in pieces, where all names are identifiers. -/
theorem Silent.names (indexed : session.workspace.index = some index)
    (identified : ∀ symbol ∈ index.symbols, symbol.Identified) : index.NamesApart := by
  have spoken := silent.spoken reads reached user indexed
  have isUser : ∀ symbol ∈ index.symbols, symbol.isLibrary = false := by
    intro symbol known
    obtain ⟨file, inside, parsed, has⟩ := silent.file reads reached indexed known
    rw [(parsed.written symbol has).library, user file inside]
  have apart := (Workspace.duplicates_apart (silent.duplicates reads reached user indexed)).2
  intro one oneIn other otherIn same
  obtain ⟨owners, names⟩ := (identified one oneIn).same (identified other otherIn)
    (spoken one oneIn) (spoken other otherIn) same
  by_cases isOne : one = other
  · exact .inl isOne
  · have packages := apart.forall oneIn otherIn isOne owners names
    exact .inr ⟨packages.1, packages.2, isUser one oneIn, isUser other otherIn⟩

/-- The document of texts without diagnostics is built, and a text can tell it. -/
theorem buildDocument_told (indexed : session.workspace.index = some index)
    (legible : ∀ symbol ∈ index.symbols, symbol.Legible) (names : index.NamesApart)
    (apart : MintsApart (mintKeys index session.workspace.memo)) (name : Value) :
    ∃ document exported, outcome (buildDocument false name) session = (.ok document, exported) ∧
      index.Clear session.workspace.memo ∧ document.Told ∧
      ∃ taken, Gathered index session.workspace.memo taken document.records := by
  have clear := silent.clear reads reached user indexed legible apart
  subst reached
  have consistent := after_consistent changes
  have read := after_read reads
  have ready := silent.ready
  have tidy := consistent.tidy
  obtain ⟨other, current⟩ := consistent.current ready
  obtain rfl : other = index := Option.some.inj (current.found.symm.trans indexed)
  have checked := read.checked ready
  have whole : other = Index.build (after changes).workspace.symbols
      (after changes).workspace.rootImports :=
    Option.some.inj (indexed.symm.trans checked.found)
  have listed : (after changes).workspace.ownSymbols.Sublist other.symbols := by
    rw [current.symbols]
    exact List.filter_sublist.trans (List.filter_sublist.flatMap _)
  obtain ⟨draft, composed, underway⟩ := Draft.compose_ends apart clear.written current.ids listed
    (current.symbols ▸ tidy.serials)
    (fun symbol own => by simpa using (List.mem_filter.mp own).2)
    fun symbol own => whole ▸ read.answered tidy checked own
  have ran := outcome_buildDocument consistent ready current false name
  rw [composed] at ran
  obtain ⟨_, _, isUser, external, taken, gathered⟩ :=
    buildDocument_gathers reads rfl indexed (fun _ => user) ran
  rw [show _ = (after changes).workspace.memo from underway.memo] at gathered
  have named : ∀ symbol ∈ other.symbols, symbol.name ≠ .text "" := by
    intro symbol known empty
    obtain ⟨name, someName, isName, _⟩ := (legible symbol known).name
    exact someName (Key.text_inj (isName.symm.trans empty))
  have portable := gathered.portable clear.written apart names named isUser rfl external
  exact ⟨_, _, ran, clear, gathered.told clear portable, taken, gathered⟩

end Texts

end Session

end Sysml
