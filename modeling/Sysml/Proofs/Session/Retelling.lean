import Sysml.Proofs.Document.Told
import Sysml.Proofs.Session.Reopening
import Sysml.Proofs.Workspace.Findings

/-!
# References that are told and read again

Where all names are identifiers, the qualified names that are written for the targets of
references lead to these again in a session that reads them, unless another element is in the way
(`buildDocument_refers`).
-/

set_option autoImplicit false

namespace Sysml

open Scope

/-! ## Names of their own -/

namespace QualifiedName

/-- What is cut before a separator is cut as if it ended there, unless a colon comes before. -/
theorem cut_append {points : Bool} {piece text : List Char} (ends : text.getLast? ≠ some ':')
    (more : List Char) :
    cut points piece (text ++ ':' :: ':' :: more) = cut points piece text ++ cut points [] more := by
  have further {c : Char} {rest : List Char} (ends : (c :: rest).getLast? ≠ some ':') :
      rest.getLast? ≠ some ':' := by
    cases rest with
    | nil => simp
    | cons d rest => simpa using ends
  fun_induction cut points piece text with
  | case1 piece => rfl
  | case2 piece rest ih =>
    rw [List.cons_append, List.cons_append, cut, ih (further (further ends)), List.cons_append]
  | case3 piece c rest apart isPoint ih =>
    have notColon : c ≠ ':' := by
      rintro rfl
      simp at isPoint
    rw [List.cons_append, cut, if_pos isPoint, ih (further ends), List.cons_append]
    intro _ same
    exact absurd same notColon
  | case4 piece c rest apart notPoint ih =>
    rw [List.cons_append, cut, if_neg notPoint, ih (further ends)]
    intro after same isNext
    subst same
    cases rest with
    | nil => simp at ends
    | cons d rest =>
      obtain ⟨rfl, -⟩ := List.cons.inj isNext
      exact apart rest rfl rfl

/-- The segments of a member's qualified name are those of its owner's and its name. -/
theorem segments_join {owner name : String} (ends : owner.toList.getLast? ≠ some ':')
    (some_ : name ≠ "") (noColon : ':' ∉ name.toList) (noPoint : '.' ∉ name.toList) :
    segments (join owner name) = segments owner ++ [name] := by
  have chars : (join owner name).toList = owner.toList ++ ':' :: ':' :: name.toList := by
    simp [join]
  have simple : segments name = [name] :=
    Scope.segments_simple some_ noPoint fun held => noColon (held.subset List.mem_cons_self)
  rw [← simple]
  rw [segments, segments, segments, chainPieces, chainPieces, chainPieces, chars, cut_append ends,
    List.map_append, List.filter_append]
end QualifiedName

namespace Document

variable {document : Document} {record : Record}

/-- The names of all elements are identifiers, and each element has a name of its own. -/
structure SolelyNamed (document : Document) : Prop where
  plain : ∀ record ∈ document.elements, Notation.isPlainName record.ownName = true
  sole : ∀ one ∈ document.elements, ∀ other ∈ document.elements,
    other.AnswersTo one.ownName → other = one

section Named

variable (told : document.Told) (named : document.SolelyNamed)

include told named

theorem path_ends (member : record ∈ document.elements) :
    record.path.toList.getLast? ≠ some ':' := by
  have plain := named.plain record member
  obtain ⟨someName, _⟩ := Notation.isNamePart_of_isPlainName plain
  have ends : record.path.toList.getLast? = record.ownName.toList.getLast? := by
    rcases told.nested record member with ⟨_, isPath⟩ | ⟨owner, _, isPath⟩
    · rw [isPath]
    · have some_ : record.ownName.toList ≠ [] := by simpa using someName
      rw [isPath, QualifiedName.join, String.toList_append, List.getLast?_append_of_ne_nil _ some_]
  intro colon
  exact Notation.notMem_of_isPlainName plain (List.mem_of_getLast? (ends ▸ colon))

/-- Where each element has a name of its own, qualified names lead to no other elements. -/
theorem distinct_of_solelyNamed (member : record ∈ document.elements) :
    document.Distinct record := by
  -- an owner has a shorter qualified name
  induction length : record.path.length using Nat.strong_induction_on generalizing record with
  | _ bound ih =>
    have plain := named.plain record member
    obtain ⟨someName, _⟩ := Notation.isNamePart_of_isPlainName plain
    have noColon := Notation.notMem_of_isPlainName plain
    have noPoint : '.' ∉ record.ownName.toList := fun point =>
      absurd ((Notation.isNamePart_of_isPlainName plain).2 _ point) (by decide)
    rcases told.nested record member with ⟨unowned, isPath⟩ | ⟨owner, ownedBy, isPath⟩
    · have simple : QualifiedName.segments record.path = [record.ownName] := by
        rw [isPath]
        exact segments_simple someName noPoint fun held => noColon (held.subset List.mem_cons_self)
      rw [Distinct, simple]
      exact .root member unowned fun other otherIn => named.sole record member other otherIn
    · have shorter : owner.path.length < bound := by
        rw [← length, isPath]
        exact QualifiedName.length_lt_join _ _
      have leads := ih _ shorter ownedBy.1 rfl
      rw [Distinct, isPath, QualifiedName.segments_join (path_ends told named ownedBy.1) someName
        noColon noPoint]
      exact .member leads member ownedBy fun other otherIn _ =>
        named.sole record member other otherIn

/-- A document without redefinitions is faithful where each element has a name of its own. -/
theorem faithful_of_solelyNamed
    (plain : ∀ relation source target, ¬ document.Redefines relation source target) :
    document.Faithful where
  distinct := by
    rintro source target ⟨relation, relates, _⟩
    exact distinct_of_solelyNamed told named relates.targetIn
  apart := fun relation source target redefines => absurd redefines (plain relation source target)
  sole := fun relation source target redefines => absurd redefines (plain relation source target)

end Named

end Document

/-! ## References -/

/-- A reference that has an answer is found to mean the target of its relationship. -/
theorem Workspace.Restores.exact {w : Workspace} {document : Document}
    (restores : w.Restores document) (told : document.Told) (faithful : document.Faithful) :
    document.Meant (Index.build w.symbols w.rootImports) w.memo
      fun target goal => goal.RecallsAll document target := by
  intro symbol known record member isElement reference asked relation target relates stands
  obtain ⟨goal, goalIn, means, _⟩ :=
    restores.meant told faithful.discerned symbol known record member isElement reference asked
      relation target relates stands
  refine ⟨goal, goalIn, means, ?_⟩
  have answers := (restores.answered told symbol known).references reference asked
  exact ((refer_exact restores.recalls told faithful _ _ symbol known record isElement reference asked
    relation target relates stands).answers (restores.upheld told) _ (congrArg Prod.fst answers)).2
      goal means

namespace Session

section Identified

variable {changes : List Change} {session : Session} {index : Index}
  (reads : ∀ change ∈ changes, change.reads = true) (reached : after changes = session)
  (user : ∀ file ∈ session.workspace.files, file.isLibrary = false) (silent : session.Silent)
  (indexed : session.workspace.index = some index)
  (identified : ∀ symbol ∈ index.symbols, symbol.Identified)

include reads reached user silent indexed identified

/-- The document of texts without diagnostics whose names are identifiers is built. Its source
text and its companion data can be taken into a new session, where nothing is redefined or each
redefinition ends; and the document that is built there has each relationship as it was, where the
qualified names of targets lead to no other elements. -/
theorem buildDocument_refers (apart : MintsApart (mintKeys index session.workspace.memo))
    (name newName : Value) (path : String) :
    ∃ document exported, outcome (buildDocument false name) session = (.ok document, exported) ∧
      (document.RedefinitionsEnd → ∃ reopened, outcome (reopen document path) {} = (.ok ⟨⟩, reopened)) ∧
      ∀ reopened, outcome (reopen document path) {} = (.ok ⟨⟩, reopened) → document.Faithful →
        ∃ again later, outcome (buildDocument false newName) reopened = (.ok again, later) ∧
          ∀ relation ∈ document.relationships, ∃ kept ∈ again.relationships,
            kept.id = relation.id ∧ kept.kind = relation.kind ∧ kept.source = relation.source ∧
              kept.target = relation.target := by
  have spoken := silent.spoken reads reached user indexed
  obtain ⟨document, exported, built, _, told, _⟩ :=
    buildDocument_told reads reached user silent indexed
      (fun symbol known => (identified symbol known).legible (spoken symbol known))
      (silent.names reads reached user indexed identified) apart name
  refine ⟨document, exported, built, reopen_ends told path, fun reopened ran faithful => ?_⟩
  obtain ⟨consistent, ready, restores⟩ := reopen_restores told ran
  obtain ⟨again, later, ran, _, kept⟩ := buildDocument_restored consistent ready restores told
    (restores.exact told faithful) (fun _ _ recalled => recalled) newName
  refine ⟨again, later, ran, fun relation listed => ?_⟩
  obtain ⟨source, target, relates⟩ := told.relates listed
  obtain ⟨record, recorded, id, kind, sameSource, goal, goalIn, isTarget, isGoal⟩ :=
    kept relation source target relates
  refine ⟨record, List.mem_filter.mpr ⟨recorded, ?_⟩, id, kind, sameSource, ?_⟩
  · rw [Record.isRelationship, sameSource, relates.joins.ends.2.1, Option.isSome_some, Bool.or_true]
  · rw [isTarget, restores.recalls.idOf told goalIn relates.targetIn isGoal]
    exact relates.joins.ends.2.2.symm

end Identified

theorem buildDocument_refers_typed :
    ∃ session index document exported reopened again later,
      after [.load "m.sysml" typedText false, .reindex] = session ∧ session.Silent ∧
      session.workspace.index = some index ∧ (∀ symbol ∈ index.symbols, symbol.Identified) ∧
      MintsApart (mintKeys index session.workspace.memo) ∧
      outcome (buildDocument false (.text "model")) session = (.ok document, exported) ∧
      document.relationships.length = 1 ∧ document.Faithful ∧
      outcome (reopen document "m.sysml") {} = (.ok ⟨⟩, reopened) ∧
      outcome (buildDocument false (.text "model")) reopened = (.ok again, later) ∧
      ∀ relation ∈ document.relationships, ∃ kept ∈ again.relationships,
        kept.id = relation.id ∧ kept.kind = relation.kind ∧ kept.source = relation.source ∧
          kept.target = relation.target := by
  have reads : ∀ change ∈ ([.load "m.sysml" typedText false, .reindex] : List Change),
      change.reads = true := by decide
  generalize reached : after [.load "m.sysml" typedText false, .reindex] = session
  obtain ⟨silent, user, identified, apart, checked⟩ := typedText_found reached
  have indexed := ((reached ▸ after_read reads).checked silent.ready).found
  have spoken := silent.spoken reads reached user indexed
  obtain ⟨document, exported, built, ends, same⟩ := buildDocument_refers reads reached user silent
    indexed identified apart (.text "model") (.text "model") "m.sysml"
  obtain ⟨other, _, builtToo, _, told, _⟩ := buildDocument_told reads reached user silent indexed
    (fun symbol known => (identified symbol known).legible (spoken symbol known))
    (silent.names reads reached user indexed identified) apart (.text "model")
  obtain rfl : document = other :=
    Except.ok.inj (congrArg Prod.fst (built.symm.trans builtToo))
  rw [built] at checked
  simp only [Except.toOption, Option.any_some, Bool.and_eq_true, List.all_eq_true, beq_iff_eq,
    decide_eq_true_eq] at checked
  obtain ⟨⟨⟨⟨-, counted⟩, kinds⟩, elements⟩, distinct⟩ := checked
  have plain : ∀ relation source target, ¬ document.Redefines relation source target := by
    intro relation source target redefines
    have isTyping := kinds relation (List.mem_filter.mp redefines.listed).1
    exact absurd (isTyping.symm.trans redefines.kind) (by decide)
  have named : document.SolelyNamed := by
    constructor
    · exact fun record member => (elements record member).1
    · rintro one oneIn other otherIn (sameName | isShort)
      · exact List.inj_on_of_nodup_map distinct otherIn oneIn sameName
      · have unshortened := (elements other otherIn).2
        rw [isShort] at unshortened
        cases unshortened
  have faithful := Document.faithful_of_solelyNamed told named plain
  obtain ⟨reopened, ran⟩ := ends (.inl plain)
  obtain ⟨again, later, builtAgain, kept⟩ := same reopened ran faithful
  exact ⟨session, _, document, exported, reopened, again, later, rfl, silent, indexed, identified,
    apart, built, counted, faithful, ran, builtAgain, kept⟩

/-- A part with a type, next to a package that is named like the outermost one. -/
def nestedText : String :=
  "package A \x7b part def Y; package B \x7b package A \x7b part def Y; \x7d part x : Y; \x7d \x7d"

/-- The name that is written for the type leads to another one, which is nearer. -/
theorem buildDocument_refers_nested :
    ∃ session index document exported reopened again later,
      after [.load "m.sysml" nestedText false, .reindex] = session ∧ session.Silent ∧
      session.workspace.index = some index ∧ (∀ symbol ∈ index.symbols, symbol.Identified) ∧
      outcome (buildDocument false (.text "model")) session = (.ok document, exported) ∧
      outcome (reopen document "m.sysml") {} = (.ok ⟨⟩, reopened) ∧
      outcome (buildDocument false (.text "model")) reopened = (.ok again, later) ∧
      ¬ ∀ relation ∈ document.relationships, ∃ kept ∈ again.relationships,
        kept.id = relation.id ∧ kept.kind = relation.kind ∧ kept.source = relation.source ∧
          kept.target = relation.target := by
  have reads : ∀ change ∈ ([.load "m.sysml" nestedText false, .reindex] : List Change),
      change.reads = true := by decide
  generalize reached : after [.load "m.sysml" nestedText false, .reindex] = session
  have found : session.isReady = true ∧
      (session.workspace.files.all fun file => file.faults.isEmpty &&
        ((session.workspace.findings.lookup file.path).getD []).isEmpty) = true ∧
      (∀ symbol ∈ (Index.build session.workspace.symbols session.workspace.rootImports).symbols,
        symbol.Identified) ∧
      reopenedAs session "m.sysml" (fun document again =>
        document.relationships.any fun relation =>
          again.relationships.all fun kept => !(kept.target == relation.target)) = true := by
    subst reached
    decide +kernel
  obtain ⟨ready, nothing, identified, lost⟩ := found
  have silent : session.Silent := by
    subst reached
    exact after_silent ready nothing
  have indexed := ((reached ▸ after_read reads).checked silent.ready).found
  obtain ⟨document, exported, reopened, again, later, built, ran, builtAgain, differs⟩ :=
    exists_reopened lost
  refine ⟨session, _, document, exported, reopened, again, later, rfl, silent, indexed, identified,
    built, ran, builtAgain, ?_⟩
  intro same
  obtain ⟨relation, listed, others⟩ := List.any_eq_true.mp differs
  obtain ⟨kept, isKept, -, -, -, isTarget⟩ := same relation listed
  have apart := List.all_eq_true.mp others kept isKept
  rw [isTarget, BEq.rfl] at apart
  cases apart

end Session

end Sysml
