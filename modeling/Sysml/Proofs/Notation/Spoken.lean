import Sysml.Proofs.Document.Typed
import Sysml.Proofs.Notation.Moves

/-!
# What a text without faults says

Faults stay. So where none is left in the end, each declaration was read as it has to be: a
usage that no keyword begins has a direction or refers to something.
-/

set_option autoImplicit false

namespace Sysml

namespace Notation

section Steps

variable {c after : Cursor}

theorem relationship?_mark {kind : SymbolKind} {token : Token} {mark : String}
    (isMark : token.isSymbol mark = true) (other : mark ∉ [":", ":>", ":>>", "::>"])
    (byFollows : Bool) : relationship? kind token byFollows = none := by
  simp only [Token.isSymbol, Bool.and_eq_true, beq_iff_eq] at isMark
  obtain ⟨isSymbol, rfl⟩ := isMark
  simp only [List.mem_cons, List.not_mem_nil, or_false, not_or] at other
  simp [relationship?, Token.isSymbol, Token.isKeyword, isSymbol, other]

/-- A reference that is announced and leads nowhere is a fault. -/
theorem header_references {kind : SymbolKind} (announced : (c.relationship? kind).isSome = true)
    (clean : (header kind c).2.2.faults = []) : (header kind c).1 ≠ [] := by
  have more : c.atEnd = false := by
    cases ends : c.atEnd with
    | true => simp [Cursor.relationship?, ends] at announced
    | false => rfl
  have noMark (mark : String) (other : mark ∉ [":", ":>", ":>>", "::>"]) :
      c.sees (·.isSymbol mark) = false := by
    cases seen : c.sees (·.isSymbol mark) with
    | true =>
      have isMark : c.here.isSymbol mark = true := by
        unfold Cursor.sees at seen
        unfold Cursor.here
        split at seen <;> simp_all
      simp [Cursor.relationship?, more, relationship?_mark isMark other] at announced
    | false => rfl
  obtain ⟨relationship, isRelationship⟩ := Option.isSome_iff_exists.mp announced
  rw [header, more, noMark ";" (by simp), noMark "\x7b" (by simp), noMark "\x7d" (by simp),
    isRelationship] at clean ⊢
  simp only [Bool.false_eq_true, ↓reduceIte] at clean ⊢
  intro none_
  have noTargets := (List.append_eq_nil_iff.mp none_).1
  have clean := (header_moves kind _).clean clean
  simp [noTargets, Cursor.reportIf, Cursor.report] at clean

end Steps

/-- A declaration as it is read where there is no fault. -/
structure Heading.Spoken (heading : Heading) : Prop where
  kind : heading.kind ≠ .element
  direction : heading.direction = "" ∨ heading.direction ∈ directionKeywords
  plain : heading.kind = .plainUsage →
    heading.shortName = "" ∧ (heading.direction ≠ "" ∨ heading.references ≠ [])

def Statement.Spoken : Statement → Prop
  | .declared heading | .opened heading _ => ∀ found, heading = some found → found.Spoken
  | _ => True

theorem leadFrom_direction_mem {lead : Lead} (c : Cursor)
    (listed : lead.direction = "" ∨ lead.direction ∈ directionKeywords) :
    (leadFrom lead c).1.direction = "" ∨ (leadFrom lead c).1.direction ∈ directionKeywords := by
  fun_induction leadFrom lead c
  all_goals first
    | exact listed
    | next ih => exact ih listed
    | skip
  next direction ih => exact ih (.inr (List.contains_iff_mem.mp direction))

theorem redefinedName?_nil : redefinedName? [] = none := rfl

section Statements

variable {lead : Lead} {c after : Cursor}

/-- A declaration without faults is as it has to be. A usage that no keyword begins comes with a
direction or a reference, or takes its name from one. -/
theorem declaration_spoken {kind : SymbolKind} {needsName : Bool} (known : kind ≠ .element)
    (listed : lead.direction = "" ∨ lead.direction ∈ directionKeywords)
    (plain : kind = .plainUsage → shortName c = ("", c) ∧
      (lead.direction ≠ "" ∨ c.sees Token.isName = false ∨
        (c.advance.relationship? kind).isSome = true))
    (clean : (declaration kind lead needsName c).2.faults = []) :
    c.faults = [] ∧ (declaration kind lead needsName c).1.Spoken := by
  have short := shortName_moves c
  unfold declaration at clean ⊢
  dsimp only at clean ⊢
  generalize isNamed : shortName c = pair at *
  obtain ⟨shortText, named⟩ := pair
  dsimp only at *
  generalize inner_ : (if (if named.sees Token.isName = true then some named.here
    else none).isSome = true then named.advance else named) = inner at *
  have into : Moves named inner := by
    rw [← inner_]
    split
    · exact .advance named
    · exact .refl named
  have through := header_moves kind inner
  have refers := @header_references inner kind
  generalize header kind inner = found at *
  obtain ⟨references, ending, last⟩ := found
  dsimp only at *
  have cleanHeader : last.faults = [] := by
    cases ending with
    | closed => exact ((Moves.refl _).reportIf ..).clean clean
    | opens => exact (((Moves.refl _).reportIf ..).trans (.advance _)).clean clean
  refine ⟨((short.trans into).trans through).clean cleanHeader, ?_⟩
  have spoken : ∀ found, (((if named.sees Token.isName = true then some named.here
      else none).map (·.text)) <|> redefinedName? references).map (fun name =>
        { name, kind, shortName := shortText, isAbstract := lead.isAbstract
          direction := lead.direction, references
          anchor := ((if named.sees Token.isName = true then some named.here
            else none).getD c.here).span : Heading }) = some found → found.Spoken := by
    intro found same
    obtain ⟨name, isName, rfl⟩ := Option.map_eq_some_iff.mp same
    refine ⟨known, listed, fun isPlain => ?_⟩
    obtain ⟨noShort, told⟩ := plain isPlain
    obtain ⟨rfl, rfl⟩ := Prod.mk.inj noShort
    refine ⟨rfl, ?_⟩
    rcases told with directed | unnamed | announced
    · exact .inl directed
    · refine .inr fun none_ => ?_
      subst none_
      simp [unnamed, redefinedName?_nil] at isName
    · cases seen : named.sees Token.isName with
      | false =>
        refine .inr fun none_ => ?_
        subst none_
        simp [seen, redefinedName?_nil] at isName
      | true =>
        refine .inr (refers ?_ cleanHeader)
        rw [← inner_, seen]
        exact announced
  cases ending with
  | closed => exact spoken
  | opens => exact spoken

theorem keywordStatement?_spoken {statement : Statement}
    (listed : lead.direction = "" ∨ lead.direction ∈ directionKeywords)
    (found : keywordStatement? lead c = some (statement, after)) (clean : after.faults = []) :
    c.faults = [] ∧ statement.Spoken := by
  have declared {kind : SymbolKind} {needsName : Bool} {start : Cursor} (into : Moves c start)
      (known : kind ≠ .element) (worded : kind ≠ .plainUsage)
      (same : declaration kind lead needsName start = (statement, after)) :
      c.faults = [] ∧ statement.Spoken := by
    have spoken := @declaration_spoken lead start kind needsName known listed
      (fun isPlain => absurd isPlain worded)
    rw [same] at spoken
    exact (spoken clean).imp_left into.clean
  unfold keywordStatement? at found
  dsimp only at found
  split at found
  · have passed := (importStatement_moves lead c).step
    have written : (importStatement lead c).1.Spoken := by
      unfold importStatement
      dsimp only
      split <;> trivial
    rw [Option.some.inj found] at passed written
    exact ⟨passed.clean clean, written⟩
  · split at found
    · have passed := (docStatement_moves c).step
      have written : (docStatement c).1.Spoken := by
        unfold docStatement
        dsimp only
        split <;> trivial
      rw [Option.some.inj found] at passed written
      exact ⟨passed.clean clean, written⟩
    · split at found
      · cases found
        exact ⟨(skipRemark_moves _).step.clean clean, trivial⟩
      · split at found
        · refine declared (.advance c) ?_ ?_ (Option.some.inj found) <;> split <;> simp
        · split at found
          · exact declared (.advance c) (by simp) (by simp) (Option.some.inj found)
          · split at found
            · next family next head =>
              have into := (familyHead?_moves head).step
              split at found
              · exact declared (into.trans (.advance _)) (by simp) (by simp) (Option.some.inj found)
              · exact declared into (by simp) (by simp) (Option.some.inj found)
            · obtain ⟨kind, _, same⟩ := Option.map_eq_some_iff.mp found
              refine declared ?_ (by simp) (by simp) same
              split
              · exact (Moves.advance _).step
              · exact .advance c

theorem shortName_none (noMark : c.sees (·.isSymbol "<") = false) : shortName c = ("", c) := by
  rw [shortName, noMark]
  rfl

theorem sees_apart {p q : Token → Bool} (apart : ∀ token, p token = true → q token = false)
    (seen : c.sees p = true) : c.sees q = false := by
  unfold Cursor.sees at seen ⊢
  split at seen
  · cases seen
  · exact apart _ seen

theorem redefines_token {token : Token}
    (isRedefinition : (token.isSymbol ":>>" || token.isKeyword "redefines") = true) :
    (token.kind = .symbol ∧ token.text = ":>>") ∨ token.kind = .word ∧ token.text = "redefines" := by
  simpa [Token.isSymbol, Token.isKeyword] using isRedefinition

theorem relationship?_by {kind : SymbolKind} {token : Token} (byFollows : Bool)
    (announced : (relationship? kind token false).isSome = true) :
    (relationship? kind token byFollows).isSome = true := by
  unfold relationship? at announced ⊢
  repeat' split at announced
  all_goals simp_all

theorem relationship?_advance {kind : SymbolKind}
    (announced : (c.seesNext fun token => (relationship? kind token false).isSome) = true) :
    (c.advance.relationship? kind).isSome = true := by
  obtain ⟨ahead, stop, last, faults⟩ := c
  cases ahead with
  | nil => cases announced
  | cons first rest =>
    cases rest with
    | nil => cases announced
    | cons word rest => exact relationship?_by _ announced

theorem plainStatement_spoken (listed : lead.direction = "" ∨ lead.direction ∈ directionKeywords)
    (clean : (plainStatement lead c).2.faults = []) :
    c.faults = [] ∧ (plainStatement lead c).1.Spoken := by
  unfold plainStatement at clean ⊢
  split at clean
  · next isRef =>
    rw [if_pos isRef]
    exact declaration_spoken (by simp) listed (by simp) clean
  · next noRef =>
    rw [if_neg noRef]
    split at clean
    · next redefines =>
      rw [if_pos redefines]
      refine declaration_spoken (by simp) listed (fun _ => ⟨shortName_none ?_, .inr (.inl ?_)⟩) clean
      · refine sees_apart (fun token isRedefinition => ?_) redefines
        rcases redefines_token isRedefinition with ⟨kind, text⟩ | ⟨kind, text⟩ <;>
          simp [Token.isSymbol, kind, text]
      · refine sees_apart (fun token isRedefinition => ?_) redefines
        have reserved : isReserved "redefines" = true := by decide
        rcases redefines_token isRedefinition with ⟨kind, text⟩ | ⟨kind, text⟩ <;>
          simp [Token.isName, kind, text, reserved]
    · next noRedefinition =>
      rw [if_neg noRedefinition]
      split at clean
      · next named =>
        rw [if_pos named]
        rw [Bool.and_eq_true, Bool.or_eq_true] at named
        obtain ⟨isName, told⟩ := named
        refine declaration_spoken (by simp) listed (fun _ => ⟨shortName_none ?_, ?_⟩) clean
        · refine sees_apart (fun token isName => ?_) isName
          rcases Bool.or_eq_true_iff.mp isName with kind | kind
          · simp [Token.isSymbol, beq_iff_eq.mp kind]
          · simp [Token.isSymbol, beq_iff_eq.mp (Bool.and_eq_true_iff.mp kind).1]
        · rcases told with directed | announced
          · exact .inl (by simpa using directed)
          · exact .inr (.inr (relationship?_advance announced))
      · next skipped =>
        rw [if_neg skipped]
        exact ⟨(skipStatement_moves c).clean clean, trivial⟩

theorem Statement.read_spoken (clean : (Statement.read c).2.faults = []) :
    c.faults = [] ∧ (Statement.read c).1.Spoken := by
  have into := leadFrom_moves {} c
  have listed := @leadFrom_direction_mem {} c (.inl rfl)
  unfold Statement.read at clean ⊢
  dsimp only at clean ⊢
  generalize leadFrom {} c = led at *
  obtain ⟨lead, next⟩ := led
  dsimp only at *
  split at clean
  · next ends =>
    rw [if_pos ends]
    exact ⟨into.clean clean, trivial⟩
  · next more =>
    rw [if_neg more]
    split at clean
    · next closes =>
      rw [if_pos closes]
      exact ⟨into.clean ((Moves.advance next).clean clean), trivial⟩
    · next noMark =>
      rw [if_neg noMark]
      split at clean
      · next word =>
        rw [if_pos word]
        cases found : keywordStatement? lead next with
        | none =>
          rw [found] at clean
          exact (plainStatement_spoken listed clean).imp_left into.clean
        | some read =>
          rw [found] at clean
          exact (keywordStatement?_spoken listed found clean).imp_left into.clean
      · next noWord =>
        rw [if_neg noWord]
        exact (plainStatement_spoken listed clean).imp_left into.clean

end Statements

mutual

def Member.headings : Member → List Heading
  | .declared heading _ members => heading :: headingsOf members
  | .imported _ | .documented _ => []

def headingsOf : List Member → List Heading
  | [] => []
  | member :: rest => member.headings ++ headingsOf rest

end

theorem headingsOf_append (left right : List Member) :
    headingsOf (left ++ right) = headingsOf left ++ headingsOf right := by
  induction left with
  | nil => rfl
  | cons member rest ih => rw [List.cons_append, headingsOf, headingsOf, ih, List.append_assoc]

theorem membersOf_spoken {heading : Option Heading} {last : Option Token} {inner : List Member}
    (spoken : ∀ found, heading = some found → found.Spoken)
    (inside : ∀ found ∈ headingsOf inner, found.Spoken) :
    ∀ found ∈ headingsOf (membersOf heading last inner), found.Spoken := by
  cases heading with
  | none => exact inside
  | some heading =>
    intro found listed
    simp only [membersOf, headingsOf, Member.headings, List.append_nil, List.mem_cons] at listed
    rcases listed with rfl | inner
    · exact spoken _ rfl
    · exact inside found inner

mutual

theorem element_spoken (c : Cursor) (clean : (element c).2.faults = []) :
    c.faults = [] ∧ ∀ found ∈ headingsOf (element c).1, found.Spoken := by
  have read := @Statement.read_spoken c
  unfold element at clean ⊢
  split at clean
  · next same =>
    rw [same] at read
    exact ⟨(read clean).1, fun _ listed => (by cases listed)⟩
  · next same =>
    rw [same] at read
    exact ⟨(read clean).1, fun _ listed => (by cases listed)⟩
  · next same =>
    rw [same] at read
    exact ⟨(read clean).1, fun _ listed => (by cases listed)⟩
  · next same =>
    rw [same] at read
    obtain ⟨cleanBefore, spoken⟩ := read clean
    exact ⟨cleanBefore, membersOf_spoken spoken fun _ listed => (by cases listed)⟩
  · next heading opening after same =>
    rw [same] at read
    have shorter := Statement.read_opens_length same
    obtain ⟨cleanAfter, inside⟩ := block_spoken opening after clean
    obtain ⟨cleanBefore, spoken⟩ := read cleanAfter
    exact ⟨cleanBefore, membersOf_spoken spoken inside⟩
termination_by 2 * c.length
decreasing_by omega

theorem block_spoken (opening : Span) (c : Cursor) (clean : (block opening c).2.faults = []) :
    c.faults = [] ∧ ∀ found ∈ headingsOf (block opening c).1, found.Spoken := by
  unfold block at clean ⊢
  split at clean
  · cases clean
  · next more =>
    rw [if_neg more]
    split at clean
    · next closes =>
      rw [if_pos closes]
      exact ⟨(Moves.advance c).clean clean, fun _ listed => (by cases listed)⟩
    · next inside =>
      rw [if_neg inside]
      dsimp only at clean ⊢
      split at clean
      · next shorter =>
        rw [if_pos shorter]
        obtain ⟨cleanNext, others⟩ := block_spoken opening (element c).2 clean
        obtain ⟨cleanBefore, first⟩ := element_spoken c cleanNext
        refine ⟨cleanBefore, fun found listed => ?_⟩
        rw [headingsOf_append] at listed
        rcases List.mem_append.mp listed with here | later
        · exact first found here
        · exact others found later
      · next stays =>
        rw [if_neg stays]
        exact element_spoken c clean
termination_by 2 * c.length + 1
decreasing_by all_goals omega

end

theorem topLevel_spoken (c : Cursor) (clean : (topLevel c).2.faults = []) :
    c.faults = [] ∧ ∀ found ∈ headingsOf (topLevel c).1, found.Spoken := by
  fun_induction topLevel c with
  | case1 c _ => exact ⟨clean, fun _ listed => (by cases listed)⟩
  | case2 c _ _ ih => cases (ih clean).1
  | case3 c _ _ members next read _ others rest same ih =>
    rw [same] at ih
    obtain ⟨cleanNext, later⟩ := ih clean
    have first := element_spoken c
    rw [read] at first
    obtain ⟨cleanBefore, here⟩ := first cleanNext
    refine ⟨cleanBefore, fun found listed => ?_⟩
    rw [headingsOf_append] at listed
    rcases List.mem_append.mp listed with isHere | isLater
    · exact here found isHere
    · exact later found isLater
  | case4 c _ _ members next read _ =>
    have first := element_spoken c
    rw [read] at first
    exact first clean

end Notation

/-- A symbol as a text without faults gives it. -/
structure Symbol.Spoken (symbol : Symbol) : Prop where
  kind : symbol.kind ≠ .element
  direction : symbol.direction = "" ∨ symbol.direction ∈ Notation.directionKeywords
  plain : symbol.kind = .plainUsage →
    symbol.shortName = .text "" ∧ (symbol.direction ≠ "" ∨ symbol.references ≠ [])
  doc : symbol.doc.IsName
  placed : ∃ name, symbol.name = .text name ∧
    (symbol.owner = none ∧ symbol.qualifiedName = .text name ∨
      ∃ owner, symbol.owner = some (.text owner) ∧
        symbol.qualifiedName = .text (QualifiedName.join owner name))

namespace Notation

theorem symbol_spoken {heading : Heading} (spoken : heading.Spoken) (file : String) (span : Span)
    (isLibrary : Bool) (owner doc : Option String) (imports : List Import) :
    Symbol.Spoken
      { name := .text heading.name
        qualifiedName := .text (match owner with
          | none => heading.name
          | some owner => QualifiedName.join owner heading.name)
        kind := heading.kind, file, span, owner := owner.map .text
        shortName := .text heading.shortName, doc := doc.elim .null .text
        isAbstract := heading.isAbstract, direction := heading.direction
        references := heading.references, imports, isLibrary } := by
  constructor
  · exact spoken.kind
  · exact spoken.direction
  · exact fun isPlain => (spoken.plain isPlain).imp_left (congrArg Key.text)
  · cases doc with
    | none => exact .inl rfl
    | some text => exact .inr ⟨text, rfl⟩
  · refine ⟨heading.name, rfl, ?_⟩
    cases owner with
    | none => exact .inl ⟨rfl, rfl⟩
    | some owner => exact .inr ⟨owner, rfl, rfl⟩

mutual

theorem Member.symbols_spoken (file : String) (isLibrary : Bool) (owner : Option String) :
    ∀ member : Member, (∀ found ∈ member.headings, found.Spoken) →
      ∀ symbol ∈ member.symbols file isLibrary owner, symbol.Spoken
  | .declared heading stop members, spoken => by
      intro symbol found
      simp only [Member.headings, List.forall_mem_cons] at spoken
      simp only [Member.symbols, List.mem_cons] at found
      rcases found with rfl | inner
      · exact symbol_spoken spoken.1 ..
      · exact symbolsOf_spoken file isLibrary _ members spoken.2 symbol inner
  | .imported _, _ => by simp [Member.symbols]
  | .documented _, _ => by simp [Member.symbols]

theorem symbolsOf_spoken (file : String) (isLibrary : Bool) (owner : Option String) :
    ∀ members : List Member, (∀ found ∈ headingsOf members, found.Spoken) →
      ∀ symbol ∈ symbolsOf file isLibrary owner members, symbol.Spoken
  | [], _ => by simp [symbolsOf]
  | member :: rest, spoken => by
      intro symbol found
      rw [headingsOf] at spoken
      rw [symbolsOf] at found
      rcases List.mem_append.mp found with first | later
      · exact Member.symbols_spoken file isLibrary owner member
          (fun found listed => spoken found (List.mem_append_left _ listed)) symbol first
      · exact symbolsOf_spoken file isLibrary owner rest
          (fun found listed => spoken found (List.mem_append_right _ listed)) symbol later

end

/-- The symbols of a text without faults are as they have to be. -/
theorem parse_spoken {file text : String} {isLibrary : Bool}
    (clean : (parse file text isLibrary).diagnostics = []) :
    ∀ symbol ∈ (parse file text isLibrary).symbols, symbol.Spoken := by
  have faults : (topLevel (scan text).cursor).2.faults = [] := by
    simpa [parse] using clean
  exact symbolsOf_spoken file isLibrary none _ (topLevel_spoken _ faults).2

end Notation

end Sysml
