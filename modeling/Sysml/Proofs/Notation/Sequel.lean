import Sysml.Proofs.Notation.Onward
import Sysml.Proofs.Notation.Outline
import Sysml.Proofs.Notation.Progress

/-!
# Complete texts one after the other

A text that is read without a fault and ends with a semicolon or a closing brace is read in the
same way if another text follows on a line of its own, and that other text is read as it is on
its own, so many lines further down (`parse_followed`).
-/

set_option autoImplicit false

namespace Sysml

namespace Notation

section Elements

variable (d : Cursor)

mutual

theorem element_onward (c : Cursor) (under : c.Underway) (clean : (element c).2.faults = []) :
    element (c.followedBy d) = ((element c).1, (element c).2.followedBy d) := by
  have complete := under.complete.passes (Statement.read_passes c)
  have onward := Statement.read_onward d under
  rw [element_eq c] at clean ⊢
  rw [element_eq (c.followedBy d)]
  cases read : Statement.read c with
  | mk statement after =>
    rw [read] at clean complete onward
    cases statement with
    | skipped => rw [onward clean]
    | imported i => rw [onward clean]
    | documented text => rw [onward clean]
    | declared heading =>
      rw [onward clean]
      rfl
    | opened heading opening =>
      have shorter := Statement.read_opens_length read
      rw [onward (block_spoken opening after clean).1]
      dsimp only
      rw [block_onward opening after complete clean]
      rfl
termination_by 2 * c.length
decreasing_by omega

theorem block_onward (opening : Span) (c : Cursor) (complete : c.Complete)
    (clean : (block opening c).2.faults = []) :
    block opening (c.followedBy d) =
      ((block opening c).1, (block opening c).2.followedBy d) := by
  have inner := element_onward c
  have rest := complete.passes (element_passes c)
  unfold block at clean ⊢
  split at clean
  · cases clean
  · next more =>
    rw [if_neg more, if_neg (followedBy_more d more), followedBy_sees d more]
    split at clean
    · next brace => rw [if_pos brace, if_pos brace, followedBy_advance d more]
    · next noBrace =>
      rw [if_neg noBrace, if_neg noBrace]
      dsimp only at clean ⊢
      have passed := element_progress more noBrace
      rw [if_pos passed] at clean ⊢
      have cleanInner := (block_spoken opening _ clean).1
      rw [inner ⟨more, complete⟩ cleanInner]
      dsimp only
      rw [if_pos (by simp only [followedBy_length]; omega),
        block_onward opening (element c).2 rest clean]
termination_by 2 * c.length + 1
decreasing_by all_goals omega

end

/-- What is read of a complete text is read of it as well if more follows, and then reading goes
on from its end. -/
theorem topLevel_onward (c : Cursor) (complete : c.Complete) (clean : (topLevel c).2.faults = []) :
    topLevel (c.followedBy d) =
      ((topLevel c).1 ++ (topLevel ((topLevel c).2.followedBy d)).1,
        (topLevel ((topLevel c).2.followedBy d)).2) := by
  by_cases ends : c.atEnd = true
  · rw [topLevel_end ends]
    rfl
  · by_cases brace : c.sees (·.isSymbol "\x7d") = true
    · rw [topLevel, if_neg ends, if_pos brace] at clean
      cases (topLevel_spoken _ clean).1
    · have shorter := element_progress ends brace
      rw [topLevel_step ends brace] at clean ⊢
      have cleanElement := (topLevel_spoken _ clean).1
      have inner := element_onward d c ⟨ends, complete⟩ cleanElement
      have rest := topLevel_onward (element c).2 (complete.passes (element_passes c)) clean
      rw [topLevel_step (followedBy_more d ends) (by rwa [followedBy_sees d ends]), inner]
      dsimp only
      rw [rest, List.append_assoc]
termination_by c.length

end Elements

/-! ## Where reading begins -/

def Cursor.fresh (c : Cursor) : Cursor :=
  match c.ahead with
  | [] => c
  | word :: rest => { c with ahead := ⟨[], word.token⟩ :: rest, last := none }

section Fresh

variable {c : Cursor}

@[simp] theorem fresh_here (c : Cursor) : c.fresh.here = c.here := by
  obtain ⟨ahead, stop, last, faults⟩ := c
  cases ahead <;> rfl

@[simp] theorem fresh_atEnd (c : Cursor) : c.fresh.atEnd = c.atEnd := by
  obtain ⟨ahead, stop, last, faults⟩ := c
  cases ahead <;> rfl

@[simp] theorem fresh_sees (c : Cursor) (p : Token → Bool) : c.fresh.sees p = c.sees p := by
  obtain ⟨ahead, stop, last, faults⟩ := c
  cases ahead <;> rfl

@[simp] theorem fresh_advance (c : Cursor) : c.fresh.advance = c.advance := by
  obtain ⟨ahead, stop, last, faults⟩ := c
  cases ahead <;> rfl

@[simp] theorem fresh_seesNext (c : Cursor) (p : Token → Bool) :
    c.fresh.seesNext p = c.seesNext p := by
  rw [Cursor.seesNext_advance, Cursor.seesNext_advance, fresh_advance]

theorem leadFrom_fresh (lead : Lead) (c : Cursor) :
    leadFrom lead c.fresh = leadFrom lead c ∨
      leadFrom lead c = (lead, c) ∧ leadFrom lead c.fresh = (lead, c.fresh) := by
  rw [leadFrom_eq lead c, leadFrom_eq lead c.fresh, fresh_sees, fresh_sees, fresh_here,
    fresh_advance, show passMark c.fresh = passMark c by rw [passMark, passMark, fresh_advance]]
  split
  · exact .inl rfl
  · split
    · cases lead.withWord? c.here.text with
      | none => exact .inr ⟨rfl, rfl⟩
      | some lead => exact .inl rfl
    · exact .inr ⟨rfl, rfl⟩

theorem keywordStatement?_fresh (lead : Lead) (c : Cursor) :
    keywordStatement? lead c.fresh = keywordStatement? lead c := by
  have start : importStart c.fresh = importStart c := by
    rw [importStart, importStart, fresh_advance]
  simp only [keywordStatement?, importStatement_eq, start, docStatement_eq, familyHead?, fresh_here,
    fresh_advance, fresh_seesNext]

theorem skipStatement_fresh (more : ¬ c.atEnd = true)
    (noBrace : ¬ c.sees (·.isSymbol "\x7d") = true) : skipStatement c.fresh = skipStatement c := by
  rw [skipStatement, fresh_atEnd, if_neg more, fresh_sees, if_neg noBrace, fresh_sees, fresh_sees,
    fresh_advance, skipGroup, fresh_here, fresh_advance, skipStatement.eq_def c, if_neg more,
    if_neg noBrace]
  rfl

theorem header_fresh {kind : SymbolKind} (announced : (c.relationship? kind).isSome = true) :
    header kind c.fresh = header kind c := by
  obtain ⟨relationship, same⟩ := Option.isSome_iff_exists.mp announced
  have apart {mark : String} (other : mark ∉ [":", ":>", ":>>", "::>"]) :=
    announced_apart announced other
  have sameFresh : c.fresh.relationship? kind = some relationship := by
    rw [← same, Cursor.relationship?, Cursor.relationship?, fresh_atEnd, fresh_here, fresh_seesNext]
  have passed : passOperator c.fresh = passOperator c := by
    rw [passOperator, passOperator, fresh_here, fresh_advance]
  have after : afterTargets relationship c.fresh = afterTargets relationship c := by
    rw [afterTargets, afterTargets, passed, fresh_here]
  rw [header_announced same (apart (by decide)) (apart (by decide)) (apart (by decide)),
    header_announced sameFresh (by rw [fresh_sees, apart (by decide)])
      (by rw [fresh_sees, apart (by decide)]) (by rw [fresh_sees, apart (by decide)]), passed, after]

theorem declaration_fresh {kind : SymbolKind} {lead : Lead} {needsName : Bool}
    (begins : c.sees Token.isName = true ∨ (c.relationship? kind).isSome = true) :
    declaration kind lead needsName c.fresh = declaration kind lead needsName c := by
  have noMark : c.sees (·.isSymbol "<") = false :=
    begins.elim (name_apart · _) (announced_apart · (by decide))
  have same : header kind (passName c.fresh) = header kind (passName c) := by
    rw [passName, passName, fresh_sees, fresh_advance]
    split
    · rfl
    · next noName => exact header_fresh (begins.resolve_left noName)
  have name : nameHere? c.fresh = nameHere? c := by
    rw [nameHere?, nameHere?, fresh_sees, fresh_here]
  rw [declaration_eq, declaration_eq, shortName_none noMark,
    shortName_none (by rwa [fresh_sees])]
  dsimp only
  rw [same, name, fresh_here]

theorem plainStatement_fresh {lead : Lead} (noRef : lead.isRef = false) (more : ¬ c.atEnd = true)
    (noBrace : ¬ c.sees (·.isSymbol "\x7d") = true) :
    plainStatement lead c.fresh = plainStatement lead c := by
  unfold plainStatement
  rw [fresh_sees, fresh_sees, fresh_seesNext, noRef, if_neg Bool.false_ne_true,
    if_neg Bool.false_ne_true]
  split
  · next redefines => exact declaration_fresh (.inr (redefines_announced redefines))
  · split
    · next named =>
      rw [Bool.and_eq_true] at named
      exact declaration_fresh (.inl named.1)
    · rw [skipStatement_fresh more noBrace]

theorem statementFrom_fresh {lead : Lead} (noRef : lead.isRef = false) (more : ¬ c.atEnd = true)
    (noBrace : ¬ c.sees (·.isSymbol "\x7d") = true) :
    statementFrom lead c.fresh = statementFrom lead c := by
  unfold statementFrom
  simp only [fresh_atEnd, fresh_sees, fresh_advance, keywordStatement?_fresh,
    plainStatement_fresh noRef more noBrace, Bool.eq_false_iff.mpr more,
    Bool.eq_false_iff.mpr noBrace, Bool.or_self, Bool.false_eq_true, ↓reduceIte]

/-- Reading a statement looks at nothing that came before it. -/
theorem Statement.read_fresh (more : ¬ c.atEnd = true)
    (noBrace : ¬ c.sees (·.isSymbol "\x7d") = true) :
    Statement.read c.fresh = Statement.read c := by
  rw [Statement.read_eq, Statement.read_eq]
  rcases leadFrom_fresh {} c with same | ⟨stays, staysFresh⟩
  · rw [same]
  · rw [stays, staysFresh]
    exact statementFrom_fresh rfl more noBrace

/-- Reading a text looks at nothing that came before it. -/
theorem topLevel_fresh (more : ¬ c.atEnd = true) : topLevel c.fresh = topLevel c := by
  by_cases brace : c.sees (·.isSymbol "\x7d") = true
  · have moreFresh : ¬ c.fresh.atEnd = true := by rwa [fresh_atEnd]
    have braceFresh : c.fresh.sees (·.isSymbol "\x7d") = true := by rwa [fresh_sees]
    rw [topLevel, if_neg moreFresh, if_pos braceFresh, fresh_advance, fresh_here,
      topLevel.eq_def c, if_neg more, if_pos brace]
  · have same : element c.fresh = element c := by
      rw [element_eq, element_eq, Statement.read_fresh more brace]
    rw [topLevel_step (by rwa [fresh_atEnd]) (by rwa [fresh_sees]), topLevel_step more brace, same]

end Fresh

/-- From the end of a text without faults, reading goes on as it would on its own. -/
theorem topLevel_followedBy {c : Cursor} (d : Cursor) (ends : c.atEnd = true)
    (clean : c.faults = []) :
    (topLevel (c.followedBy d)).1 = (topLevel d).1 ∧
      (topLevel (c.followedBy d)).2.faults = (topLevel d).2.faults := by
  obtain ⟨ahead, stop, last, faults⟩ := c
  obtain ⟨aheadNext, stopNext, lastNext, faultsNext⟩ := d
  cases List.isEmpty_iff.mp ends
  cases clean
  cases aheadNext with
  | nil =>
    rw [topLevel_end rfl, topLevel_end rfl]
    exact ⟨rfl, rfl⟩
  | cons word rest =>
    have more : ¬ (⟨word :: rest, stopNext, lastNext, faultsNext⟩ : Cursor).atEnd = true :=
      Bool.false_ne_true
    have moreFollowed : ¬ ((⟨[], stop, last, []⟩ : Cursor).followedBy
        ⟨word :: rest, stopNext, lastNext, faultsNext⟩).atEnd = true := Bool.false_ne_true
    rw [← topLevel_fresh more, ← topLevel_fresh moreFollowed]
    exact ⟨rfl, rfl⟩

/-! ## Texts -/

/-- The last token of a text that is no comment, if there is one, ends a statement or a block. -/
def EndsComplete (text : String) : Prop :=
  ∀ token ∈ ((scan text).tokens.filter fun token => token.kind != .comment).getLast?,
    token.isSymbol ";" = true ∨ token.isSymbol "\x7d" = true

theorem attachComments_spoken (pending tokens : List Token) :
    (attachComments pending tokens).1.map (·.token) =
      tokens.filter fun token => token.kind != .comment := by
  induction tokens generalizing pending with
  | nil => rfl
  | cons token rest ih =>
    rw [attachComments, List.filter_cons]
    split
    · next comment => simp [comment, ih]
    · next spoken => simp [spoken, ih]

theorem EndsComplete.complete {text : String} (ends : EndsComplete text) :
    (scan text).cursor.Complete := by
  intro token isLast
  refine (Bool.or_eq_true ..).mpr (ends token ?_)
  rwa [← attachComments_spoken []]

end Notation

def Diagnostic.moved (f : Position → Position) (d : Diagnostic) : Diagnostic :=
  { d with span := d.span.moved f }

namespace Notation

/-- What a text holds that stands elsewhere. -/
def Parsed.moved (f : Position → Position) (found : Parsed) : Parsed :=
  ⟨found.symbols.map (Symbol.moved f), found.imports.map (Import.moved f),
    found.diagnostics.map (Diagnostic.moved f)⟩

/-- Two texts on lines of their own are read one after the other, if the first is complete and
has no fault: what the second holds is the same as on its own, so many lines further down as the
first has line feeds and one more. -/
theorem parse_followed (file : String) {first : String} (second : String) (isLibrary : Bool)
    (clean : (parse file first isLibrary).diagnostics = []) (ends : EndsComplete first) :
    let before := parse file first isLibrary
    let after :=
      (parse file second isLibrary).moved (Position.down (first.toList.count '\n' + 1))
    parse file (first ++ "\n" ++ second) isLibrary =
      ⟨before.symbols ++ after.symbols, before.imports ++ after.imports, after.diagnostics⟩ := by
  have cleanRead : (topLevel (scan first).cursor).2.faults = [] := by
    simpa [parse] using clean
  have cleanScan : (scan first).faults = [] := by
    simpa [Scan.cursor] using (topLevel_spoken _ cleanRead).1
  have onward := topLevel_onward
    ((scan second).cursor.moved (Position.down (first.toList.count '\n' + 1)))
    (scan first).cursor ends.complete cleanRead
  obtain ⟨members, faults⟩ := topLevel_followedBy
    ((scan second).cursor.moved (Position.down (first.toList.count '\n' + 1)))
    (topLevel_atEnd (scan first).cursor) cleanRead
  rw [topLevel_moved] at members faults
  rw [← scan_followed second cleanScan, members] at onward
  have membersBoth := congrArg Prod.fst onward
  have faultsBoth := (congrArg (·.2.faults) onward).trans faults
  dsimp only at membersBoth faultsBoth
  dsimp only
  rw [parse, parse, parse]
  simp only [membersBoth, faultsBoth, Parsed.moved, symbolsOf_append, symbolsOf_moved,
    importsOf_append, importsOf_moved, Cursor.moved, List.map_reverse, List.map_map]
  rfl

/-- A part that ends with its semicolon is complete, so that the part on the next line is read as
on its own. -/
theorem parse_followed_part :
    (parse "car.sysml" "part a;" false).diagnostics = [] ∧ EndsComplete "part a;" ∧
      parse "car.sysml" ("part a;" ++ "\n" ++ "part b;") false =
        ⟨(parse "car.sysml" "part a;" false).symbols ++
            ((parse "car.sysml" "part b;" false).moved (Position.down 1)).symbols,
          (parse "car.sysml" "part a;" false).imports ++
            ((parse "car.sysml" "part b;" false).moved (Position.down 1)).imports,
          ((parse "car.sysml" "part b;" false).moved (Position.down 1)).diagnostics⟩ := by
  have clean : (parse "car.sysml" "part a;" false).diagnostics = [] := by decide +kernel
  have last : ((scan "part a;").tokens.filter fun token => token.kind != .comment).getLast? =
      some ⟨.symbol, ";", ⟨⟨0, 6⟩, ⟨0, 7⟩⟩⟩ := by decide +kernel
  have ends : EndsComplete "part a;" := by
    intro token isLast
    rw [last] at isLast
    cases isLast
    exact .inl rfl
  exact ⟨clean, ends, parse_followed "car.sysml" "part b;" false clean ends⟩

end Notation

end Sysml
