import Sysml.Proofs.Notation.Outline
import Sysml.Proofs.Notation.Passage
import Sysml.Proofs.Notation.Steps

/-!
# Texts that stand elsewhere

Reading looks at what tokens are and never at where they stand. So wherever the places of a text
are moved to, the same is read, with its places moved (`topLevel_moved`). It looks at comments only
where documentation, a comment or a representation begins: without these the comments may also be
taken away (`topLevel_recast`). So two texts with the same tokens but for comments, where nothing
looks for comments, are read as the same but for places (`parse_respaced`).
-/

set_option autoImplicit false

namespace Sysml

/-- The span between the places that its ends are moved to. -/
def Span.moved (f : Position → Position) (span : Span) : Span :=
  ⟨f span.start, f span.stop⟩

def Reference.moved (f : Position → Position) (reference : Reference) : Reference :=
  { reference with span := reference.span.moved f }

def Import.moved (f : Position → Position) (i : Import) : Import :=
  { i with span := i.span.moved f }

namespace Notation

def Token.moved (f : Position → Position) (token : Token) : Token :=
  { token with span := token.span.moved f }

def Word.moved (f : Position → Position) (word : Word) : Word :=
  ⟨word.comments.map (Token.moved f), word.token.moved f⟩

def Fault.moved (f : Position → Position) (fault : Fault) : Fault :=
  { fault with span := fault.span.moved f }

def Cursor.moved (f : Position → Position) (c : Cursor) : Cursor :=
  ⟨c.ahead.map (Word.moved f), c.stop.moved f, c.last.map (Token.moved f),
    c.faults.map (Fault.moved f)⟩

/-- The word with its places moved; comments before it stay if they are kept. -/
def Word.recast (f : Position → Position) (keep : Bool) (word : Word) : Word :=
  ⟨if keep then word.comments.map (Token.moved f) else [], word.token.moved f⟩

/-- The place between tokens with its places moved, and with or without the comments ahead. -/
def Cursor.recast (f : Position → Position) (keep : Bool) (c : Cursor) : Cursor :=
  ⟨c.ahead.map (Word.recast f keep), c.stop.recast f keep, c.last.map (Token.moved f),
    c.faults.map (Fault.moved f)⟩

def Heading.moved (f : Position → Position) (heading : Heading) : Heading :=
  { heading with
    references := heading.references.map (Reference.moved f), anchor := heading.anchor.moved f }

def Statement.moved (f : Position → Position) : Statement → Statement
  | .skipped => .skipped
  | .imported i => .imported (i.moved f)
  | .documented text => .documented text
  | .declared heading => .declared (heading.map (Heading.moved f))
  | .opened heading opening => .opened (heading.map (Heading.moved f)) (opening.moved f)

mutual

def Member.moved (f : Position → Position) : Member → Member
  | .declared heading stop members => .declared (heading.moved f) (f stop) (membersMoved f members)
  | .imported i => .imported (i.moved f)
  | .documented text => .documented text

def membersMoved (f : Position → Position) : List Member → List Member
  | [] => []
  | member :: rest => member.moved f :: membersMoved f rest

end

theorem membersMoved_append (f : Position → Position) (left right : List Member) :
    membersMoved f (left ++ right) = membersMoved f left ++ membersMoved f right := by
  induction left with
  | nil => rfl
  | cons member rest ih => rw [List.cons_append, membersMoved, membersMoved, ih, List.cons_append]

variable {f : Position → Position}

section Tokens

@[simp] theorem Token.moved_kind (token : Token) : (token.moved f).kind = token.kind := rfl

@[simp] theorem Token.moved_text (token : Token) : (token.moved f).text = token.text := rfl

@[simp] theorem Token.moved_span (token : Token) : (token.moved f).span = token.span.moved f := rfl

@[simp] theorem Token.moved_isSymbol (token : Token) (s : String) :
    (token.moved f).isSymbol s = token.isSymbol s := rfl

@[simp] theorem Token.moved_isKeyword (token : Token) (s : String) :
    (token.moved f).isKeyword s = token.isKeyword s := rfl

@[simp] theorem Token.moved_isName (token : Token) : (token.moved f).isName = token.isName := rfl

@[simp] theorem isSeparator_moved (chain : Bool) (token : Token) :
    isSeparator chain (token.moved f) = isSeparator chain token := rfl

@[simp] theorem relationship?_moved (kind : SymbolKind) (token : Token) (byFollows : Bool) :
    relationship? kind (token.moved f) byFollows = relationship? kind token byFollows := rfl

end Tokens

namespace Cursor

variable (c : Cursor) {keep : Bool}

@[simp] theorem recast_atEnd : (c.recast f keep).atEnd = c.atEnd := by
  simp [atEnd, recast]

@[simp] theorem recast_length : (c.recast f keep).length = c.length := by
  simp [length, recast]

@[simp] theorem recast_here : (c.recast f keep).here = c.here.moved f := by
  obtain ⟨ahead, stop, last, faults⟩ := c
  cases ahead <;> rfl

@[simp] theorem recast_sees (p : Token → Bool) :
    (c.recast f keep).sees p = c.sees fun token => p (token.moved f) := by
  obtain ⟨ahead, stop, last, faults⟩ := c
  cases ahead <;> rfl

@[simp] theorem recast_seesNext (p : Token → Bool) :
    (c.recast f keep).seesNext p = c.seesNext fun token => p (token.moved f) := by
  obtain ⟨ahead, stop, last, faults⟩ := c
  cases ahead with
  | nil => rfl
  | cons word rest => cases rest <;> rfl

@[simp] theorem recast_last : (c.recast f keep).last = c.last.map (Token.moved f) := rfl

@[simp] theorem recast_advance : (c.recast f keep).advance = c.advance.recast f keep := by
  obtain ⟨ahead, stop, last, faults⟩ := c
  cases ahead <;> rfl

@[simp] theorem recast_comment? : (c.recast f true).comment? = c.comment?.map (Token.moved f) := by
  obtain ⟨ahead, stop, last, faults⟩ := c
  cases ahead <;> exact List.head?_map

@[simp] theorem recast_passComment :
    (c.recast f true).passComment = c.passComment.recast f true := by
  obtain ⟨ahead, stop, last, faults⟩ := c
  cases ahead <;> simp [passComment, recast, Word.recast]

@[simp] theorem recast_report (span : Span) (problem : SyntaxProblem) :
    (c.recast f keep).report (span.moved f) problem = (c.report span problem).recast f keep := rfl

@[simp] theorem recast_reportIf (wrong : Bool) (span : Span) (problem : SyntaxProblem) :
    (c.recast f keep).reportIf wrong (span.moved f) problem =
      (c.reportIf wrong span problem).recast f keep := by
  cases wrong <;> rfl

@[simp] theorem recast_relationship? (kind : SymbolKind) :
    (c.recast f keep).relationship? kind = c.relationship? kind := by
  simp [relationship?]

end Cursor

def remarkKeywords : List String :=
  ["doc", "comment", "rep"]

/-- No word ahead opens documentation, a comment or a representation. -/
def Cursor.Unremarked (c : Cursor) : Prop :=
  ∀ token ∈ c.tokens, token.kind = .word → token.text ∉ remarkKeywords

theorem Cursor.Unremarked.passes {c after : Cursor} {marks : List Position}
    (unremarked : c.Unremarked) (passes : Passes marks c after) : after.Unremarked := by
  obtain ⟨passed, same, -⟩ := passes
  exact fun token ahead => unremarked token (same ▸ List.mem_append_right passed ahead)

theorem Cursor.Unremarked.here {c : Cursor} (unremarked : c.Unremarked)
    (word : c.sees (·.kind == .word) = true) : c.here.text ∉ remarkKeywords := by
  obtain ⟨ahead, stop, last, faults⟩ := c
  cases ahead with
  | nil => cases word
  | cons first rest => exact unremarked first.token List.mem_cons_self (beq_iff_eq.mp word)

section Statements

variable (c : Cursor) {keep : Bool}

theorem pathTail_recast (chain : Bool) :
    pathTail chain (c.recast f keep) =
      ((pathTail chain c).1, (pathTail chain c).2.recast f keep) := by
  fun_induction pathTail chain c with
  | case1 c more parts after same ih =>
    rw [pathTail, dif_pos (by simpa using more)]
    simp only [Cursor.recast_advance, ih, same, Cursor.recast_here, Token.moved_text]
  | case2 c more =>
    rw [pathTail, dif_neg (by simpa using more)]

theorem path?_recast (chain : Bool) :
    path? chain (c.recast f keep) =
      (path? chain c).map fun found => (found.1, found.2.recast f keep) := by
  simp only [path?, Cursor.recast_sees, Token.moved_isName, Cursor.recast_advance, pathTail_recast,
    Cursor.recast_here, Token.moved_text]
  split <;> rfl

theorem passMark_recast : passMark (c.recast f keep) = (passMark c).recast f keep := by
  rw [passMark, passMark, Cursor.recast_advance, path?_recast]
  cases path? false c.advance <;> rfl

theorem leadFrom_recast (lead : Lead) (c : Cursor) :
    leadFrom lead (c.recast f keep) = ((leadFrom lead c).1, (leadFrom lead c).2.recast f keep) := by
  rw [leadFrom_eq, leadFrom_eq lead c]
  simp only [Cursor.recast_sees, Token.moved_isSymbol, Token.moved_kind, Cursor.recast_here,
    Token.moved_text, passMark_recast, Cursor.recast_advance]
  split
  · next mark =>
    have shorter := passMark_length mark
    exact leadFrom_recast lead (passMark c)
  · split
    · next word =>
      have shorter := Cursor.advance_length_of_sees word
      split
      · next known _ => exact leadFrom_recast known c.advance
      · rfl
    · rfl
termination_by c.length
decreasing_by all_goals omega

theorem closeGroup_recast (opening closing : String) (first : Span) (depth : Nat) :
    closeGroup opening closing (first.moved f) depth (c.recast f keep) =
      (closeGroup opening closing first depth c).recast f keep := by
  fun_induction closeGroup opening closing first depth c
  all_goals rw [closeGroup] <;> simp_all

theorem skipGroup_recast (opening closing : String) :
    skipGroup opening closing (c.recast f keep) = (skipGroup opening closing c).recast f keep := by
  simp [skipGroup, closeGroup_recast]

theorem skipStatement_recast :
    skipStatement (c.recast f keep) = (skipStatement c).recast f keep := by
  fun_induction skipStatement c
  all_goals
    rw [skipStatement]
    simp_all [skipGroup_recast]

theorem skipOperands_recast (depth : Nat) :
    skipOperands depth (c.recast f keep) = (skipOperands depth c).recast f keep := by
  fun_induction skipOperands depth c
  all_goals
    rw [skipOperands]
    simp_all

theorem skipConjugation_recast :
    skipConjugation (c.recast f keep) = (skipConjugation c).recast f keep := by
  simp only [skipConjugation, Cursor.recast_sees, Token.moved_isSymbol, Cursor.recast_advance]
  split <;> rfl

theorem passOperator_recast : passOperator (c.recast f keep) = (passOperator c).recast f keep := by
  simp only [passOperator, Cursor.recast_here, Token.moved_text, Cursor.recast_advance]
  split <;> rfl

theorem targets_recast (kind : RefKind) (c : Cursor) :
    targets kind (c.recast f keep) =
      ((targets kind c).1.map (Reference.moved f), (targets kind c).2.recast f keep) := by
  rw [targets_eq, targets_eq kind c, skipConjugation_recast, path?_recast]
  cases found : path? true (skipConjugation c) with
  | none => rfl
  | some read =>
    obtain ⟨target, after⟩ := read
    have last : (after.last.map (Token.moved f)).getD ((skipConjugation c).here.moved f) =
        (after.last.getD (skipConjugation c).here).moved f := by
      cases after.last <;> rfl
    simp only [Option.map_some, Cursor.recast_sees, Token.moved_isSymbol, Cursor.recast_here,
      Cursor.recast_last, Cursor.recast_advance, last]
    split
    · next comma =>
      have read := path?_length found
      have skipped := skipConjugation_length c
      have shorter := Cursor.advance_length_of_sees comma
      rw [targets_recast kind after.advance]
      rfl
    · rfl
termination_by c.length
decreasing_by omega

theorem startsDeclaration_recast : startsDeclaration (c.recast f keep) = startsDeclaration c := by
  simp [startsDeclaration]

theorem afterTargets_recast (relationship : RefKind) :
    afterTargets relationship (c.recast f keep) = (afterTargets relationship c).recast f keep := by
  simp [afterTargets, passOperator_recast, targets_recast]

theorem header_recast (kind : SymbolKind) :
    header kind (c.recast f keep) =
      ((header kind c).1.map (Reference.moved f), (header kind c).2.1,
        (header kind c).2.2.recast f keep) := by
  fun_induction header kind c
  all_goals first
    | rw [header]; simp_all [skipGroup_recast, skipOperands_recast, startsDeclaration_recast]; done
    | skip
  next c _ noEnd noBody noBrace relationship announced found next references ending rest same ih =>
    rw [header_announced ((c.recast_relationship? kind).trans announced) (by simpa using noEnd)
      (by simpa using noBody) (by simpa using noBrace), passOperator_recast, targets_recast,
      afterTargets_recast]
    have read : header kind ((afterTargets relationship c).recast f keep) = _ := ih
    rw [read, same, List.map_append]

theorem shortName_recast :
    shortName (c.recast f keep) = ((shortName c).1, (shortName c).2.recast f keep) := by
  unfold shortName
  simp only [Cursor.recast_sees, Token.moved_isSymbol, Cursor.recast_advance, Token.moved_isName,
    Cursor.recast_here, Token.moved_text]
  split
  · split <;> (simp; split <;> rfl)
  · rfl

theorem importStars_recast (isNamespace isRecursive : Bool) :
    importStars isNamespace isRecursive (c.recast f keep) =
      ((importStars isNamespace isRecursive c).1, (importStars isNamespace isRecursive c).2.1,
        (importStars isNamespace isRecursive c).2.2.recast f keep) := by
  fun_induction importStars isNamespace isRecursive c
  all_goals
    rw [importStars]
    simp_all

theorem drop_recast : (c.recast f keep).drop = c.drop.recast f keep := by
  rw [Cursor.drop, Cursor.recast_advance]
  rfl

theorem skipRemark_recast (c : Cursor) :
    skipRemark (c.recast f true) = (skipRemark c).recast f true := by
  rw [skipRemark_eq, skipRemark_eq c]
  simp only [Cursor.recast_comment?, Option.isSome_map, Cursor.recast_passComment,
    Cursor.recast_atEnd, Cursor.recast_sees, Token.moved_isSymbol, drop_recast]
  split
  · rfl
  · split
    · rfl
    · next more =>
      have shorter : c.drop.length < c.length := Cursor.advance_length_of_not_atEnd more
      rw [skipRemark_recast c.drop]
      split
      · rfl
      · split <;> rfl
termination_by c.length
decreasing_by exact shorter

theorem passName_recast : passName (c.recast f keep) = (passName c).recast f keep := by
  simp only [passName, Cursor.recast_sees, Token.moved_isName, Cursor.recast_advance]
  split <;> rfl

theorem nameHere?_recast : nameHere? (c.recast f keep) = (nameHere? c).map (Token.moved f) := by
  simp only [nameHere?, Cursor.recast_sees, Token.moved_isName, Cursor.recast_here]
  split <;> rfl

theorem redefinedName?_moved (references : List Reference) :
    redefinedName? (references.map (Reference.moved f)) = redefinedName? references := by
  have same : (fun reference : Reference => reference.kind == .redefinition) ∘ Reference.moved f =
      fun reference => reference.kind == .redefinition := rfl
  rw [redefinedName?, redefinedName?, List.find?_map, same]
  cases references.find? fun reference => reference.kind == .redefinition <;> rfl

theorem headingOf_moved (kind : SymbolKind) (lead : Lead) (start : Token) (shortName : String)
    (name? : Option Token) (references : List Reference) :
    headingOf kind lead (start.moved f) shortName (name?.map (Token.moved f))
        (references.map (Reference.moved f)) =
      (headingOf kind lead start shortName name? references).map (Heading.moved f) := by
  unfold headingOf
  rw [redefinedName?_moved]
  cases name? with
  | none => cases redefinedName? references <;> rfl
  | some name => rfl

theorem finish_recast (ending : HeaderEnd) (heading : Option Heading) :
    ending.finish (heading.map (Heading.moved f)) (c.recast f keep) =
      ((ending.finish heading c).1.moved f, (ending.finish heading c).2.recast f keep) := by
  cases ending with
  | closed => rfl
  | opens => simp [HeaderEnd.finish, Statement.moved]

theorem declaration_recast (kind : SymbolKind) (lead : Lead) (needsName : Bool) :
    declaration kind lead needsName (c.recast f keep) =
      ((declaration kind lead needsName c).1.moved f,
        (declaration kind lead needsName c).2.recast f keep) := by
  simp only [declaration_eq, shortName_recast, passName_recast, header_recast, Cursor.recast_here,
    nameHere?_recast, headingOf_moved, Option.isNone_map, Token.moved_span, Cursor.recast_reportIf,
    finish_recast]

theorem importStart_recast : importStart (c.recast f keep) = (importStart c).recast f keep := by
  simp only [importStart, Cursor.recast_advance, Cursor.recast_sees, Token.moved_isKeyword]
  split <;> rfl

theorem passConditions_recast :
    passConditions (c.recast f keep) = (passConditions c).recast f keep := by
  simp only [passConditions, Cursor.recast_sees, Token.moved_isSymbol, skipGroup_recast]
  split <;> rfl

theorem importEnd_recast : importEnd (c.recast f keep) = (importEnd c).recast f keep := by
  simp only [importEnd, Cursor.recast_sees, Token.moved_isSymbol, Cursor.recast_advance,
    Cursor.recast_here, Token.moved_span, Cursor.recast_report, skipStatement_recast]
  split <;> rfl

theorem importStatement_recast (lead : Lead) :
    importStatement lead (c.recast f keep) =
      ((importStatement lead c).1.moved f, (importStatement lead c).2.recast f keep) := by
  rw [importStatement_eq, importStatement_eq lead c]
  simp only [importStart_recast, path?_recast, Cursor.recast_here, Token.moved_text,
    Token.moved_span, Cursor.recast_report, skipStatement_recast]
  cases path? false (importStart c) with
  | none => rfl
  | some found =>
    have last (stars : Cursor) : ((stars.last.map (Token.moved f)).getD
        ((importStart c).here.moved f)) = (stars.last.getD (importStart c).here).moved f := by
      cases stars.last <;> rfl
    simp only [Option.map_some, importStars_recast, passConditions_recast, importEnd_recast,
      Cursor.recast_last, last]
    rfl

theorem passDocName_recast : passDocName (c.recast f true) = (passDocName c).recast f true := by
  simp only [passDocName, Cursor.recast_comment?, Option.isNone_map, Cursor.recast_sees,
    Token.moved_isName, Cursor.recast_advance]
  split <;> rfl

theorem passLocale_recast : passLocale (c.recast f true) = (passLocale c).recast f true := by
  simp only [passLocale, Cursor.recast_sees, Token.moved_isKeyword, Token.moved_kind,
    Cursor.recast_advance]
  split
  · split <;> rfl
  · rfl

theorem docStatement_recast :
    docStatement (c.recast f true) =
      ((docStatement c).1.moved f, (docStatement c).2.recast f true) := by
  simp only [docStatement_eq, Cursor.recast_advance, passDocName_recast, passLocale_recast,
    Cursor.recast_comment?, Cursor.recast_here, Token.moved_span, Cursor.recast_report,
    Cursor.recast_passComment]
  cases (passLocale (passDocName c.advance)).comment? <;> rfl

theorem familyHead?_recast :
    familyHead? (c.recast f keep) =
      (familyHead? c).map fun found => (found.1, found.2.recast f keep) := by
  simp only [familyHead?, Cursor.recast_here, Token.moved_text, Cursor.recast_seesNext,
    Token.moved_isKeyword, Cursor.recast_advance]
  split
  · split
    · rfl
    · rw [Option.map_map]
      rfl
  · rw [Option.map_map]
    rfl

theorem keywordStatement?_recast (lead : Lead)
    (silent : keep = true ∨ c.here.text ∉ remarkKeywords) :
    keywordStatement? lead (c.recast f keep) =
      (keywordStatement? lead c).map fun found => (found.1.moved f, found.2.recast f keep) := by
  simp only [keywordStatement?, Cursor.recast_here, Token.moved_text, importStatement_recast,
    Cursor.recast_advance, declaration_recast, familyHead?_recast]
  split
  · rfl
  · split
    · next isDoc =>
      rcases silent with rfl | silent
      · rw [docStatement_recast]
        rfl
      · exact absurd (isDoc ▸ List.mem_cons_self) silent
    · split
      · next isRemark =>
        rcases silent with rfl | silent
        · rw [skipRemark_recast]
          rfl
        · exact absurd (by simp [remarkKeywords, isRemark]) silent
      · split
        · rfl
        · split
          · rfl
          · cases familyHead? c with
            | some found =>
              simp only [Option.map_some, Cursor.recast_sees, Token.moved_isKeyword,
                Cursor.recast_advance, declaration_recast]
              split <;> rfl
            | none =>
              simp only [Option.map_none, Option.map_map, Cursor.recast_sees, Token.moved_isKeyword]
              congr 1
              funext kind
              simp only [Function.comp_apply]
              split <;> exact declaration_recast ..

theorem plainStatement_recast (lead : Lead) :
    plainStatement lead (c.recast f keep) =
      ((plainStatement lead c).1.moved f, (plainStatement lead c).2.recast f keep) := by
  simp only [plainStatement, Cursor.recast_sees, Cursor.recast_seesNext, Token.moved_isSymbol,
    Token.moved_isKeyword, Token.moved_isName, relationship?_moved, declaration_recast,
    skipStatement_recast]
  split
  · rfl
  · split
    · rfl
    · split <;> rfl

theorem Statement.read_recast (silent : keep = true ∨ c.Unremarked) :
    Statement.read (c.recast f keep) =
      ((Statement.read c).1.moved f, (Statement.read c).2.recast f keep) := by
  have onward := (leadFrom_moves {} c).passes
  unfold Statement.read
  rw [leadFrom_recast]
  generalize leadFrom {} c = led at *
  obtain ⟨lead, next⟩ := led
  simp only [Cursor.recast_atEnd, Cursor.recast_sees, Token.moved_isSymbol, Token.moved_kind,
    Cursor.recast_advance, plainStatement_recast]
  split
  · rfl
  · split
    · rfl
    · split
      · next word =>
        rw [keywordStatement?_recast next lead
          (silent.imp_right fun unremarked => (unremarked.passes onward).here word)]
        cases keywordStatement? lead next <;> rfl
      · rfl

end Statements

variable {keep : Bool}

theorem membersOf_moved (heading : Option Heading) (last : Option Token) (inner : List Member) :
    membersOf (heading.map (Heading.moved f)) (last.map (Token.moved f)) (membersMoved f inner) =
      membersMoved f (membersOf heading last inner) := by
  cases heading with
  | none => rfl
  | some heading => cases last <;> rfl

mutual

theorem element_recast (c : Cursor) (silent : keep = true ∨ c.Unremarked) :
    element (c.recast f keep) = (membersMoved f (element c).1, (element c).2.recast f keep) := by
  have onward := Statement.read_passes c
  rw [element_eq, element_eq c, Statement.read_recast c silent]
  cases read : Statement.read c with
  | mk statement after =>
    rw [read] at onward
    cases statement with
    | skipped | imported | documented => rfl
    | declared heading =>
      simp only [Statement.moved, Cursor.recast_last]
      rw [← membersOf_moved]
      rfl
    | opened heading opening =>
      have shorter := Statement.read_opens_length read
      have further : keep = true ∨ after.Unremarked := silent.imp_right (·.passes onward)
      simp only [Statement.moved, block_recast opening after further, Cursor.recast_last,
        membersOf_moved]
termination_by 2 * c.length
decreasing_by omega

theorem block_recast (opening : Span) (c : Cursor) (silent : keep = true ∨ c.Unremarked) :
    block (opening.moved f) (c.recast f keep) =
      (membersMoved f (block opening c).1, (block opening c).2.recast f keep) := by
  have further : keep = true ∨ (element c).2.Unremarked :=
    silent.imp_right (·.passes (element_passes c))
  rw [block, block.eq_def opening c]
  simp only [Cursor.recast_atEnd, Cursor.recast_sees, Token.moved_isSymbol, Cursor.recast_advance,
    Cursor.recast_report, element_recast c silent, Cursor.recast_length]
  split
  · rfl
  · split
    · rfl
    · split
      · next shorter =>
        simp only [block_recast opening (element c).2 further, membersMoved_append]
      · rfl
termination_by 2 * c.length + 1
decreasing_by all_goals omega

end

/-- Wherever the places of a text are moved to, the same is read, with its places moved. Where
nothing looks for comments, they may be taken away. -/
theorem topLevel_recast (c : Cursor) (silent : keep = true ∨ c.Unremarked) :
    topLevel (c.recast f keep) = (membersMoved f (topLevel c).1, (topLevel c).2.recast f keep) := by
  fun_induction topLevel c with
  | case1 c ends =>
    rw [topLevel, if_pos (by simpa using ends)]
    rfl
  | case2 c more closes ih =>
    rw [topLevel, if_neg (by simpa using more), if_pos (by simpa using closes)]
    simpa using ih (silent.imp_right (·.passes (.advance c)))
  | case3 c more closes members next read shorter others rest same ih =>
    have onward := element_passes c
    rw [read] at onward
    rw [topLevel, if_neg (by simpa using more), if_neg (by simpa using closes)]
    simp only [element_recast c silent, read, Cursor.recast_length, if_pos shorter,
      ih (silent.imp_right (·.passes onward)), same, membersMoved_append]
  | case4 c more closes members next read stays =>
    rw [topLevel, if_neg (by simpa using more), if_neg (by simpa using closes)]
    simp only [element_recast c silent, read, Cursor.recast_length, if_neg stays]

theorem topLevel_moved (c : Cursor) :
    topLevel (c.moved f) = (membersMoved f (topLevel c).1, (topLevel c).2.moved f) :=
  topLevel_recast c (.inl rfl)

/-! ## Symbols -/

theorem importsOf_moved (members : List Member) :
    importsOf (membersMoved f members) = (importsOf members).map (Import.moved f) := by
  induction members with
  | nil => rfl
  | cons member rest ih =>
    unfold importsOf at ih ⊢
    rw [membersMoved, List.filterMap_cons, List.filterMap_cons, ih]
    cases member <;> rfl

theorem docOf_moved (members : List Member) : docOf (membersMoved f members) = docOf members := by
  unfold docOf
  congr 1
  induction members with
  | nil => rfl
  | cons member rest ih =>
    rw [membersMoved, List.filterMap_cons, List.filterMap_cons, ih]
    cases member <;> rfl

end Notation

def Symbol.moved (f : Position → Position) (symbol : Symbol) : Symbol :=
  { symbol with
    span := symbol.span.moved f, references := symbol.references.map (Reference.moved f)
    imports := symbol.imports.map (Import.moved f) }

namespace Notation

variable {f : Position → Position}

mutual

theorem Member.symbols_moved (file : String) (isLibrary : Bool) (owner : Option String) :
    (member : Member) → (member.moved f).symbols file isLibrary owner =
      (member.symbols file isLibrary owner).map (Symbol.moved f)
  | .declared heading stop members => by
    simp only [Member.moved, Member.symbols, docOf_moved, importsOf_moved, List.map_cons,
      symbolsOf_moved file isLibrary _ members]
    rfl
  | .imported _ | .documented _ => rfl

theorem symbolsOf_moved (file : String) (isLibrary : Bool) (owner : Option String) :
    (members : List Member) → symbolsOf file isLibrary owner (membersMoved f members) =
      (symbolsOf file isLibrary owner members).map (Symbol.moved f)
  | [] => rfl
  | member :: rest => by
    rw [membersMoved, symbolsOf, symbolsOf, List.map_append,
      Member.symbols_moved file isLibrary owner member, symbolsOf_moved file isLibrary owner rest]

end

/-! ## Scans -/

def Scanned.moved (f : Position → Position) : Scanned → Scanned
  | .token found => .token (found.moved f)
  | .stray c span => .stray c (span.moved f)
  | .openComment span => .openComment (span.moved f)

/-- The places are moved together: what follows a place still follows it. -/
def Together (f : Position → Position) : Prop :=
  ∀ (place : Position) (c : Char), f (place.next c) = (f place).next c

theorem Together.after (together : Together f) (place : Position) (text : List Char) :
    f (place.after text) = (f place).after text := by
  induction text generalizing place with
  | nil => rfl
  | cons c rest ih =>
    have moved : f ((place.next c).after rest) = (f (place.next c)).after rest := ih (place.next c)
    rw [together] at moved
    exact moved

/-- A text that starts elsewhere has the same tokens there. -/
theorem scanFrom_moved (together : Together f) (place : Position) (text : List Char) :
    scanFrom (f place) text = (scanFrom place text).map (Scanned.moved f) := by
  fun_induction scanFrom place text with
  | case1 => rw [scanFrom_nil, List.map_nil]
  | case2 place c tail found next skipped ih =>
    rw [scanFrom_step]
    simp only [← together.after]
    rw [skipped]
    exact ih
  | case3 place c tail found next span kind isToken ih =>
    rw [scanFrom_step]
    simp only [← together.after]
    rw [isToken, List.map_cons, ← ih]
    rfl
  | case4 place c tail found next span opens =>
    rw [scanFrom_step]
    simp only [← together.after]
    rw [opens]
    rfl
  | case5 place c tail found next span stray ih =>
    rw [scanFrom_step]
    simp only [← together.after]
    rw [stray, List.map_cons, ← ih]
    rfl

theorem attachComments_moved (pending tokens : List Token) :
    attachComments (pending.map (Token.moved f)) (tokens.map (Token.moved f)) =
      ((attachComments pending tokens).1.map (Word.moved f),
        (attachComments pending tokens).2.map (Token.moved f)) := by
  induction tokens generalizing pending with
  | nil => rfl
  | cons token rest ih =>
    by_cases isComment : token.kind = .comment
    · rw [List.map_cons, attachComments, Token.moved_kind, if_pos isComment, attachComments,
        if_pos isComment, ← ih, List.map_append]
      rfl
    · have others := ih []
      rw [List.map_nil] at others
      rw [List.map_cons, attachComments, Token.moved_kind, if_neg isComment, attachComments,
        if_neg isComment, others]
      rfl

end Notation

/-! ## White space and comments between the tokens -/

def Diagnostic.unplaced (diagnostic : Diagnostic) : Diagnostic :=
  { diagnostic with span := {} }

namespace Notation

/-- What a source file holds, wherever it stands. -/
def Parsed.unplaced (found : Parsed) : Parsed :=
  ⟨found.symbols.map Symbol.unplaced, found.imports.map Import.unplaced,
    found.diagnostics.map Diagnostic.unplaced⟩

/-- The tokens that are no comments, as what they are and what they say. -/
def Scan.words (s : Scan) : List (TokenKind × String) :=
  (s.tokens.filter fun token => token.kind != .comment).map fun token => (token.kind, token.text)

def nowhere (_ : Position) : Position :=
  {}

/-! ## Cursors without places and comments -/

/-- The cursor before tokens that stand nowhere, without comments. -/
def barely (words : List (TokenKind × String)) : Cursor :=
  ⟨words.map fun word => ⟨[], ⟨word.1, word.2, {}⟩⟩, ⟨[], ⟨.stop, "", {}⟩⟩, none, []⟩

theorem attachComments_bare (pending tokens : List Token) :
    (attachComments pending tokens).1.map (Word.recast nowhere false) =
      ((tokens.filter fun token => token.kind != .comment).map fun token =>
        (token.kind, token.text)).map fun word => ⟨[], ⟨word.1, word.2, {}⟩⟩ := by
  induction tokens generalizing pending with
  | nil => rfl
  | cons token rest ih =>
    by_cases isComment : token.kind = .comment
    · rw [attachComments, if_pos isComment, ih, List.filter_cons_of_neg (by simp [isComment])]
    · rw [attachComments, if_neg isComment, List.filter_cons_of_pos (by simpa using isComment),
        List.map_cons, List.map_cons, List.map_cons, ih []]
      rfl

theorem cursor_bare {s : Scan} (clean : s.faults = [])
    (stops : s.stop.moved nowhere = ⟨.stop, "", {}⟩) :
    s.cursor.recast nowhere false = barely s.words := by
  have words := attachComments_bare [] s.tokens
  simp only [Scan.cursor, Cursor.recast, Word.recast, clean, List.reverse_nil, List.map_nil,
    Option.map_none, stops]
  rw [barely, Scan.words, ← words]
  rfl

/-! ## Reading without places and comments -/

def parsedFrom (file : String) (isLibrary : Bool) (read : List Member × Cursor) : Parsed :=
  { symbols := symbolsOf file isLibrary none read.1
    imports := importsOf read.1
    diagnostics := read.2.faults.reverse.map fun fault =>
      ⟨file, fault.span, .syntaxProblem fault.problem⟩ }

theorem parsedFrom_unplaced (file : String) (isLibrary keep : Bool) (read : List Member × Cursor) :
    (parsedFrom file isLibrary read).unplaced =
      parsedFrom file isLibrary (membersMoved nowhere read.1, read.2.recast nowhere keep) := by
  simp only [parsedFrom, Parsed.unplaced, symbolsOf_moved, importsOf_moved, Cursor.recast,
    List.map_reverse, List.map_map]
  rfl

/-- The text opens no documentation, comment or representation. -/
def Unremarked (words : List (TokenKind × String)) : Prop :=
  ∀ word ∈ words, word.1 = .word → word.2 ∉ remarkKeywords

theorem scan_unremarked {s : Scan} (unremarked : Unremarked s.words) : s.cursor.Unremarked := by
  intro token ahead isWord
  have listed : token ∈ s.tokens := (attachComments_tokens [] s.tokens).subset ahead
  exact unremarked (token.kind, token.text)
    (List.mem_map_of_mem (List.mem_filter.mpr ⟨listed, by simp [isWord]⟩)) isWord

/-- What a text holds depends on its tokens that are no comments, but for places. -/
theorem parse_unplaced {text : String} (clean : (scan text).faults = [])
    (unremarked : Unremarked (scan text).words) (file : String) (isLibrary : Bool) :
    (parse file text isLibrary).unplaced =
      parsedFrom file isLibrary (topLevel (barely (scan text).words)) := by
  have read : parse file text isLibrary =
      parsedFrom file isLibrary (topLevel (scan text).cursor) := rfl
  have bare := @topLevel_recast nowhere false (scan text).cursor
    (.inr (scan_unremarked unremarked))
  rw [cursor_bare clean rfl] at bare
  rw [read, parsedFrom_unplaced file isLibrary false, bare]

/-- White space and comments between the tokens of a text change nothing but places: symbols with
their references and imports, the imports of the file, and the faults, in their order. -/
theorem parse_respaced {first second : String} (clean : (scan first).faults = [])
    (cleanSecond : (scan second).faults = [])
    (unremarked : ∀ token ∈ (scan first).tokens, token.kind = .word →
      token.text ∉ ["doc", "comment", "rep"])
    (same : (scan first).words = (scan second).words) (file : String) (isLibrary : Bool) :
    (parse file first isLibrary).unplaced = (parse file second isLibrary).unplaced := by
  have silent : Unremarked (scan first).words := by
    intro word listed isWord
    obtain ⟨token, isToken, rfl⟩ := List.mem_map.mp listed
    exact unremarked token (List.mem_filter.mp isToken).1 isWord
  rw [parse_unplaced clean silent, parse_unplaced cleanSecond (same ▸ silent), same]

def engineLine : String :=
  "part def Car \x7b part engine : Engine; \x7d part def"

def engineLines : String :=
  "/* a car */ part /* def */ def Car \x7b\n    // its engine\n" ++
    "    part engine: /* of */ Engine;\n\x7d\n\npart def"

theorem parse_respaced_engine :
    (parse "car.sysml" engineLine false).unplaced =
        (parse "car.sysml" engineLines false).unplaced ∧
      (parse "car.sysml" engineLine false).symbols.map (·.span) ≠
        (parse "car.sysml" engineLines false).symbols.map (·.span) := by
  obtain ⟨clean, cleanLines, unremarked, same, elsewhere⟩ :
      (scan engineLine).faults = [] ∧ (scan engineLines).faults = [] ∧
      (∀ token ∈ (scan engineLine).tokens, token.kind = .word →
        token.text ∉ ["doc", "comment", "rep"]) ∧
      (scan engineLine).words = (scan engineLines).words ∧
      (parse "car.sysml" engineLine false).symbols.map (·.span) ≠
        (parse "car.sysml" engineLines false).symbols.map (·.span) := by
    decide +kernel
  exact ⟨parse_respaced clean cleanLines unremarked same _ _, elsewhere⟩

end Notation

end Sysml
