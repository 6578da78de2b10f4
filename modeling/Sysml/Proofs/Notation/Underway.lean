import Sysml.Proofs.Notation.Following
import Sysml.Proofs.Notation.Passage
import Sysml.Proofs.Notation.Spoken

/-!
# Headers with more to come

A semicolon or a closing brace ends what it belongs to. So where the tokens ahead end with one
of them, a reader that meets no fault stops before what follows, and what follows makes no
difference to it. Here for what a declaration's header is made of (`leadFrom_onward`,
`header_onward`).
-/

set_option autoImplicit false

namespace Sysml.Notation

/-- The token ends a statement or a block. -/
def Token.ends (token : Token) : Bool :=
  token.isSymbol ";" || token.isSymbol "\x7d"

namespace Cursor

variable {c : Cursor} {p : Token → Bool}

/-- The tokens ahead, if any, end with one that ends a statement or a block. -/
def Complete (c : Cursor) : Prop :=
  ∀ token ∈ c.tokens.getLast?, token.ends = true

/-- A token is ahead, and the last one ends a statement or a block. -/
structure Underway (c : Cursor) : Prop where
  more : ¬ c.atEnd = true
  complete : c.Complete

theorem Complete.passes {after : Cursor} {marks : List Position} (complete : c.Complete)
    (passes : Passes marks c after) : after.Complete := by
  obtain ⟨passed, same, -⟩ := passes
  intro token isLast
  refine complete token ?_
  rw [same, List.getLast?_append, Option.mem_def.mp isLast]
  rfl

namespace Underway

/-- Something is left after a token that ends nothing. -/
theorem advance (under : c.Underway) (open_ : c.here.ends = false) : c.advance.Underway := by
  refine ⟨?_, under.complete.passes (.advance c)⟩
  intro ends
  obtain ⟨more, complete⟩ := under
  obtain ⟨ahead, stop, last, faults⟩ := c
  match ahead with
  | [] => exact more rfl
  | [word] =>
    have closed := complete word.token rfl
    rw [show word.token.ends = false from open_] at closed
    cases closed
  | _ :: _ :: _ => cases ends

theorem advance_over (under : c.Underway) (seen : c.sees p = true)
    (apart : ∀ token : Token, p token = true → token.ends = false) : c.advance.Underway :=
  under.advance (apart _ (by rwa [sees_here under.more] at seen))

end Underway

end Cursor

namespace Token

variable {token : Token}

theorem ends_word (word : (token.kind == .word) = true) : token.ends = false := by
  rw [beq_iff_eq] at word
  simp [ends, isSymbol, word]

theorem ends_keyword {text : String} (keyword : token.isKeyword text = true) :
    token.ends = false := by
  refine ends_word ?_
  rw [isKeyword, Bool.and_eq_true] at keyword
  exact keyword.1

theorem ends_name (name : token.isName = true) : token.ends = false := by
  simp only [isName, Bool.or_eq_true, Bool.and_eq_true, beq_iff_eq] at name
  rcases name with quoted | ⟨word, -⟩
  · simp [ends, isSymbol, quoted]
  · exact ends_word (by simpa using word)

theorem ends_mark {text : String} (mark : token.isSymbol text = true)
    (other : text ∉ [";", "\x7d"]) : token.ends = false := by
  simp only [isSymbol, Bool.and_eq_true, beq_iff_eq] at mark
  simp only [List.mem_cons, List.not_mem_nil, or_false, not_or] at other
  simp [ends, isSymbol, mark.2, other.1, other.2]

end Token

/-- What ends a statement announces no reference. -/
theorem relationship?_ends {kind : SymbolKind} {token : Token} (byFollows : Bool)
    (ends : token.ends = true) : relationship? kind token byFollows = none := by
  rw [Token.ends, Bool.or_eq_true] at ends
  rcases ends with mark | mark <;> exact relationship?_mark mark (by decide) byFollows

/-! ## Cursors -/

section Cursors

variable {c : Cursor} (d : Cursor)

theorem followedBy_more (more : ¬ c.atEnd = true) : ¬ (c.followedBy d).atEnd = true := by
  unfold Cursor.atEnd at more ⊢
  unfold Cursor.followedBy
  simp_all

theorem followedBy_here (more : ¬ c.atEnd = true) : (c.followedBy d).here = c.here := by
  obtain ⟨ahead, stop, last, faults⟩ := c
  cases ahead with
  | nil => exact absurd rfl more
  | cons word rest => rfl

theorem followedBy_sees (more : ¬ c.atEnd = true) (p : Token → Bool) :
    (c.followedBy d).sees p = c.sees p := by
  rw [Cursor.sees_here (followedBy_more d more), Cursor.sees_here more, followedBy_here d more]

theorem followedBy_advance (more : ¬ c.atEnd = true) :
    (c.followedBy d).advance = c.advance.followedBy d := by
  obtain ⟨ahead, stop, last, faults⟩ := c
  cases ahead with
  | nil => exact absurd rfl more
  | cons word rest => rfl

theorem followedBy_seesNext (more : ¬ c.atEnd = true) (further : ¬ c.advance.atEnd = true)
    (p : Token → Bool) : (c.followedBy d).seesNext p = c.seesNext p := by
  rw [Cursor.seesNext_advance, Cursor.seesNext_advance, followedBy_advance d more,
    followedBy_sees d further]

theorem followedBy_comment? (more : ¬ c.atEnd = true) :
    (c.followedBy d).comment? = c.comment? := by
  obtain ⟨ahead, stop, last, faults⟩ := c
  cases ahead with
  | nil => exact absurd rfl more
  | cons word rest => rfl

theorem followedBy_passComment (more : ¬ c.atEnd = true) :
    (c.followedBy d).passComment = c.passComment.followedBy d := by
  obtain ⟨ahead, stop, last, faults⟩ := c
  cases ahead with
  | nil => exact absurd rfl more
  | cons word rest => rfl

theorem followedBy_drop (more : ¬ c.atEnd = true) :
    (c.followedBy d).drop = c.drop.followedBy d := by
  rw [Cursor.drop, followedBy_advance d more]
  rfl

@[simp] theorem followedBy_last (c : Cursor) : (c.followedBy d).last = c.last := rfl

@[simp] theorem followedBy_report (c : Cursor) (span : Span) (problem : SyntaxProblem) :
    (c.followedBy d).report span problem = (c.report span problem).followedBy d := rfl

@[simp] theorem followedBy_reportIf (c : Cursor) (wrong : Bool) (span : Span)
    (problem : SyntaxProblem) :
    (c.followedBy d).reportIf wrong span problem = (c.reportIf wrong span problem).followedBy d := by
  unfold Cursor.reportIf
  split <;> rfl

theorem followedBy_length (c : Cursor) : (c.followedBy d).length = c.length + d.length := by
  obtain ⟨ahead, stop, last, faults⟩ := d
  cases ahead <;> simp [Cursor.followedBy, Cursor.length, withPending]

/-- A token that ends nothing has one behind it, so that a look at that one is safe. -/
theorem followedBy_relationship? (under : c.Underway) (kind : SymbolKind) :
    (c.followedBy d).relationship? kind = c.relationship? kind := by
  have more := under.more
  have further := followedBy_more d more
  simp only [Cursor.relationship?, more, further, Bool.false_eq_true, ↓reduceIte,
    followedBy_here d more]
  cases ends : c.here.ends with
  | false => rw [followedBy_seesNext d more (under.advance ends).more]
  | true => rw [relationship?_ends _ ends, relationship?_ends _ ends]

end Cursors

/-! ## The readers of a statement -/

section Steps

variable {c : Cursor} (d : Cursor)

theorem ends_separator {chain : Bool} {token : Token} (separator : isSeparator chain token = true) :
    token.ends = false := by
  simp only [isSeparator, Bool.or_eq_true, Bool.and_eq_true] at separator
  rcases separator with mark | ⟨-, mark⟩ <;> exact Token.ends_mark mark (by decide)

theorem pathTail_underway (chain : Bool) (under : c.Underway) : (pathTail chain c).2.Underway := by
  fun_induction pathTail chain c with
  | case1 c more parts after same ih =>
    rw [same] at ih
    have separator := under.advance_over more.1 fun _ => ends_separator
    have name := Cursor.seesNext_advance _ c ▸ more.2
    exact ih (separator.advance_over name fun _ => Token.ends_name)
  | case2 => exact under

theorem pathTail_onward (chain : Bool) (under : c.Underway) :
    pathTail chain (c.followedBy d) =
      ((pathTail chain c).1, (pathTail chain c).2.followedBy d) := by
  fun_induction pathTail chain c with
  | case1 c more parts after same ih =>
    have separator := under.advance_over more.1 fun _ => ends_separator
    have name := Cursor.seesNext_advance _ c ▸ more.2
    have later := ih (separator.advance_over name fun _ => Token.ends_name)
    rw [same] at later
    rw [pathTail, dif_pos, followedBy_advance d under.more, followedBy_advance d separator.more,
      later, followedBy_here d under.more, followedBy_here d separator.more]
    rwa [followedBy_sees d under.more, followedBy_seesNext d under.more separator.more]
  | case2 c stops =>
    rw [pathTail, dif_neg]
    rw [followedBy_sees d under.more]
    rintro ⟨seen, name⟩
    have separator := under.advance_over seen fun _ => ends_separator
    rw [followedBy_seesNext d under.more separator.more] at name
    exact stops ⟨seen, name⟩

theorem path?_underway {chain : Bool} {text : String} {after : Cursor} (under : c.Underway)
    (found : path? chain c = some (text, after)) : after.Underway := by
  unfold path? at found
  split at found
  · next name =>
    cases found
    exact pathTail_underway chain (under.advance_over name fun _ => Token.ends_name)
  · cases found

theorem path?_onward (chain : Bool) (under : c.Underway) :
    path? chain (c.followedBy d) =
      (path? chain c).map fun found => (found.1, found.2.followedBy d) := by
  rw [path?, path?, followedBy_sees d under.more]
  split
  · next name =>
    have further := under.advance_over name fun _ => Token.ends_name
    rw [followedBy_here d under.more, followedBy_advance d under.more, pathTail_onward d chain further]
    rfl
  · rfl

theorem passMark_underway (under : c.Underway) (mark : c.sees (·.isSymbol "#") = true) :
    (passMark c).Underway := by
  have further := under.advance_over mark fun _ hash => Token.ends_mark hash (by decide)
  unfold passMark
  cases found : path? false c.advance with
  | none => exact further
  | some read => exact path?_underway further found

theorem passMark_onward (under : c.Underway) (mark : c.sees (·.isSymbol "#") = true) :
    passMark (c.followedBy d) = (passMark c).followedBy d := by
  have further := under.advance_over mark fun _ hash => Token.ends_mark hash (by decide)
  rw [passMark, passMark, followedBy_advance d under.more, path?_onward d false further]
  cases path? false c.advance <;> rfl

theorem leadFrom_onward (lead : Lead) (c : Cursor) (under : c.Underway) :
    leadFrom lead (c.followedBy d) = ((leadFrom lead c).1, (leadFrom lead c).2.followedBy d) ∧
      (leadFrom lead c).2.Underway := by
  rw [leadFrom_eq lead c, leadFrom_eq lead (c.followedBy d), followedBy_sees d under.more, followedBy_sees d under.more,
    followedBy_here d under.more]
  split
  · next mark =>
    have shorter := passMark_length mark
    rw [passMark_onward d under mark]
    exact leadFrom_onward lead (passMark c) (passMark_underway under mark)
  · split
    · next word =>
      have shorter := Cursor.advance_length_of_sees word
      cases lead.withWord? c.here.text with
      | none => exact ⟨rfl, under⟩
      | some lead =>
        dsimp only
        rw [followedBy_advance d under.more]
        exact leadFrom_onward lead c.advance (under.advance_over word fun _ => Token.ends_word)
    · exact ⟨rfl, under⟩
termination_by c.length

theorem closeGroup_underway {opening closing : String} {first : Span} {depth : Nat}
    (closes : closing ∉ [";", "\x7d"]) (complete : c.Complete)
    (more : depth = 0 → ¬ c.atEnd = true)
    (clean : (closeGroup opening closing first depth c).faults = []) :
    (closeGroup opening closing first depth c).Underway := by
  fun_induction closeGroup opening closing first depth c with
  | case1 c => exact ⟨more rfl, complete⟩
  | case2 c depth ends => cases clean
  | case3 c depth going mark ih =>
    exact ih (complete.passes (.advance c)) (fun none_ => absurd none_ (by omega)) clean
  | case4 c depth going other mark ih =>
    have further := Cursor.Underway.advance_over ⟨going, complete⟩ mark fun _ bracket =>
      Token.ends_mark bracket closes
    exact ih further.complete (fun _ => further.more) clean
  | case5 c depth going other another ih =>
    exact ih (complete.passes (.advance c)) (fun none_ => absurd none_ (by omega)) clean

theorem closeGroup_onward {opening closing : String} {first : Span} {depth : Nat}
    (clean : (closeGroup opening closing first depth c).faults = []) :
    closeGroup opening closing first depth (c.followedBy d) =
      (closeGroup opening closing first depth c).followedBy d := by
  fun_induction closeGroup opening closing first depth c with
  | case1 c => rw [closeGroup]
  | case2 c depth ends => cases clean
  | case3 c depth going mark ih =>
    rw [closeGroup, if_neg (followedBy_more d going), followedBy_sees d going, if_pos mark,
      followedBy_advance d going, ih clean]
  | case4 c depth going other mark ih =>
    rw [closeGroup, if_neg (followedBy_more d going), followedBy_sees d going, if_neg other,
      followedBy_sees d going, if_pos mark, followedBy_advance d going, ih clean]
  | case5 c depth going other another ih =>
    rw [closeGroup, if_neg (followedBy_more d going), followedBy_sees d going, if_neg other,
      followedBy_sees d going, if_neg another, followedBy_advance d going, ih clean]

theorem skipGroup_onward {opening closing : String} (more : ¬ c.atEnd = true)
    (clean : (skipGroup opening closing c).faults = []) :
    skipGroup opening closing (c.followedBy d) = (skipGroup opening closing c).followedBy d := by
  rw [skipGroup, followedBy_here d more, followedBy_advance d more, closeGroup_onward d clean]
  rfl

/-- A group in brackets other than braces ends no statement. -/
theorem skipGroup_underway {opening closing : String} (under : c.Underway)
    (closes : closing ∉ [";", "\x7d"])
    (clean : (skipGroup opening closing c).faults = []) :
    (skipGroup opening closing c).Underway :=
  closeGroup_underway closes (under.complete.passes (.advance c)) (by simp) clean

theorem skipStatement_onward (under : c.Underway) (clean : (skipStatement c).faults = []) :
    skipStatement (c.followedBy d) = (skipStatement c).followedBy d := by
  fun_induction skipStatement c with
  | case1 c ends => exact absurd ends under.more
  | case2 c more brace =>
    rw [skipStatement, if_neg (followedBy_more d more), followedBy_sees d more, if_pos brace]
  | case3 c more noBrace opens =>
    rw [skipStatement, if_neg (followedBy_more d more), followedBy_sees d more, if_neg noBrace,
      followedBy_sees d more, if_pos opens, skipGroup_onward d more clean]
  | case4 c more noBrace noBody mark =>
    rw [skipStatement, if_neg (followedBy_more d more), followedBy_sees d more, if_neg noBrace,
      followedBy_sees d more, if_neg noBody, followedBy_sees d more, if_pos mark,
      followedBy_advance d more]
  | case5 c more noBrace noBody noMark ih =>
    have open_ : c.here.ends = false := by
      rw [Cursor.sees_here more] at noBrace noMark
      simp [Token.ends, noBrace, noMark]
    rw [skipStatement, if_neg (followedBy_more d more), followedBy_sees d more, if_neg noBrace,
      followedBy_sees d more, if_neg noBody, followedBy_sees d more, if_neg noMark,
      followedBy_advance d more, ih (under.advance open_) clean]

/-- An expression is left where it ends, so that more is ahead there. -/
theorem skipOperands_onward (depth : Nat) (more : ¬ (skipOperands depth c).atEnd = true) :
    skipOperands depth (c.followedBy d) = (skipOperands depth c).followedBy d := by
  fun_induction skipOperands depth c with
  | case1 depth c ends => exact absurd ends more
  | case2 depth c going opens ih =>
    rw [skipOperands, if_neg (followedBy_more d going), followedBy_sees d going, if_pos opens,
      followedBy_advance d going, ih more]
  | case3 depth c going noOpen closes ih =>
    rw [skipOperands, if_neg (followedBy_more d going), followedBy_sees d going, if_neg noOpen,
      followedBy_sees d going, if_pos closes, followedBy_advance d going, ih more]
  | case4 depth c going noOpen noClose stops =>
    rw [skipOperands, if_neg (followedBy_more d going), followedBy_sees d going, if_neg noOpen,
      followedBy_sees d going, if_neg noClose, followedBy_sees d going, if_pos stops]
  | case5 depth c going noOpen noClose goesOn ih =>
    rw [skipOperands, if_neg (followedBy_more d going), followedBy_sees d going, if_neg noOpen,
      followedBy_sees d going, if_neg noClose, followedBy_sees d going, if_neg goesOn,
      followedBy_advance d going, ih more]

theorem skipConjugation_underway (under : c.Underway) : (skipConjugation c).Underway := by
  unfold skipConjugation
  split
  · next mark => exact under.advance_over mark fun _ tilde => Token.ends_mark tilde (by decide)
  · exact under

theorem skipConjugation_onward (under : c.Underway) :
    skipConjugation (c.followedBy d) = (skipConjugation c).followedBy d := by
  rw [skipConjugation, skipConjugation, followedBy_sees d under.more]
  split
  · exact followedBy_advance d under.more
  · rfl

theorem ends_comma {token : Token} (comma : token.isSymbol "," = true) : token.ends = false :=
  Token.ends_mark comma (by decide)

theorem targets_underway (kind : RefKind) (under : c.Underway) : (targets kind c).2.Underway := by
  fun_induction targets kind c with
  | case1 c none_ => exact skipConjugation_underway under
  | case2 c target after found start reference comma others rest same ih =>
    rw [same] at ih
    have passed := path?_underway (skipConjugation_underway under) found
    exact ih (passed.advance_over comma fun _ => ends_comma)
  | case3 c target after found => exact path?_underway (skipConjugation_underway under) found

theorem targets_onward (kind : RefKind) (c : Cursor) (under : c.Underway) :
    targets kind (c.followedBy d) = ((targets kind c).1, (targets kind c).2.followedBy d) := by
  have passed := skipConjugation_underway under
  rw [targets_eq kind c, targets_eq kind (c.followedBy d), skipConjugation_onward d under,
    path?_onward d true passed, followedBy_here d passed.more]
  cases found : path? true (skipConjugation c) with
  | none => rfl
  | some read =>
    obtain ⟨target, after⟩ := read
    have shorter := path?_length found
    have skipped := skipConjugation_length c
    have further := path?_underway passed found
    dsimp only [Option.map_some]
    rw [followedBy_sees d further.more, followedBy_last]
    split
    · next comma =>
      have moved := Cursor.advance_length_of_sees comma
      rw [followedBy_advance d further.more,
        targets_onward kind after.advance (further.advance_over comma fun _ => ends_comma)]
    · rfl
termination_by c.length

/-- The words that announce a typing do so before the word `by`. -/
theorem relationship?_needs_by {kind : SymbolKind} {token : Token} {byFollows : Bool}
    (typing : token.text = "typed" ∨ token.text = "defined")
    (announced : (relationship? kind token byFollows).isSome = true) : byFollows = true := by
  cases byFollows with
  | true => rfl
  | false =>
    rcases typing with text | text <;>
      simp [relationship?, Token.isSymbol, Token.isKeyword, text] at announced

theorem announced_open {kind : SymbolKind} (announced : (c.relationship? kind).isSome = true) :
    c.here.ends = false := by
  rw [Bool.eq_false_iff]
  intro ends
  unfold Cursor.relationship? at announced
  split at announced
  · cases announced
  · rw [relationship?_ends _ ends] at announced
    cases announced

theorem passOperator_underway {kind : SymbolKind} (under : c.Underway)
    (announced : (c.relationship? kind).isSome = true) : (passOperator c).Underway := by
  have further := under.advance (announced_open announced)
  unfold passOperator
  split
  · next typing =>
    rw [Cursor.relationship?, if_neg under.more] at announced
    have isBy := relationship?_needs_by typing announced
    rw [Cursor.seesNext_advance] at isBy
    exact further.advance_over isBy fun _ => Token.ends_keyword
  · exact further

theorem passOperator_onward {kind : SymbolKind} (under : c.Underway)
    (announced : (c.relationship? kind).isSome = true) :
    passOperator (c.followedBy d) = (passOperator c).followedBy d := by
  have further := under.advance (announced_open announced)
  rw [passOperator, passOperator, followedBy_here d under.more, followedBy_advance d under.more]
  split
  · rw [followedBy_advance d further.more]
  · rfl

theorem afterTargets_onward {kind : SymbolKind} (relationship : RefKind) (under : c.Underway)
    (announced : (c.relationship? kind).isSome = true) :
    afterTargets relationship (c.followedBy d) = (afterTargets relationship c).followedBy d := by
  have passed := targets_underway relationship (passOperator_underway under announced)
  rw [afterTargets, passOperator_onward d under announced,
    targets_onward d relationship _ (passOperator_underway under announced),
    followedBy_here d under.more, followedBy_here d passed.more, followedBy_reportIf]
  rfl

theorem startsDeclaration_onward (under : c.Underway) :
    startsDeclaration (c.followedBy d) = startsDeclaration c := by
  rw [startsDeclaration, startsDeclaration, followedBy_sees d under.more, followedBy_here d under.more]
  cases word : c.sees (·.kind == .word) with
  | false => rfl
  | true =>
    have further := under.advance_over word fun _ => Token.ends_word
    simp only [followedBy_seesNext d under.more further.more]

/-- A header goes on over what announces no reference. -/
theorem header_plain {kind : SymbolKind} (under : c.Underway)
    (noMark : ¬ c.sees (·.isSymbol ";") = true) (noBody : ¬ c.sees (·.isSymbol "\x7b") = true)
    (noBrace : ¬ c.sees (·.isSymbol "\x7d") = true) (plain : c.relationship? kind = none) :
    header kind (c.followedBy d) =
      if c.sees (·.isSymbol "[") then header kind (skipGroup "[" "]" (c.followedBy d))
      else if c.sees (·.isSymbol "(") then header kind (skipGroup "(" ")" (c.followedBy d))
      else if c.sees (fun t => t.isSymbol "=" || t.isSymbol ":=" || t.isKeyword "default") then
        header kind (skipOperands 0 (c.advance.followedBy d))
      else if startsDeclaration c then
        ([], .closed, (c.report c.here.span (.declarationBefore c.here.text)).followedBy d)
      else header kind (c.advance.followedBy d) := by
  have seen := followedBy_sees d under.more
  rw [header, if_neg (followedBy_more d under.more), seen, if_neg noMark, seen, if_neg noBody, seen,
    if_neg noBrace, followedBy_relationship? d under, plain]
  dsimp only
  rw [seen, seen, seen, startsDeclaration_onward d under, followedBy_here d under.more,
    followedBy_advance d under.more, followedBy_report]

/-- A header that the text ends in is a fault, so that one without faults ends before what
follows. -/
theorem header_onward (kind : SymbolKind) (c : Cursor) (complete : c.Complete)
    (clean : (header kind c).2.2.faults = []) :
    header kind (c.followedBy d) =
      ((header kind c).1, (header kind c).2.1, (header kind c).2.2.followedBy d) := by
  fun_induction header kind c with
  | case1 c ends => cases clean
  | case2 c more mark =>
    rw [header, if_neg (followedBy_more d more), followedBy_sees d more, if_pos mark,
      followedBy_advance d more]
  | case3 c more noMark opens =>
    rw [header, if_neg (followedBy_more d more), followedBy_sees d more, if_neg noMark,
      followedBy_sees d more, if_pos opens]
  | case4 c more noMark noBody brace => cases clean
  | case5 c more noMark noBody noBrace relationship announced found next references ending rest
      same ih =>
    have under : c.Underway := ⟨more, complete⟩
    have isAnnounced : (c.relationship? kind).isSome = true := by rw [announced]; rfl
    have into := passOperator_underway under isAnnounced
    have passed : Moves c next := afterTargets_moves relationship c
    rw [same] at ih
    have later : header kind (next.followedBy d) = _ := ih (complete.passes passed.passes) clean
    have announcedToo : (c.followedBy d).relationship? kind = some relationship := by
      rw [followedBy_relationship? d under, announced]
    rw [header_announced announcedToo (by simpa [followedBy_sees d more] using noMark)
        (by simpa [followedBy_sees d more] using noBody)
        (by simpa [followedBy_sees d more] using noBrace), passOperator_onward d under isAnnounced,
      targets_onward d relationship _ into, afterTargets_onward d relationship under isAnnounced,
      show afterTargets relationship c = next from rfl, later]
  | case6 c more noMark noBody noBrace plain bracket ih =>
    have under : c.Underway := ⟨more, complete⟩
    have cleanGroup := (header_moves ..).clean clean
    rw [header_plain d under noMark noBody noBrace plain, if_pos bracket,
      skipGroup_onward d more cleanGroup, ih (complete.passes (skipGroup_moves ..).passes) clean]
  | case7 c more noMark noBody noBrace plain noBracket parenthesis ih =>
    have under : c.Underway := ⟨more, complete⟩
    have cleanGroup := (header_moves ..).clean clean
    rw [header_plain d under noMark noBody noBrace plain, if_neg noBracket, if_pos parenthesis,
      skipGroup_onward d more cleanGroup, ih (complete.passes (skipGroup_moves ..).passes) clean]
  | case8 c more noMark noBody noBrace plain noBracket noParenthesis value ih =>
    have under : c.Underway := ⟨more, complete⟩
    have stays : ¬ (skipOperands 0 c.advance).atEnd = true := by
      intro ends
      rw [header, if_pos ends] at clean
      cases clean
    rw [header_plain d under noMark noBody noBrace plain, if_neg noBracket, if_neg noParenthesis,
      if_pos value, skipOperands_onward d 0 stays,
      ih (complete.passes (skipOperands_moves 0 _).step.passes) clean]
  | case9 c more noMark noBody noBrace plain noBracket noParenthesis noValue starts => cases clean
  | case10 c more noMark noBody noBrace plain noBracket noParenthesis noValue goesOn ih =>
    have under : c.Underway := ⟨more, complete⟩
    rw [header_plain d under noMark noBody noBrace plain, if_neg noBracket, if_neg noParenthesis,
      if_neg noValue, if_neg goesOn, ih (complete.passes (.advance c)) clean]

end Steps

end Sysml.Notation
