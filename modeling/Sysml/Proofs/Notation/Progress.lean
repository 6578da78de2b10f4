import Mathlib.Logic.Function.Iterate
import Sysml.Proofs.Notation.Spoken
import Sysml.Proofs.Notation.Tiling

/-!
# Reading makes headway

A statement that begins with a token other than a closing brace passes it (`element_progress`),
so that reading stops at the end of the text only (`topLevel_atEnd`), after no more statements than
there are tokens (`textCalls_length`). Wherever it gets to, what it looks for ahead is among the
tokens of the scan (`scan_inRange`).
-/

set_option autoImplicit false

namespace Sysml.Notation

section Statements

variable {c : Cursor} {lead : Lead}

/-- What comes before a declaration is passed, or nothing is known of it. -/
theorem leadFrom_progress (lead : Lead) (c : Cursor) :
    leadFrom lead c = (lead, c) ∨ (leadFrom lead c).2.length < c.length := by
  rw [leadFrom_eq]
  split
  · next mark => exact .inr (Nat.lt_of_le_of_lt (leadFrom_length ..) (passMark_length mark))
  · split
    · next word =>
      cases lead.withWord? c.here.text with
      | none => exact .inl rfl
      | some lead =>
        exact .inr (Nat.lt_of_le_of_lt (leadFrom_length ..) (Cursor.advance_length_of_sees word))
    · exact .inl rfl

theorem declaration_length (kind : SymbolKind) (lead : Lead) (needsName : Bool) (c : Cursor) :
    (declaration kind lead needsName c).2.length ≤
      (header kind (passName (shortName c).2)).2.2.length := by
  rw [declaration_eq]
  exact Nat.le_trans (finish_moves ..).length_le (Nat.le_of_eq (Cursor.reportIf_length ..))

/-- A name is no symbol. -/
theorem name_apart (name : c.sees Token.isName = true) (mark : String) :
    c.sees (·.isSymbol mark) = false := by
  refine sees_apart (fun token isName => ?_) name
  cases kind : token.kind <;> simp_all [Token.isName, Token.isSymbol]

/-- A name that stands first is passed. -/
theorem declaration_progress_named {kind : SymbolKind} {needsName : Bool}
    (name : c.sees Token.isName = true) :
    (declaration kind lead needsName c).2.length < c.length := by
  have through := declaration_length kind lead needsName c
  rw [shortName_none (name_apart name _), passName, if_pos name] at through
  exact Nat.lt_of_le_of_lt (Nat.le_trans through (header_length ..))
    (Cursor.advance_length_of_sees name)

/-- No other symbol announces a reference. -/
theorem announced_apart {kind : SymbolKind} {mark : String}
    (announced : (c.relationship? kind).isSome = true) (other : mark ∉ [":", ":>", ":>>", "::>"]) :
    c.sees (·.isSymbol mark) = false := by
  rw [Bool.eq_false_iff]
  intro seen
  have more := Cursor.more_of_sees seen
  rw [Cursor.sees_here more] at seen
  rw [Cursor.relationship?, if_neg more, relationship?_mark seen other] at announced
  cases announced

/-- What announces a reference is passed. -/
theorem declaration_progress_announced {kind : SymbolKind} {needsName : Bool}
    (announced : (c.relationship? kind).isSome = true) :
    (declaration kind lead needsName c).2.length < c.length := by
  cases name : c.sees Token.isName with
  | true => exact declaration_progress_named name
  | false =>
    obtain ⟨relationship, same⟩ := Option.isSome_iff_exists.mp announced
    have more : ¬ c.atEnd = true := by
      intro ends
      rw [Cursor.relationship?, if_pos ends] at same
      cases same
    have through := declaration_length kind lead needsName c
    rw [shortName_none (announced_apart announced (by decide)), passName, name,
      if_neg Bool.false_ne_true, header_announced same (announced_apart announced (by decide))
        (announced_apart announced (by decide)) (announced_apart announced (by decide))] at through
    exact Nat.lt_of_le_of_lt (Nat.le_trans through (header_length ..))
      (afterTargets_length relationship more)

theorem skipStatement_progress (more : ¬ c.atEnd = true)
    (noBrace : ¬ c.sees (·.isSymbol "\x7d") = true) : (skipStatement c).length < c.length := by
  have passed := Cursor.advance_length_of_not_atEnd more
  rw [skipStatement, if_neg more, if_neg noBrace]
  split
  · next body => exact skipGroup_length body
  · split
    · exact passed
    · exact Nat.lt_of_le_of_lt (skipStatement_length _) passed

theorem redefines_announced
    (redefines : c.sees (fun t => t.isSymbol ":>>" || t.isKeyword "redefines") = true) :
    (c.relationship? .plainUsage).isSome = true := by
  have more := Cursor.more_of_sees redefines
  rw [Cursor.relationship?, if_neg more]
  rw [Cursor.sees_here more] at redefines
  rcases redefines_token redefines with ⟨kind, text⟩ | ⟨kind, text⟩ <;>
    simp [relationship?, Token.isSymbol, Token.isKeyword, kind, text]

theorem plainStatement_progress (noRef : lead.isRef = false) (more : ¬ c.atEnd = true)
    (noBrace : ¬ c.sees (·.isSymbol "\x7d") = true) :
    (plainStatement lead c).2.length < c.length := by
  unfold plainStatement
  rw [noRef, if_neg Bool.false_ne_true]
  split
  · next redefines => exact declaration_progress_announced (redefines_announced redefines)
  · split
    · next named =>
      rw [Bool.and_eq_true] at named
      exact declaration_progress_named named.1
    · exact skipStatement_progress more noBrace

theorem statementFrom_progress (noRef : lead.isRef = false) (more : ¬ c.atEnd = true)
    (noBrace : ¬ c.sees (·.isSymbol "\x7d") = true) :
    (statementFrom lead c).2.length < c.length := by
  unfold statementFrom
  rw [Bool.eq_false_iff.mpr more, Bool.false_or, if_neg noBrace]
  split
  · exact Cursor.advance_length_of_not_atEnd more
  · split
    · cases found : keywordStatement? lead c with
      | none => exact plainStatement_progress noRef more noBrace
      | some read =>
        exact Nat.lt_of_le_of_lt (keywordStatement?_moves found).length_le
          (Cursor.advance_length_of_not_atEnd more)
    · exact plainStatement_progress noRef more noBrace

/-- A statement passes the token that it begins with. -/
theorem Statement.read_progress (more : ¬ c.atEnd = true)
    (noBrace : ¬ c.sees (·.isSymbol "\x7d") = true) :
    (Statement.read c).2.length < c.length := by
  rw [Statement.read_eq]
  rcases leadFrom_progress {} c with stays | passed
  · rw [stays]
    exact statementFrom_progress rfl more noBrace
  · exact Nat.lt_of_le_of_lt (statementFrom_moves ..).length_le passed

/-- What a statement adds is read from tokens that are passed, and one of them is. -/
theorem element_progress (more : ¬ c.atEnd = true)
    (noBrace : ¬ c.sees (·.isSymbol "\x7d") = true) : (element c).2.length < c.length := by
  have passed := Statement.read_progress more noBrace
  rw [element_eq]
  generalize Statement.read c = read at *
  obtain ⟨statement, after⟩ := read
  cases statement with
  | skipped => exact passed
  | imported i => exact passed
  | documented text => exact passed
  | declared heading => exact passed
  | opened heading opening =>
    exact Nat.lt_of_le_of_lt (block_moves opening after).length_le passed

end Statements

/-! ## Statements one after the other

Since every statement makes headway, none ends the block around it or the text.
-/

theorem block_step {c : Cursor} (opening : Span) (more : ¬ c.atEnd = true)
    (noBrace : ¬ c.sees (·.isSymbol "\x7d") = true) :
    block opening c =
      ((element c).1 ++ (block opening (element c).2).1, (block opening (element c).2).2) := by
  rw [block, if_neg more, if_neg noBrace]
  dsimp only
  rw [if_pos (element_progress more noBrace)]

theorem topLevel_end {c : Cursor} (ends : c.atEnd = true) : topLevel c = ([], c) := by
  rw [topLevel, if_pos ends]

theorem topLevel_step {c : Cursor} (more : ¬ c.atEnd = true)
    (noBrace : ¬ c.sees (·.isSymbol "\x7d") = true) :
    topLevel c =
      ((element c).1 ++ (topLevel (element c).2).1, (topLevel (element c).2).2) := by
  rw [topLevel, if_neg more, if_neg noBrace]
  dsimp only
  rw [if_pos (element_progress more noBrace)]

/-- Reading stops at the end of the text. -/
theorem topLevel_atEnd (c : Cursor) : (topLevel c).2.atEnd = true := by
  fun_induction topLevel c with
  | case1 c ends => exact ends
  | case2 c more brace ih => exact ih
  | case3 c more noBrace members next read shorter others rest same ih =>
    rw [same] at ih
    exact ih
  | case4 c more noBrace members next read stays =>
    have passed := element_progress more noBrace
    rw [read] at passed
    exact absurd passed stays

/-! ## Calls -/

mutual

/-- The places where a statement is read while one is read here: this place, and then those in
its block, in order. -/
def elementCalls (c : Cursor) : List Cursor :=
  match _read : Statement.read c with
  | (.opened _ _, after) => c :: blockCalls after
  | _ => [c]
termination_by 2 * c.length
decreasing_by
  have := Statement.read_opens_length _read
  omega

/-- The places where a statement is read while a block is read from here on. -/
def blockCalls (c : Cursor) : List Cursor :=
  if c.atEnd then []
  else if c.sees (·.isSymbol "\x7d") then []
  else elementCalls c ++ blockCalls (element c).2
termination_by 2 * c.length + 1
decreasing_by
  · omega
  · have := element_progress (c := c) (by assumption) (by assumption)
    omega

end

/-- The places where a statement is read while a text is read from here on. -/
def textCalls (c : Cursor) : List Cursor :=
  if c.atEnd then []
  else if c.sees (·.isSymbol "\x7d") then textCalls (c.advance.report c.here.span .strayBrace)
  else elementCalls c ++ textCalls (element c).2
termination_by c.length
decreasing_by
  · exact Cursor.advance_length_of_not_atEnd (c := c) (by assumption)
  · exact element_progress (c := c) (by assumption) (by assumption)

theorem elementCalls_eq (c : Cursor) :
    elementCalls c =
      match Statement.read c with
      | (.opened _ _, after) => c :: blockCalls after
      | _ => [c] := by
  rw [elementCalls]
  split <;> simp_all

/-- Reading gets from the first place to the second one, and a token other than a closing brace
stands there. -/
structure Enters (c d : Cursor) : Prop where
  moves : Moves c d
  more : ¬ d.atEnd = true
  noBrace : ¬ d.sees (·.isSymbol "\x7d") = true

theorem Enters.after {c middle d : Cursor} (moves : Moves c middle) (enters : Enters middle d) :
    Enters c d :=
  ⟨moves.trans enters.moves, enters.more, enters.noBrace⟩

mutual

theorem elementCalls_enters {c : Cursor} (more : ¬ c.atEnd = true)
    (noBrace : ¬ c.sees (·.isSymbol "\x7d") = true) : ∀ d ∈ elementCalls c, Enters c d := by
  have here : Enters c c := ⟨.refl c, more, noBrace⟩
  have passed := Statement.read_moves c
  have headway := Statement.read_progress more noBrace
  cases read : Statement.read c with
  | mk statement after =>
    rw [read] at passed
    have shorter : after.length < c.length := by rwa [read] at headway
    rw [elementCalls_eq, read]
    cases statement with
    | opened heading opening =>
      exact List.forall_mem_cons.mpr
        ⟨here, fun d member => (blockCalls_enters after d member).after passed⟩
    | skipped | imported | documented | declared => simpa using here
termination_by 2 * c.length
decreasing_by omega

theorem blockCalls_enters (c : Cursor) : ∀ d ∈ blockCalls c, Enters c d := by
  unfold blockCalls
  split
  · exact fun _ member => (by cases member)
  · next more =>
    split
    · exact fun _ member => (by cases member)
    · next noBrace =>
      have shorter := element_progress more noBrace
      intro d member
      rcases List.mem_append.mp member with first | later
      · exact elementCalls_enters more noBrace d first
      · exact (blockCalls_enters (element c).2 d later).after (element_moves c)
termination_by 2 * c.length + 1
decreasing_by all_goals omega

end

theorem textCalls_enters (c : Cursor) : ∀ d ∈ textCalls c, Enters c d := by
  fun_induction textCalls c with
  | case1 => exact fun _ member => (by cases member)
  | case2 c _ _ ih => exact fun d member => (ih d member).after ((Moves.advance c).report _ _)
  | case3 c more noBrace ih =>
    intro d member
    rcases List.mem_append.mp member with first | later
    · exact elementCalls_enters more noBrace d first
    · exact (ih d later).after (element_moves c)

mutual

/-- Each statement that is read passes a token of its own: one token for each is gone. -/
theorem elementCalls_length {c : Cursor} (more : ¬ c.atEnd = true)
    (noBrace : ¬ c.sees (·.isSymbol "\x7d") = true) :
    (elementCalls c).length + (element c).2.length ≤ c.length := by
  have headway := Statement.read_progress more noBrace
  cases read : Statement.read c with
  | mk statement after =>
    have shorter : after.length < c.length := by rwa [read] at headway
    rw [element_eq, elementCalls_eq, read]
    cases statement with
    | opened heading opening =>
      have counted := blockCalls_length opening after
      simp only [List.length_cons] at counted ⊢
      omega
    | skipped | imported | documented | declared =>
      simp only [List.length_singleton]
      omega
termination_by 2 * c.length
decreasing_by omega

theorem blockCalls_length (opening : Span) (c : Cursor) :
    (blockCalls c).length + (block opening c).2.length ≤ c.length := by
  unfold blockCalls
  split
  · next ends =>
    rw [block, if_pos ends]
    simp
  · next more =>
    split
    · next brace =>
      rw [block, if_neg more, if_pos brace]
      simpa using Cursor.advance_length_le c
    · next noBrace =>
      have shorter := element_progress more noBrace
      have first := elementCalls_length more noBrace
      have later := blockCalls_length opening (element c).2
      rw [block_step opening more noBrace, List.length_append]
      dsimp only
      omega
termination_by 2 * c.length + 1
decreasing_by all_goals omega

end

theorem textCalls_length (c : Cursor) : (textCalls c).length + (topLevel c).2.length ≤ c.length := by
  fun_induction textCalls c with
  | case1 c ends => simp [topLevel_end ends]
  | case2 c more brace ih =>
    rw [topLevel, if_neg more, if_pos brace]
    exact Nat.le_trans ih (Cursor.advance_length_le c)
  | case3 c more noBrace ih =>
    have first := elementCalls_length more noBrace
    rw [topLevel_step more noBrace, List.length_append]
    dsimp only
    omega

/-! ## Looking ahead -/

/-- The comments are comments, the tokens ahead are neither comments nor the mark of the end, and
that mark stands behind them. -/
structure Cursor.Marked (c : Cursor) : Prop where
  comments : ∀ word ∈ c.ahead, ∀ token ∈ word.comments, token.kind = .comment
  tokens : ∀ word ∈ c.ahead, word.token.kind ≠ .comment ∧ word.token.kind ≠ .stop
  trailing : ∀ token ∈ c.stop.comments, token.kind = .comment
  stop : c.stop.token.kind = .stop

theorem Move.marked {c d : Cursor} (move : Move c d) (marked : c.Marked) : d.Marked := by
  obtain ⟨ahead, stop, last, faults⟩ := c
  obtain ⟨comments, tokens, trailing, mark⟩ := marked
  cases move with
  | advance | drop =>
    cases ahead with
    | nil => exact ⟨comments, tokens, trailing, mark⟩
    | cons word rest =>
      exact ⟨fun other member => comments other (List.mem_cons_of_mem _ member),
        fun other member => tokens other (List.mem_cons_of_mem _ member), trailing, mark⟩
  | passComment =>
    cases ahead with
    | nil =>
      exact ⟨comments, tokens, fun token member => trailing token (List.mem_of_mem_tail member), mark⟩
    | cons word rest =>
      obtain ⟨first, others⟩ := List.forall_mem_cons.mp comments
      exact ⟨List.forall_mem_cons.mpr
          ⟨fun token member => first token (List.mem_of_mem_tail member), others⟩,
        List.forall_mem_cons.mpr (List.forall_mem_cons.mp tokens), trailing, mark⟩
  | report => exact ⟨comments, tokens, trailing, mark⟩

theorem Moves.marked {c d : Cursor} (moves : Moves c d) (marked : c.Marked) : d.Marked := by
  induction moves with
  | refl => exact marked
  | tail _ move ih => exact move.marked ih

/-- The token so many tokens behind the first one, where comments do not count and nothing stands
behind the mark of the end; there is none if the list runs out before. -/
def peek? : Nat → List Token → Option Token
  | _, [] => none
  | ahead, token :: rest =>
      if token.kind = .comment then peek? ahead rest
      else if ahead = 0 ∨ token.kind = .stop then some token
      else peek? (ahead - 1) rest

theorem peek?_comments {comments : List Token} (each : ∀ token ∈ comments, token.kind = .comment)
    (ahead : Nat) (rest : List Token) : peek? ahead (comments ++ rest) = peek? ahead rest := by
  induction comments with
  | nil => rfl
  | cons token comments ih =>
    obtain ⟨isComment, others⟩ := List.forall_mem_cons.mp each
    rw [List.cons_append, peek?, if_pos isComment, ih others]

theorem peek?_mark {token : Token} (mark : token.kind = .stop) (ahead : Nat) (rest : List Token) :
    peek? ahead (token :: rest) = some token := by
  rw [peek?, if_neg (by simp [mark]), if_pos (.inr mark)]

/-- The first of the tokens that are left is a comment or the next token. -/
theorem Cursor.pending_head (c : Cursor) : c.pending.head? = some (c.comment?.getD c.here) := by
  obtain ⟨ahead, ⟨trailing, stop⟩, last, faults⟩ := c
  cases ahead with
  | nil => cases trailing <;> rfl
  | cons word rest =>
    obtain ⟨comments, token⟩ := word
    cases comments <;> rfl

namespace Cursor.Marked

variable {c : Cursor}

/-- The next token is found among those that are left. -/
theorem peek?_zero (marked : c.Marked) : peek? 0 c.pending = some c.here := by
  obtain ⟨words, ⟨trailing, stop⟩, last, faults⟩ := c
  cases words with
  | nil =>
    change peek? 0 (trailing ++ [stop]) = _
    rw [peek?_comments marked.trailing, peek?_mark marked.stop]
    rfl
  | cons word rest =>
    change peek? 0 ((word.comments ++ [word.token] ++ rest.flatMap Word.tokens) ++ _) = _
    rw [List.append_assoc, List.append_assoc, peek?_comments (marked.comments word List.mem_cons_self)]
    exact if_neg (marked.tokens word List.mem_cons_self).1

/-- To look one token further is to look from the next token. -/
theorem peek?_succ (marked : c.Marked) (ahead : Nat) :
    peek? (ahead + 1) c.pending = peek? ahead c.advance.pending := by
  obtain ⟨words, ⟨trailing, stop⟩, last, faults⟩ := c
  cases words with
  | nil =>
    change peek? (ahead + 1) (trailing ++ [stop]) = peek? ahead (trailing ++ [stop])
    rw [peek?_comments marked.trailing, peek?_comments marked.trailing, peek?_mark marked.stop,
      peek?_mark marked.stop]
  | cons word rest =>
    obtain ⟨spoken, inside⟩ := marked.tokens word List.mem_cons_self
    change peek? (ahead + 1) ((word.comments ++ [word.token] ++ rest.flatMap Word.tokens) ++ _) = _
    rw [List.append_assoc, List.append_assoc, peek?_comments (marked.comments word List.mem_cons_self),
      List.singleton_append, peek?, if_neg spoken, if_neg (by simp [inside])]
    rfl

/-- Any number of tokens ahead a token is found. -/
theorem peek?_pending (marked : c.Marked) (ahead : Nat) :
    peek? ahead c.pending = some (advance^[ahead] c).here := by
  induction ahead generalizing c with
  | zero => exact marked.peek?_zero
  | succ ahead ih =>
    rw [marked.peek?_succ, ih (Move.advance.marked marked), Function.iterate_succ_apply]

/-- Without the comments, the tokens ahead and the mark of the end are left. -/
theorem pending_spoken (marked : c.Marked) :
    c.pending.filter (·.kind != .comment) = c.ahead.map (·.token) ++ [c.stop.token] := by
  obtain ⟨words, ⟨trailing, stop⟩, last, faults⟩ := c
  obtain ⟨comments, tokens, ending, mark⟩ := marked
  dsimp only at comments tokens ending mark ⊢
  have silent (remarks : List Token) (each : ∀ token ∈ remarks, token.kind = .comment) :
      remarks.filter (·.kind != .comment) = [] :=
    List.filter_eq_nil_iff.mpr fun token member => by simp [each token member]
  have words : (words.flatMap Word.tokens).filter (·.kind != .comment) = words.map (·.token) := by
    induction words with
    | nil => rfl
    | cons word rest ih =>
      obtain ⟨first, others⟩ := List.forall_mem_cons.mp comments
      obtain ⟨here, later⟩ := List.forall_mem_cons.mp tokens
      rw [List.flatMap_cons, List.filter_append, ih others later, Word.tokens, List.filter_append,
        silent _ first]
      simp [here.1]
  rw [Cursor.pending, List.filter_append, words, Word.tokens, List.filter_append, silent _ ending]
  simp [mark]

end Cursor.Marked

/-! ## Places in a scan -/

theorem scanFrom_inside (place : Position) (text : List Char) :
    ∀ token, Scanned.token token ∈ scanFrom place text → token.kind ≠ .stop := by
  fun_induction scanFrom place text with
  | case1 => exact fun _ member => (by cases member)
  | case2 place c tail found next _ ih => exact ih
  | case3 place c tail found next span kind isKind ih =>
    intro token member
    rcases List.mem_cons.mp member with same | later
    · cases same
      have told := lexeme_told c tail
      rw [Lexeme.IsTold, isKind] at told
      exact told.of_token.1
    · exact ih token later
  | case4 => exact fun _ member => (by cases List.mem_singleton.mp member)
  | case5 place c tail found next span _ ih =>
    intro token member
    rcases List.mem_cons.mp member with same | later
    · cases same
    · exact ih token later

theorem attachComments_flatMap (before tokens : List Token) :
    (attachComments before tokens).1.flatMap Word.tokens ++ (attachComments before tokens).2 =
      before ++ tokens := by
  fun_induction attachComments before tokens with
  | case1 before => simp
  | case2 before token rest _ ih => rw [ih, List.append_assoc, List.singleton_append]
  | case3 before token rest _ words trailing same ih =>
    rw [same] at ih
    rw [List.flatMap_cons, Word.tokens, List.append_assoc, List.append_assoc, ih]
    rfl

theorem attachComments_marked (before tokens : List Token)
    (comments : ∀ token ∈ before, token.kind = .comment) (inside : ∀ token ∈ tokens, token.kind ≠ .stop)
    (stop : Token) (isStop : stop.kind = .stop) (last : Option Token) (faults : List Fault) :
    Cursor.Marked ⟨(attachComments before tokens).1, ⟨(attachComments before tokens).2, stop⟩, last,
      faults⟩ := by
  fun_induction attachComments before tokens with
  | case1 before =>
    exact ⟨fun _ member => (by cases member), fun _ member => (by cases member), comments, isStop⟩
  | case2 before token rest isComment ih =>
    refine ih (fun other member => ?_) fun other member => inside other (List.mem_cons_of_mem _ member)
    rcases List.mem_append.mp member with member | member
    · exact comments other member
    · rwa [List.mem_singleton.mp member]
  | case3 before token rest spoken words trailing same ih =>
    obtain ⟨here, later⟩ := List.forall_mem_cons.mp inside
    rw [same] at ih
    have marked := ih (fun _ member => (by cases member)) later
    exact ⟨List.forall_mem_cons.mpr ⟨comments, marked.comments⟩,
      List.forall_mem_cons.mpr ⟨⟨spoken, here⟩, marked.tokens⟩, marked.trailing, isStop⟩

theorem scan_marked (text : String) : (scan text).cursor.Marked := by
  refine attachComments_marked [] _ (fun _ member => (by cases member)) (fun token member => ?_) _ rfl _ _
  obtain ⟨item, found, same⟩ := List.mem_filterMap.mp member
  cases item with
  | token other => cases same; exact scanFrom_inside _ _ _ found
  | stray | openComment => cases same

namespace Scan

variable {s : Scan} {c d : Cursor}

def stream (s : Scan) : List Token :=
  s.tokens ++ [s.stop]

theorem cursor_pending (s : Scan) : s.cursor.pending = s.stream := by
  change (attachComments [] s.tokens).1.flatMap Word.tokens ++
    ((attachComments [] s.tokens).2 ++ [s.stop]) = _
  rw [← List.append_assoc, attachComments_flatMap, List.nil_append, stream]

/-- The index of the token that stands first from a place on. -/
def position (s : Scan) (c : Cursor) : Nat :=
  s.stream.length - c.pending.length

/-- What stands at a place and ahead of it are tokens of the scan. -/
structure InRange (s : Scan) (c : Cursor) : Prop where
  position : s.position c < s.stream.length
  /-- The token at the index itself is a comment or the next token. -/
  front : s.stream[s.position c]? = some (c.comment?.getD c.here)
  /-- Any number of tokens ahead there is one: at the end it is the mark. -/
  ahead : ∀ count, peek? count (s.stream.drop (s.position c)) = some (Cursor.advance^[count] c).here

theorem drop_position (left : c.pending <:+ s.stream) : s.stream.drop (s.position c) = c.pending := by
  obtain ⟨passed, same⟩ := left
  rw [position, ← same, List.length_append, Nat.add_sub_cancel, List.drop_left]

theorem inRange_of_suffix (left : c.pending <:+ s.stream) (marked : c.Marked) : s.InRange c := by
  have drop := drop_position left
  have first := c.pending_head
  rw [← drop, List.head?_drop] at first
  refine ⟨?_, first, fun count => ?_⟩
  · exact (List.getElem?_eq_some_iff.mp first).1
  · rw [drop, marked.peek?_pending]

theorem position_le (moves : Moves c d) : s.position c ≤ s.position d := by
  have left := moves.pending_suffix.length_le
  unfold position
  omega

/-- What passes a token gets further on. -/
theorem position_lt (reached : Moves s.cursor c) (moves : Moves c d) (shorter : d.length < c.length) :
    s.position c < s.position d := by
  have all := reached.pending_suffix.length_le
  have left := moves.pending_length
  rw [cursor_pending] at all
  unfold position
  omega

end Scan

/-- Wherever reading gets to in a text, no token that it looks at is out of range. -/
theorem scan_inRange {text : String} {c : Cursor} (moves : Moves (scan text).cursor c) :
    (scan text).InRange c := by
  refine Scan.inRange_of_suffix ?_ (moves.marked (scan_marked text))
  rw [← Scan.cursor_pending]
  exact moves.pending_suffix

end Sysml.Notation
