import Sysml.Proofs.Notation.Progress

/-!
# The loops of reading

Each loop of the readers, told by what one round of it does. A round that goes on passes a token, so
a loop stops after no more rounds than there are tokens ahead (`Loop.stops`). What it stops with is
what the reader gives (`loops_stop`), also for the loops over statements: these need not look whether
a statement made headway. So reading gets to the end of every text, and reads no more statements on
its way than the text has tokens (`topLevel_headway`).
-/

set_option autoImplicit false

namespace Sysml.Notation

/-- A loop of reading. From what is collected so far and a place, a round goes on to the next round
or leaves with a result. Where it goes on, it has passed a token. -/
structure Loop (α ρ : Type) where
  round : α × Cursor → (α × Cursor) ⊕ ρ
  progress : ∀ state next, round state = .inl next →
    Moves state.2 next.2 ∧ next.2.length < state.2.length

namespace Loop

variable {α ρ : Type}

/-- The loop leaves with the result after so many rounds that go on. -/
inductive Leaves (loop : Loop α ρ) : Nat → α × Cursor → ρ → Prop where
  | leave {state : α × Cursor} {result : ρ} (left : loop.round state = .inr result) :
      Leaves loop 0 state result
  | again {count : Nat} {state next : α × Cursor} {result : ρ}
      (goesOn : loop.round state = .inl next) (later : Leaves loop count next result) :
      Leaves loop (count + 1) state result

/-- The loop stops with the result, after at most one round for each token ahead and a last one. -/
def Stops (loop : Loop α ρ) (state : α × Cursor) (result : ρ) : Prop :=
  ∃ count ≤ state.2.length, loop.Leaves count state result

/-- A function that goes through the rounds of a loop gives what the loop stops with. -/
theorem stops (loop : Loop α ρ) (run : α × Cursor → ρ)
    (unfolds : ∀ state, run state = (loop.round state).elim run id) (state : α × Cursor) :
    loop.Stops state (run state) := by
  cases round : loop.round state with
  | inr result =>
    rw [unfolds state, round]
    exact ⟨0, Nat.zero_le _, .leave round⟩
  | inl next =>
    have shorter := (loop.progress state next round).2
    obtain ⟨count, few, leaves⟩ := stops loop run unfolds next
    rw [unfolds state, round]
    exact ⟨count + 1, Nat.lt_of_le_of_lt few shorter, .again round leaves⟩
termination_by state.2.length

end Loop

/-! ## Paths, leads and targets -/

def pathLoop (chain : Bool) : Loop (List String) (List String × Cursor) where
  round := fun (parts, c) =>
    if c.sees (isSeparator chain) = true ∧ c.seesNext Token.isName = true then
      .inl (parts ++ [c.here.text, c.advance.here.text], c.advance.advance)
    else .inr (parts, c)
  progress := by
    rintro ⟨parts, c⟩ next goesOn
    dsimp only at goesOn
    split at goesOn
    · next separated =>
      cases goesOn
      exact ⟨(Moves.advance _).step, Nat.lt_of_le_of_lt (Cursor.advance_length_le _)
        (Cursor.advance_length_of_sees separated.1)⟩
    · cases goesOn

theorem pathLoop_stops (chain : Bool) (parts : List String) (c : Cursor) :
    (pathLoop chain).Stops (parts, c) (parts ++ (pathTail chain c).1, (pathTail chain c).2) := by
  refine (pathLoop chain).stops (fun (parts, c) =>
    (parts ++ (pathTail chain c).1, (pathTail chain c).2)) ?_ (parts, c)
  rintro ⟨parts, c⟩
  dsimp only [pathLoop]
  rw [pathTail]
  split <;> simp

def leadLoop : Loop Lead (Lead × Cursor) where
  round := fun (lead, c) =>
    if c.sees (·.isSymbol "#") then .inl (lead, passMark c)
    else if c.sees (·.kind == .word) then
      match lead.withWord? c.here.text with
      | some lead => .inl (lead, c.advance)
      | none => .inr (lead, c)
    else .inr (lead, c)
  progress := by
    rintro ⟨lead, c⟩ next goesOn
    dsimp only at goesOn
    split at goesOn
    · next mark =>
      cases goesOn
      exact ⟨passMark_moves c, passMark_length mark⟩
    · split at goesOn
      · next word =>
        split at goesOn
        · cases goesOn
          exact ⟨.advance c, Cursor.advance_length_of_sees word⟩
        · cases goesOn
      · cases goesOn

theorem leadLoop_stops (lead : Lead) (c : Cursor) :
    leadLoop.Stops (lead, c) (leadFrom lead c) := by
  refine leadLoop.stops (fun (lead, c) => leadFrom lead c) ?_ (lead, c)
  rintro ⟨lead, c⟩
  dsimp only [leadLoop]
  rw [leadFrom_eq]
  split
  · rfl
  · split
    · cases lead.withWord? c.here.text <;> rfl
    · rfl

def targetLoop (kind : RefKind) : Loop (List Reference) (List Reference × Cursor) where
  round := fun (references, c) =>
    match path? true (skipConjugation c) with
    | none => .inr (references, skipConjugation c)
    | some (target, after) =>
        let start := (skipConjugation c).here
        let reference : Reference :=
          { kind, target := .text target
            span := ⟨start.span.start, (after.last.getD start).span.stop⟩ }
        if after.sees (·.isSymbol ",") then .inl (references ++ [reference], after.advance)
        else .inr (references ++ [reference], after)
  progress := by
    rintro ⟨references, c⟩ next goesOn
    dsimp only at goesOn
    split at goesOn
    · cases goesOn
    · next target after found =>
      split at goesOn
      · next comma =>
        cases goesOn
        have skipped := skipConjugation_length c
        have passed := path?_length found
        have moved := Cursor.advance_length_of_sees comma
        refine ⟨((skipConjugation_moves c).trans (path?_moves found)).trans (.advance after), ?_⟩
        dsimp only
        omega
      · cases goesOn

theorem targetLoop_stops (kind : RefKind) (references : List Reference) (c : Cursor) :
    (targetLoop kind).Stops (references, c)
      (references ++ (targets kind c).1, (targets kind c).2) := by
  refine (targetLoop kind).stops (fun (references, c) =>
    (references ++ (targets kind c).1, (targets kind c).2)) ?_ (references, c)
  rintro ⟨references, c⟩
  dsimp only [targetLoop]
  rw [targets_eq]
  cases path? true (skipConjugation c) with
  | none => simp
  | some read =>
    dsimp only
    split <;> simp

/-! ## What is passed over -/

def groupLoop (opening closing : String) (first : Span) : Loop Nat Cursor where
  round := fun (depth, c) =>
    match depth with
    | 0 => .inr c
    | depth + 1 =>
        if c.atEnd then .inr (c.report first (.openBracket opening closing))
        else if c.sees (·.isSymbol opening) then .inl (depth + 2, c.advance)
        else if c.sees (·.isSymbol closing) then .inl (depth, c.advance)
        else .inl (depth + 1, c.advance)
  progress := by
    rintro ⟨_ | depth, c⟩ next goesOn
    · cases goesOn
    · dsimp only at goesOn
      split at goesOn
      · cases goesOn
      · next more =>
        have passed := Cursor.advance_length_of_not_atEnd more
        split at goesOn
        · cases goesOn
          exact ⟨.advance c, passed⟩
        · split at goesOn <;> cases goesOn <;> exact ⟨.advance c, passed⟩

theorem groupLoop_stops (opening closing : String) (first : Span) (depth : Nat) (c : Cursor) :
    (groupLoop opening closing first).Stops (depth, c)
      (closeGroup opening closing first depth c) := by
  refine (groupLoop opening closing first).stops (fun (depth, c) =>
    closeGroup opening closing first depth c) ?_ (depth, c)
  rintro ⟨_ | depth, c⟩
  · dsimp only [groupLoop]
    rw [closeGroup]
    rfl
  · dsimp only [groupLoop]
    rw [closeGroup]
    repeat' split
    all_goals rfl

def statementLoop : Loop Unit Cursor where
  round := fun (_, c) =>
    if c.atEnd then .inr c
    else if c.sees (·.isSymbol "\x7d") then .inr c
    else if c.sees (·.isSymbol "\x7b") then .inr (skipGroup "\x7b" "\x7d" c)
    else if c.sees (·.isSymbol ";") then .inr c.advance
    else .inl ((), c.advance)
  progress := by
    rintro ⟨_, c⟩ next goesOn
    dsimp only at goesOn
    split at goesOn
    · cases goesOn
    · next more =>
      have passed := Cursor.advance_length_of_not_atEnd more
      repeat' split at goesOn
      all_goals cases goesOn
      exact ⟨.advance c, passed⟩

theorem statementLoop_stops (c : Cursor) : statementLoop.Stops ((), c) (skipStatement c) := by
  refine statementLoop.stops (fun (_, c) => skipStatement c) ?_ ((), c)
  rintro ⟨_, c⟩
  dsimp only [statementLoop]
  rw [skipStatement]
  repeat' split
  all_goals rfl

/-- The loop over an expression, from a number of open brackets on. -/
def operandLoop : Loop Nat Cursor where
  round := fun (depth, c) =>
    if c.atEnd then .inr c
    else if c.sees (fun t => t.isSymbol "(" || t.isSymbol "[") then .inl (depth + 1, c.advance)
    else if c.sees (fun t => t.isSymbol ")" || t.isSymbol "]") then .inl (depth - 1, c.advance)
    else if depth = 0 ∧
        c.sees (fun t => t.isSymbol ";" || t.isSymbol "\x7b" || t.isSymbol "\x7d") = true then .inr c
    else .inl (depth, c.advance)
  progress := by
    rintro ⟨depth, c⟩ next goesOn
    dsimp only at goesOn
    split at goesOn
    · cases goesOn
    · next more =>
      have passed := Cursor.advance_length_of_not_atEnd more
      repeat' split at goesOn
      all_goals cases goesOn
      all_goals exact ⟨.advance c, passed⟩

theorem operandLoop_stops (depth : Nat) (c : Cursor) :
    operandLoop.Stops (depth, c) (skipOperands depth c) := by
  refine operandLoop.stops (fun (depth, c) => skipOperands depth c) ?_ (depth, c)
  rintro ⟨depth, c⟩
  dsimp only [operandLoop]
  rw [skipOperands]
  repeat' split
  all_goals rfl

def remarkLoop : Loop Unit Cursor where
  round := fun (_, c) =>
    if c.comment?.isSome then .inr c.passComment
    else if c.atEnd then .inr c
    else if c.sees (fun t => t.isSymbol "\x7b" || t.isSymbol "\x7d") then .inr c
    else if c.sees (·.isSymbol ";") then .inr c.drop
    else .inl ((), c.drop)
  progress := by
    rintro ⟨_, c⟩ next goesOn
    dsimp only at goesOn
    split at goesOn
    · cases goesOn
    · split at goesOn
      · cases goesOn
      · next more =>
        have passed : c.drop.length < c.length := Cursor.advance_length_of_not_atEnd more
        repeat' split at goesOn
        all_goals cases goesOn
        exact ⟨Move.drop.moves, passed⟩

theorem remarkLoop_stops (c : Cursor) : remarkLoop.Stops ((), c) (skipRemark c) := by
  refine remarkLoop.stops (fun (_, c) => skipRemark c) ?_ ((), c)
  rintro ⟨_, c⟩
  dsimp only [remarkLoop]
  rw [skipRemark_eq]
  repeat' split
  all_goals rfl

/-! ## Headers and imports -/

def headerLoop (kind : SymbolKind) : Loop (List Reference) (List Reference × HeaderEnd × Cursor) where
  round := fun (references, c) =>
    if c.atEnd then .inr (references, .closed, c.report c.here.span .declarationAtEnd)
    else if c.sees (·.isSymbol ";") then .inr (references, .closed, c.advance)
    else if c.sees (·.isSymbol "\x7b") then .inr (references, .opens, c)
    else if c.sees (·.isSymbol "\x7d") then
      .inr (references, .closed, c.report c.here.span (.declarationBefore "\x7d"))
    else
      match c.relationship? kind with
      | some relationship =>
          .inl (references ++ (targets relationship (passOperator c)).1,
            afterTargets relationship c)
      | none =>
          if c.sees (·.isSymbol "[") then .inl (references, skipGroup "[" "]" c)
          else if c.sees (·.isSymbol "(") then .inl (references, skipGroup "(" ")" c)
          else if c.sees (fun t => t.isSymbol "=" || t.isSymbol ":=" || t.isKeyword "default") then
            .inl (references, skipOperands 0 c.advance)
          else if startsDeclaration c then
            .inr (references, .closed, c.report c.here.span (.declarationBefore c.here.text))
          else .inl (references, c.advance)
  progress := by
    rintro ⟨references, c⟩ next goesOn
    dsimp only at goesOn
    split at goesOn
    · cases goesOn
    · next more =>
      have passed := Cursor.advance_length_of_not_atEnd more
      repeat' split at goesOn
      all_goals cases goesOn
      case _ relationship announced =>
        exact ⟨afterTargets_moves relationship c, afterTargets_length relationship more⟩
      case _ bracket => exact ⟨skipGroup_moves .., skipGroup_length bracket⟩
      case _ bracket => exact ⟨skipGroup_moves .., skipGroup_length bracket⟩
      case _ value =>
        exact ⟨(skipOperands_moves ..).step, Nat.lt_of_le_of_lt (skipOperands_length ..) passed⟩
      case _ => exact ⟨.advance c, passed⟩

theorem headerLoop_stops (kind : SymbolKind) (references : List Reference) (c : Cursor) :
    (headerLoop kind).Stops (references, c)
      (references ++ (header kind c).1, (header kind c).2) := by
  refine (headerLoop kind).stops (fun (references, c) =>
    (references ++ (header kind c).1, (header kind c).2)) ?_ (references, c)
  rintro ⟨references, c⟩
  dsimp only [headerLoop]
  rw [header]
  cases c.relationship? kind with
  | none =>
    dsimp only
    repeat' split
    all_goals simp
  | some relationship =>
    dsimp only
    repeat' split
    all_goals simp [afterTargets]

def starLoop : Loop (Bool × Bool) (Bool × Bool × Cursor) where
  round := fun ((isNamespace, isRecursive), c) =>
    if c.sees (·.isSymbol "::") then
      if c.seesNext (·.isSymbol "*") then .inl ((true, isRecursive), c.advance.advance)
      else if c.seesNext (·.isSymbol "**") then .inl ((isNamespace, true), c.advance.advance)
      else .inr (isNamespace, isRecursive, c)
    else .inr (isNamespace, isRecursive, c)
  progress := by
    rintro ⟨⟨isNamespace, isRecursive⟩, c⟩ next goesOn
    dsimp only at goesOn
    split at goesOn
    · next colons =>
      have passed : c.advance.advance.length < c.length :=
        Nat.lt_of_le_of_lt (Cursor.advance_length_le _) (Cursor.advance_length_of_sees colons)
      repeat' split at goesOn
      all_goals cases goesOn
      all_goals exact ⟨(Moves.advance _).step, passed⟩
    · cases goesOn

theorem starLoop_stops (isNamespace isRecursive : Bool) (c : Cursor) :
    starLoop.Stops ((isNamespace, isRecursive), c) (importStars isNamespace isRecursive c) := by
  refine starLoop.stops (fun ((isNamespace, isRecursive), c) =>
    importStars isNamespace isRecursive c) ?_ ((isNamespace, isRecursive), c)
  rintro ⟨⟨isNamespace, isRecursive⟩, c⟩
  dsimp only [starLoop]
  rw [importStars]
  repeat' split
  all_goals rfl

/-! ## Statements one after the other -/

def blockLoop (opening : Span) : Loop (List Member) (List Member × Cursor) where
  round := fun (members, c) =>
    if c.atEnd then .inr (members, c.report opening .openBlock)
    else if c.sees (·.isSymbol "\x7d") then .inr (members, c.advance)
    else .inl (members ++ (element c).1, (element c).2)
  progress := by
    rintro ⟨members, c⟩ next goesOn
    dsimp only at goesOn
    split at goesOn
    · cases goesOn
    · next more =>
      split at goesOn
      · cases goesOn
      · next noBrace =>
        cases goesOn
        exact ⟨element_moves c, element_progress more noBrace⟩

theorem blockLoop_stops (opening : Span) (members : List Member) (c : Cursor) :
    (blockLoop opening).Stops (members, c)
      (members ++ (block opening c).1, (block opening c).2) := by
  refine (blockLoop opening).stops (fun (members, c) =>
    (members ++ (block opening c).1, (block opening c).2)) ?_ (members, c)
  rintro ⟨members, c⟩
  dsimp only [blockLoop]
  split
  · next ends =>
    rw [block, if_pos ends]
    simp
  · next more =>
    split
    · next brace =>
      rw [block, if_neg more, if_pos brace]
      simp
    · next noBrace =>
      rw [block_step opening more noBrace]
      simp

def textLoop : Loop (List Member) (List Member × Cursor) where
  round := fun (members, c) =>
    if c.atEnd then .inr (members, c)
    else if c.sees (·.isSymbol "\x7d") then
      .inl (members, c.advance.report c.here.span .strayBrace)
    else .inl (members ++ (element c).1, (element c).2)
  progress := by
    rintro ⟨members, c⟩ next goesOn
    dsimp only at goesOn
    split at goesOn
    · cases goesOn
    · next more =>
      split at goesOn
      · cases goesOn
        exact ⟨(Moves.advance c).report _ _, Cursor.advance_length_of_not_atEnd more⟩
      · next noBrace =>
        cases goesOn
        exact ⟨element_moves c, element_progress more noBrace⟩

theorem textLoop_stops (members : List Member) (c : Cursor) :
    textLoop.Stops (members, c) (members ++ (topLevel c).1, (topLevel c).2) := by
  refine textLoop.stops (fun (members, c) =>
    (members ++ (topLevel c).1, (topLevel c).2)) ?_ (members, c)
  rintro ⟨members, c⟩
  dsimp only [textLoop]
  split
  · next ends =>
    rw [topLevel_end ends]
    simp
  · next more =>
    split
    · next brace =>
      rw [topLevel, if_neg more, if_pos brace]
      simp
    · next noBrace =>
      rw [topLevel_step more noBrace]
      simp

structure LoopsStop : Prop where
  paths : ∀ chain parts c,
    (pathLoop chain).Stops (parts, c) (parts ++ (pathTail chain c).1, (pathTail chain c).2)
  leads : ∀ lead c, leadLoop.Stops (lead, c) (leadFrom lead c)
  targets : ∀ kind references c, (targetLoop kind).Stops (references, c)
    (references ++ (targets kind c).1, (targets kind c).2)
  imports : ∀ isNamespace isRecursive c,
    starLoop.Stops ((isNamespace, isRecursive), c) (importStars isNamespace isRecursive c)
  headers : ∀ kind references c, (headerLoop kind).Stops (references, c)
    (references ++ (header kind c).1, (header kind c).2)
  remarks : ∀ c, remarkLoop.Stops ((), c) (skipRemark c)
  statements : ∀ c, statementLoop.Stops ((), c) (skipStatement c)
  operands : ∀ depth c, operandLoop.Stops (depth, c) (skipOperands depth c)
  groups : ∀ opening closing first depth c, (groupLoop opening closing first).Stops (depth, c)
    (closeGroup opening closing first depth c)
  blocks : ∀ opening members c, (blockLoop opening).Stops (members, c)
    (members ++ (block opening c).1, (block opening c).2)
  texts : ∀ members c,
    textLoop.Stops (members, c) (members ++ (topLevel c).1, (topLevel c).2)

theorem loops_stop : LoopsStop where
  paths := pathLoop_stops
  leads := leadLoop_stops
  targets := targetLoop_stops
  imports := starLoop_stops
  headers := headerLoop_stops
  remarks := remarkLoop_stops
  statements := statementLoop_stops
  operands := operandLoop_stops
  groups := groupLoop_stops
  blocks := blockLoop_stops
  texts := textLoop_stops

/-! ## Whole texts -/

structure Scan.Headway (s : Scan) : Prop where
  inRange : ∀ c, Moves s.cursor c → s.InRange c
  onward : ∀ c d, Moves s.cursor c → Moves c d → s.position c ≤ s.position d
  /-- A statement ends behind the place where it begins. -/
  passes : ∀ c, Enters s.cursor c → Moves c (element c).2 ∧ s.position c < s.position (element c).2
  loops : LoopsStop
  /-- Reading ends where no token but comments and the mark of the end is left. -/
  finished : Moves s.cursor (topLevel s.cursor).2 ∧
    (s.stream.drop (s.position (topLevel s.cursor).2)).filter (·.kind != .comment) = [s.stop]
  /-- Statements are read at such places only. -/
  calls : ∀ c ∈ textCalls s.cursor, Enters s.cursor c
  /-- No more statements are read than there are tokens other than comments. -/
  counted : (textCalls s.cursor).length ≤ (s.tokens.filter (·.kind != .comment)).length

/-- Reading makes headway in every text. -/
theorem topLevel_headway (text : String) : (scan text).Headway where
  inRange c moves := scan_inRange moves
  onward _ _ _ := Scan.position_le
  passes c enters :=
    ⟨element_moves c, Scan.position_lt enters.moves (element_moves c)
      (element_progress enters.more enters.noBrace)⟩
  loops := loops_stop
  finished := by
    have moves := topLevel_moves (scan text).cursor
    have left := moves.pending_suffix
    rw [Scan.cursor_pending] at left
    have none_ := List.isEmpty_iff.mp (topLevel_atEnd (scan text).cursor)
    refine ⟨moves, ?_⟩
    rw [Scan.drop_position left, (moves.marked (scan_marked text)).pending_spoken, none_,
      moves.stop_token]
    rfl
  calls := textCalls_enters _
  counted := by
    have counted := textCalls_length (scan text).cursor
    have length : (scan text).cursor.length = _ := attachComments_length [] (scan text).tokens
    omega

end Sysml.Notation
