import Mathlib.Logic.Relation
import Sysml.Proofs.Notation.Steps

/-!
# The moves of reading

Whatever reading finds, it gets from place to place by small moves: over a token, over a comment,
or on the spot where it notes a fault (`topLevel_moves`). So what every move keeps, reading keeps:
what is left is a last part of the tokens that were left before it (`Moves.pending_suffix`), and
faults that were noted stay (`Moves.clean`).
-/

set_option autoImplicit false

namespace Sysml.Notation

def Word.tokens (word : Word) : List Token :=
  word.comments ++ [word.token]

/-- All tokens from a place on, the comments among them, and the mark of the end. -/
def Cursor.pending (c : Cursor) : List Token :=
  c.ahead.flatMap Word.tokens ++ c.stop.tokens

/-- A move of reading: over the next token, over a comment, or a note of a fault. -/
inductive Move (c : Cursor) : Cursor → Prop where
  | advance : Move c c.advance
  /-- Over a token that is not kept as the last one. -/
  | drop : Move c c.drop
  | passComment : Move c c.passComment
  | report (span : Span) (problem : SyntaxProblem) : Move c (c.report span problem)

/-- Reading gets from the first place to the second one. -/
def Moves (c d : Cursor) : Prop :=
  Relation.ReflTransGen Move c d

/-! ## What a move does -/

section Steps

variable {c d : Cursor}

/-- No move goes back, and none passes the mark of the end. -/
theorem Move.pending_suffix (move : Move c d) : d.pending <:+ c.pending := by
  obtain ⟨ahead, ⟨trailing, stop⟩, last, faults⟩ := c
  cases move with
  | advance | drop =>
    cases ahead with
    | nil => exact List.suffix_refl _
    | cons word rest => exact ⟨word.tokens, by simp [Cursor.pending, Cursor.advance, Cursor.drop]⟩
  | passComment =>
    cases ahead with
    | nil => cases trailing <;> simp [Cursor.pending, Cursor.passComment, Word.tokens]
    | cons word rest =>
      obtain ⟨comments, token⟩ := word
      cases comments <;> simp [Cursor.pending, Cursor.passComment, Word.tokens]
  | report => exact List.suffix_refl _

/-- What a move passes is left no more. -/
theorem Move.pending_length (move : Move c d) :
    d.pending.length + c.length ≤ c.pending.length + d.length := by
  obtain ⟨ahead, stop, last, faults⟩ := c
  cases move with
  | advance | drop =>
    cases ahead with
    | nil => exact Nat.le_refl _
    | cons word rest =>
      simp [Cursor.pending, Cursor.advance, Cursor.drop, Cursor.length, Word.tokens]
      omega
  | passComment =>
    cases ahead <;> simp [Cursor.pending, Cursor.passComment, Cursor.length, Word.tokens]
  | report => exact Nat.le_refl _

theorem Move.length_le (move : Move c d) : d.length ≤ c.length := by
  cases move with
  | advance | drop => exact Cursor.advance_length_le c
  | passComment => exact Nat.le_of_eq (Cursor.passComment_length c)
  | report => exact Nat.le_refl _

theorem Move.clean (move : Move c d) (clean : d.faults = []) : c.faults = [] := by
  cases move with
  | advance | drop | passComment =>
    simp only [Cursor.advance, Cursor.drop, Cursor.passComment] at clean
    split at clean <;> exact clean
  | report => cases clean

/-- The mark of the end stays. -/
theorem Move.stop_token (move : Move c d) : d.stop.token = c.stop.token := by
  cases move with
  | advance | drop | passComment =>
    simp only [Cursor.advance, Cursor.drop, Cursor.passComment]
    split <;> rfl
  | report => rfl

theorem Move.moves (move : Move c d) : Moves c d :=
  Relation.ReflTransGen.single move

namespace Moves

theorem refl (c : Cursor) : Moves c c :=
  Relation.ReflTransGen.refl

theorem trans {middle : Cursor} (first : Moves c middle) (second : Moves middle d) : Moves c d :=
  Relation.ReflTransGen.trans first second

theorem pending_suffix (moves : Moves c d) : d.pending <:+ c.pending := by
  induction moves with
  | refl => exact List.suffix_refl _
  | tail _ move ih => exact move.pending_suffix.trans ih

theorem pending_length (moves : Moves c d) :
    d.pending.length + c.length ≤ c.pending.length + d.length := by
  induction moves with
  | refl => exact Nat.le_refl _
  | tail _ move ih =>
    have last := move.pending_length
    omega

theorem length_le (moves : Moves c d) : d.length ≤ c.length := by
  induction moves with
  | refl => exact Nat.le_refl _
  | tail _ move ih => exact Nat.le_trans move.length_le ih

/-- There was no fault at the first place if there is none at the second one. -/
theorem clean (moves : Moves c d) (clean : d.faults = []) : c.faults = [] := by
  induction moves with
  | refl => exact clean
  | tail _ move ih => exact ih (move.clean clean)

theorem stop_token (moves : Moves c d) : d.stop.token = c.stop.token := by
  induction moves with
  | refl => rfl
  | tail _ move ih => exact move.stop_token.trans ih

theorem advance (c : Cursor) : Moves c c.advance :=
  Move.advance.moves

/-- One more token. -/
theorem step (moves : Moves c.advance d) : Moves c d :=
  (advance c).trans moves

theorem report (moves : Moves c d) (span : Span) (problem : SyntaxProblem) :
    Moves c (d.report span problem) :=
  moves.trans (Move.report span problem).moves

theorem reportIf (moves : Moves c d) (wrong : Bool) (span : Span) (problem : SyntaxProblem) :
    Moves c (d.reportIf wrong span problem) := by
  unfold Cursor.reportIf
  split
  · exact moves.report span problem
  · exact moves

end Moves

end Steps

/-! ## Readers -/

section Readers

variable {c after : Cursor}

theorem pathTail_moves (chain : Bool) (c : Cursor) : Moves c (pathTail chain c).2 := by
  fun_induction pathTail chain c with
  | case1 c more parts after same ih =>
    rw [same] at ih
    exact ih.step.step
  | case2 => exact .refl _

theorem path?_moves {chain : Bool} {text : String} (found : path? chain c = some (text, after)) :
    Moves c after := by
  unfold path? at found
  split at found
  · cases found
    exact (pathTail_moves chain c.advance).step
  · cases found

theorem passMark_moves (c : Cursor) : Moves c (passMark c) := by
  unfold passMark
  cases found : path? false c.advance with
  | none => exact .advance c
  | some read => exact (path?_moves found).step

theorem leadFrom_moves (lead : Lead) (c : Cursor) : Moves c (leadFrom lead c).2 := by
  rw [leadFrom_eq]
  split
  · next mark =>
    have shorter := passMark_length mark
    exact (passMark_moves c).trans (leadFrom_moves lead (passMark c))
  · split
    · next word =>
      have shorter := Cursor.advance_length_of_sees word
      cases lead.withWord? c.here.text with
      | none => exact .refl c
      | some lead => exact (leadFrom_moves lead c.advance).step
    · exact .refl c
termination_by c.length

theorem closeGroup_moves (opening closing : String) (first : Span) (depth : Nat) (c : Cursor) :
    Moves c (closeGroup opening closing first depth c) := by
  fun_induction closeGroup opening closing first depth c
  all_goals first
    | exact .refl _
    | exact (Moves.refl _).report _ _
    | next ih => exact ih.step

theorem skipGroup_moves (opening closing : String) (c : Cursor) :
    Moves c (skipGroup opening closing c) :=
  (closeGroup_moves opening closing _ 1 c.advance).step

theorem skipStatement_moves (c : Cursor) : Moves c (skipStatement c) := by
  fun_induction skipStatement c
  all_goals first
    | exact .refl _
    | exact skipGroup_moves ..
    | exact .advance _
    | next ih => exact ih.step

theorem skipOperands_moves (depth : Nat) (c : Cursor) : Moves c (skipOperands depth c) := by
  fun_induction skipOperands depth c
  all_goals first
    | exact .refl _
    | next ih => exact ih.step

theorem skipConjugation_moves (c : Cursor) : Moves c (skipConjugation c) := by
  unfold skipConjugation
  split
  · exact .advance c
  · exact .refl _

theorem passOperator_moves (c : Cursor) : Moves c (passOperator c) := by
  unfold passOperator
  split
  · exact (Moves.advance _).step
  · exact .advance c

theorem targets_moves (kind : RefKind) (c : Cursor) : Moves c (targets kind c).2 := by
  fun_induction targets kind c with
  | case1 c _ => exact skipConjugation_moves c
  | case2 c target after found start reference comma others rest same ih =>
    rw [same] at ih
    exact ((skipConjugation_moves c).trans (path?_moves found)).trans ih.step
  | case3 c target after found start reference comma =>
    exact (skipConjugation_moves c).trans (path?_moves found)

theorem afterTargets_moves (relationship : RefKind) (c : Cursor) :
    Moves c (afterTargets relationship c) :=
  ((passOperator_moves c).trans (targets_moves relationship (passOperator c))).reportIf ..

theorem header_moves (kind : SymbolKind) (c : Cursor) : Moves c (header kind c).2.2 := by
  fun_induction header kind c with
  | case1 | case4 | case9 => exact (Moves.refl _).report _ _
  | case2 c => exact .advance c
  | case3 c => exact .refl c
  | case5 c _ _ _ _ relationship _ found next references ending rest same ih =>
    rw [same] at ih
    exact (afterTargets_moves relationship c).trans ih
  | case6 c _ _ _ _ _ _ ih => exact (skipGroup_moves ..).trans ih
  | case7 c _ _ _ _ _ _ _ ih => exact (skipGroup_moves ..).trans ih
  | case8 c _ _ _ _ _ _ _ _ ih => exact ((skipOperands_moves ..).trans ih).step
  | case10 c _ _ _ _ _ _ _ _ _ ih => exact ih.step

theorem passName_moves (c : Cursor) : Moves c (passName c) := by
  unfold passName
  split
  · exact .advance c
  · exact .refl _

theorem shortName_moves (c : Cursor) : Moves c (shortName c).2 := by
  unfold shortName
  split
  · dsimp only
    split <;> split
    · exact ((Moves.advance _).step).step
    · exact ((Moves.advance _).step).report _ _
    · exact (Moves.advance _).step
    · exact (Moves.advance _).report _ _
  · exact .refl _

theorem finish_moves {heading : Option Heading} (ending : HeaderEnd) (c : Cursor) :
    Moves c (ending.finish heading c).2 := by
  cases ending with
  | closed => exact .refl _
  | opens => exact .advance c

theorem declaration_moves (kind : SymbolKind) (lead : Lead) (needsName : Bool) (c : Cursor) :
    Moves c (declaration kind lead needsName c).2 := by
  rw [declaration_eq]
  have named := (shortName_moves c).trans (passName_moves (shortName c).2)
  have read := named.trans (header_moves kind (passName (shortName c).2))
  exact (read.reportIf ..).trans (finish_moves ..)

theorem importStars_moves (isNamespace isRecursive : Bool) (c : Cursor) :
    Moves c (importStars isNamespace isRecursive c).2.2 := by
  fun_induction importStars isNamespace isRecursive c
  all_goals first
    | exact .refl _
    | next ih => exact ih.step.step

theorem importStart_moves (c : Cursor) : Moves c.advance (importStart c) := by
  unfold importStart
  split
  · exact .advance _
  · exact .refl _

theorem passConditions_moves (c : Cursor) : Moves c (passConditions c) := by
  unfold passConditions
  split
  · exact skipGroup_moves ..
  · exact .refl _

theorem importEnd_moves (c : Cursor) : Moves c (importEnd c) := by
  unfold importEnd
  split
  · exact .advance c
  · exact (Move.report ..).moves.trans (skipStatement_moves _)

/-- An import takes its keyword, whatever else it takes. -/
theorem importStatement_moves (lead : Lead) (c : Cursor) :
    Moves c.advance (importStatement lead c).2 := by
  have start := importStart_moves c
  rw [importStatement_eq]
  cases found : path? false (importStart c) with
  | none => exact start.trans ((Move.report ..).moves.trans (skipStatement_moves _))
  | some read =>
    obtain ⟨path, after⟩ := read
    have stars := (path?_moves found).trans (importStars_moves false false after)
    exact ((start.trans stars).trans (passConditions_moves _)).trans (importEnd_moves _)

theorem passDocName_moves (c : Cursor) : Moves c (passDocName c) := by
  unfold passDocName
  split
  · exact .advance c
  · exact .refl _

theorem passLocale_moves (c : Cursor) : Moves c (passLocale c) := by
  unfold passLocale
  split
  · split
    · exact (Moves.advance _).step
    · exact .advance c
  · exact .refl _

theorem docStatement_moves (c : Cursor) : Moves c.advance (docStatement c).2 := by
  have body := (passDocName_moves c.advance).trans (passLocale_moves _)
  rw [docStatement_eq]
  dsimp only
  cases (passLocale (passDocName c.advance)).comment? with
  | none => exact body.report _ _
  | some comment => exact body.trans Move.passComment.moves

theorem skipRemark_moves (c : Cursor) : Moves c (skipRemark c) := by
  fun_induction skipRemark c
  all_goals first
    | exact .refl _
    | exact Move.passComment.moves
    | exact Move.drop.moves
    | next ih => exact Move.drop.moves.trans ih

theorem familyHead?_moves {family : Family} (found : familyHead? c = some (family, after)) :
    Moves c.advance after := by
  unfold familyHead? at found
  split at found
  · split at found
    · cases found
      exact .advance _
    · obtain ⟨_, _, same⟩ := Option.map_eq_some_iff.mp found
      cases same
      exact .refl _
  · obtain ⟨_, _, same⟩ := Option.map_eq_some_iff.mp found
    cases same
    exact .refl _

/-- A statement that begins with a word is read from the place after that word on. -/
theorem keywordStatement?_moves {lead : Lead} {read : Statement × Cursor}
    (found : keywordStatement? lead c = some read) : Moves c.advance read.2 := by
  unfold keywordStatement? at found
  dsimp only at found
  split at found
  · cases found
    exact importStatement_moves lead c
  · split at found
    · cases found
      exact docStatement_moves c
    · split at found
      · cases found
        exact skipRemark_moves _
      · split at found
        · cases found
          exact declaration_moves ..
        · split at found
          · cases found
            exact declaration_moves ..
          · split at found
            · next family next head =>
              have into := familyHead?_moves head
              split at found
              · cases found
                exact into.trans (declaration_moves ..).step
              · cases found
                exact into.trans (declaration_moves ..)
            · obtain ⟨kind, _, same⟩ := Option.map_eq_some_iff.mp found
              cases same
              split
              · exact (declaration_moves ..).step
              · exact declaration_moves ..

theorem plainStatement_moves (lead : Lead) (c : Cursor) : Moves c (plainStatement lead c).2 := by
  unfold plainStatement
  split
  · exact declaration_moves ..
  · split
    · exact declaration_moves ..
    · split
      · exact declaration_moves ..
      · exact skipStatement_moves c

theorem statementFrom_moves (lead : Lead) (c : Cursor) : Moves c (statementFrom lead c).2 := by
  unfold statementFrom
  split
  · exact .refl _
  · split
    · exact .advance c
    · split
      · cases found : keywordStatement? lead c with
        | none => exact plainStatement_moves lead c
        | some read => exact (keywordStatement?_moves found).step
      · exact plainStatement_moves lead c

theorem Statement.read_moves (c : Cursor) : Moves c (Statement.read c).2 := by
  rw [Statement.read_eq]
  exact (leadFrom_moves {} c).trans (statementFrom_moves ..)

end Readers

mutual

theorem element_moves (c : Cursor) : Moves c (element c).2 := by
  have passed := Statement.read_moves c
  rw [element_eq]
  split
  case h_5 heading opening after read =>
    have shorter := Statement.read_opens_length read
    rw [read] at passed
    exact passed.trans (block_moves opening after)
  all_goals
    next read =>
      rw [read] at passed
      exact passed
termination_by 2 * c.length
decreasing_by omega

theorem block_moves (opening : Span) (c : Cursor) : Moves c (block opening c).2 := by
  unfold block
  split
  · exact (Moves.refl _).report _ _
  · split
    · exact .advance c
    · have first := element_moves c
      dsimp only
      split
      · exact first.trans (block_moves opening (element c).2)
      · exact first
termination_by 2 * c.length + 1
decreasing_by all_goals omega

end

theorem topLevel_moves (c : Cursor) : Moves c (topLevel c).2 := by
  fun_induction topLevel c with
  | case1 c _ => exact .refl _
  | case2 c _ _ ih => exact ((Moves.advance c).report _ _).trans ih
  | case3 c _ _ members next read _ others rest same ih =>
    have first := element_moves c
    rw [read] at first
    rw [same] at ih
    exact first.trans ih
  | case4 c _ _ members next read _ =>
    have first := element_moves c
    rwa [read] at first

end Sysml.Notation
