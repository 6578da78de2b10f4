import Sysml.Proofs.Notation.Moves

/-!
# What reading passes

Reading never goes back: what a step leaves ahead is the end of what was ahead
before. The references and imports that it finds start at tokens that it passed,
each at one of its own, since no two tokens of a text start at the same place.
-/

set_option autoImplicit false

namespace Sysml

/-- The first place comes before the second. -/
def Position.Before (p q : Position) : Prop :=
  p.line < q.line ∨ p.line = q.line ∧ p.column < q.column

namespace Position.Before

variable {p q r : Position}

theorem trans (first : Before p q) (second : Before q r) : Before p r := by
  unfold Before at *
  omega

theorem ne (before : Before p q) : p ≠ q := by
  rintro rfl
  unfold Before at before
  omega

end Position.Before

theorem Position.before_next (p : Position) (c : Char) : p.Before (p.next c) := by
  unfold Before next
  split
  · exact .inl (Nat.lt_succ_self _)
  · exact .inr ⟨rfl, Nat.lt_succ_self _⟩

theorem Position.before_after (p : Position) {text : List Char} (more : text ≠ []) :
    p.Before (p.after text) := by
  induction text generalizing p with
  | nil => exact absurd rfl more
  | cons c rest ih =>
    cases rest with
    | nil => exact p.before_next c
    | cons d rest => exact (p.before_next c).trans (ih (p.next c) (by simp))

namespace Notation

def starts (found : List Scanned) : List Position :=
  (found.filterMap fun
    | .token token => some token
    | _ => none).map (·.span.start)

/-- Tokens start one after the other. -/
theorem scanFrom_starts (place : Position) (text : List Char) :
    (starts (scanFrom place text)).Pairwise Position.Before ∧
      ∀ start ∈ starts (scanFrom place text), start = place ∨ place.Before start := by
  fun_induction scanFrom place text with
  | case1 => exact ⟨List.Pairwise.nil, fun _ member => (by cases member)⟩
  | case2 place c tail found next _ ih =>
    have moved : place.Before next := place.before_after (lexeme_cuts c tail).2
    refine ⟨ih.1, fun start member => .inr ?_⟩
    rcases ih.2 start member with rfl | later
    · exact moved
    · exact moved.trans later
  | case3 place c tail found next span kind _ ih =>
    have moved : place.Before next := place.before_after (lexeme_cuts c tail).2
    have later (start : Position) (member : start ∈ starts (scanFrom next found.rest)) :
        place.Before start := by
      rcases ih.2 start member with rfl | later
      · exact moved
      · exact moved.trans later
    refine ⟨List.pairwise_cons.mpr ⟨later, ih.1⟩, fun start member => ?_⟩
    rcases List.mem_cons.mp member with rfl | inner
    · exact .inl rfl
    · exact .inr (later start inner)
  | case4 => exact ⟨List.Pairwise.nil, fun _ member => (by cases member)⟩
  | case5 place c tail found next span _ ih =>
    have moved : place.Before next := place.before_after (lexeme_cuts c tail).2
    refine ⟨ih.1, fun start member => .inr ?_⟩
    rcases ih.2 start member with rfl | later
    · exact moved
    · exact moved.trans later

theorem attachComments_tokens (pending tokens : List Token) :
    ((attachComments pending tokens).1.map (·.token)).Sublist tokens := by
  fun_induction attachComments pending tokens with
  | case1 => exact .slnil
  | case2 pending token rest _ ih => exact ih.cons token
  | case3 pending token rest _ words trailing same ih =>
    rw [same] at ih
    exact ih.cons_cons token

def Cursor.tokens (c : Cursor) : List Token :=
  c.ahead.map (·.token)

/-- No two tokens of a text start at the same place. -/
theorem scan_starts_nodup (text : String) :
    ((scan text).cursor.tokens.map (·.span.start)).Nodup := by
  have sorted := (scanFrom_starts {} text.toList).1
  have kept := (attachComments_tokens [] (scan text).tokens).map (·.span.start)
  exact (sorted.imp Position.Before.ne).sublist kept

/-- Reading went on from the first place to the second one, over tokens that start
at the marks, in this order. -/
def Passes (marks : List Position) (c after : Cursor) : Prop :=
  ∃ passed, c.tokens = passed ++ after.tokens ∧
    marks.Sublist (passed.map (·.span.start))

namespace Passes

variable {marks more : List Position} {c middle after : Cursor}

theorem refl (c : Cursor) : Passes [] c c :=
  ⟨[], rfl, .slnil⟩

theorem trans (first : Passes marks c middle) (second : Passes more middle after) :
    Passes (marks ++ more) c after := by
  obtain ⟨passed, before, marked⟩ := first
  obtain ⟨further, between, markedMore⟩ := second
  refine ⟨passed ++ further, by rw [before, between, List.append_assoc], ?_⟩
  rw [List.map_append]
  exact marked.append markedMore

theorem weaken (passes : Passes marks c after) (fewer : more.Sublist marks) :
    Passes more c after := by
  obtain ⟨passed, before, marked⟩ := passes
  exact ⟨passed, before, fewer.trans marked⟩

/-- The places count only for the tokens ahead of them. -/
theorem of_tokens {start stop : Cursor} (passes : Passes marks c after)
    (first : start.tokens = c.tokens) (last : stop.tokens = after.tokens) :
    Passes marks start stop := by
  obtain ⟨passed, before, marked⟩ := passes
  exact ⟨passed, by rw [first, last, before], marked⟩

theorem report (passes : Passes marks c after) (span : Span) (problem : SyntaxProblem) :
    Passes marks c (after.report span problem) :=
  passes.of_tokens rfl rfl

theorem reportIf (passes : Passes marks c after) (wrong : Bool) (span : Span)
    (problem : SyntaxProblem) : Passes marks c (after.reportIf wrong span problem) := by
  unfold Cursor.reportIf
  split
  · exact passes.report span problem
  · exact passes

theorem advance (c : Cursor) : Passes [] c c.advance := by
  unfold Cursor.advance
  split
  · exact (refl c).of_tokens rfl rfl
  · next word rest same =>
    exact ⟨[word.token], by simp [Cursor.tokens, same], List.nil_sublist _⟩

/-- Moving on over a token passes its start. -/
theorem advance_here {p : Token → Bool} (seen : c.sees p = true) :
    Passes [c.here.span.start] c c.advance := by
  obtain ⟨ahead, stop, last, faults⟩ := c
  cases ahead with
  | nil => cases seen
  | cons word rest => exact ⟨[word.token], rfl, List.Sublist.refl _⟩

/-- One more token. -/
theorem step (passes : Passes marks c.advance after) : Passes marks c after :=
  (advance c).trans passes

theorem passComment (c : Cursor) : Passes [] c c.passComment := by
  refine (refl c).of_tokens rfl ?_
  unfold Cursor.passComment Cursor.tokens
  split <;> simp_all

end Passes

section Steps

variable {c after : Cursor}

theorem Move.passes (move : Move c after) : Passes [] c after := by
  cases move with
  | advance => exact .advance c
  | drop => exact (Passes.advance c).of_tokens rfl rfl
  | passComment => exact .passComment c
  | report span problem => exact (Passes.refl c).report span problem

theorem Moves.passes (moves : Moves c after) : Passes [] c after := by
  induction moves with
  | refl => exact .refl c
  | tail _ move ih => exact ih.trans move.passes

/-- A path starts where its first name does. -/
theorem path?_passes {chain : Bool} {text : String} (found : path? chain c = some (text, after)) :
    Passes [c.here.span.start] c after := by
  unfold path? at found
  split at found
  · next seen =>
    cases found
    exact (Passes.advance_here seen).trans (pathTail_moves chain c.advance).passes
  · cases found

def referenceMarks (references : List Reference) : List Position :=
  references.map (·.span.start)

theorem targets_passes (kind : RefKind) (c : Cursor) :
    Passes (referenceMarks (targets kind c).1) c (targets kind c).2 := by
  fun_induction targets kind c with
  | case1 c _ => exact (skipConjugation_moves c).passes
  | case2 c target after found start reference comma others rest same ih =>
    rw [same] at ih
    exact ((skipConjugation_moves c).passes.trans (path?_passes found)).trans ih.step
  | case3 c target after found start reference comma =>
    exact (skipConjugation_moves c).passes.trans (path?_passes found)

theorem header_passes (kind : SymbolKind) (c : Cursor) :
    Passes (referenceMarks (header kind c).1) c (header kind c).2.2 := by
  fun_induction header kind c with
  | case1 | case4 | case9 => exact (Passes.refl _).report _ _
  | case2 c => exact .advance c
  | case3 c => exact .refl c
  | case5 c _ _ _ _ relationship _ found next references ending rest same ih =>
    rw [same] at ih
    have passed : Passes (referenceMarks found.1) c next :=
      ((passOperator_moves c).passes.trans (targets_passes relationship (passOperator c))).reportIf ..
    have joined := passed.trans ih
    simpa [referenceMarks] using joined
  | case6 c _ _ _ _ _ _ ih => exact (skipGroup_moves ..).passes.trans ih
  | case7 c _ _ _ _ _ _ _ ih => exact (skipGroup_moves ..).passes.trans ih
  | case8 c _ _ _ _ _ _ _ _ ih => exact ((skipOperands_moves ..).passes.trans ih).step
  | case10 c _ _ _ _ _ _ _ _ _ ih => exact ih.step

def Statement.marks : Statement → List Position
  | .skipped | .documented _ => []
  | .imported i => [i.span.start]
  | .declared heading | .opened heading _ =>
      heading.elim [] fun heading => referenceMarks heading.references

theorem finish_marks (heading : Option Heading) (ending : HeaderEnd) (after : Cursor) :
    (ending.finish heading after).1.marks =
      heading.elim [] fun heading => referenceMarks heading.references := by
  cases ending <;> rfl

theorem headingOf_marks (kind : SymbolKind) (lead : Lead) (start : Token) (shortName : String)
    (name? : Option Token) (references : List Reference) :
    ((headingOf kind lead start shortName name? references).elim [] fun heading =>
      referenceMarks heading.references).Sublist (referenceMarks references) := by
  unfold headingOf
  cases (name?.map (·.text)) <|> redefinedName? references with
  | none => exact List.nil_sublist _
  | some name => exact List.Sublist.refl _

theorem declaration_passes (kind : SymbolKind) (lead : Lead) (needsName : Bool) (c : Cursor) :
    Passes (declaration kind lead needsName c).1.marks c
      (declaration kind lead needsName c).2 := by
  have named := ((shortName_moves c).trans (passName_moves (shortName c).2)).passes
  have read := named.trans (header_passes kind (passName (shortName c).2))
  rw [declaration_eq]
  dsimp only
  rw [finish_marks]
  refine Passes.weaken ?_ (headingOf_marks ..)
  rw [← List.append_nil (referenceMarks _)]
  exact (read.reportIf ..).trans (finish_moves ..).passes

theorem importStatement_passes (lead : Lead) (c : Cursor) :
    Passes (importStatement lead c).1.marks c (importStatement lead c).2 := by
  have start := (importStart_moves c).step
  rw [importStatement_eq]
  cases found : path? false (importStart c) with
  | none => exact (start.trans ((Move.report ..).moves.trans (skipStatement_moves _))).passes
  | some read =>
    obtain ⟨path, after⟩ := read
    have stars := importStars_moves false false after
    have ended := (stars.trans (passConditions_moves _)).trans (importEnd_moves _)
    exact (start.passes.trans (path?_passes found)).trans ended.passes

theorem docStatement_passes (c : Cursor) :
    Passes (docStatement c).1.marks c (docStatement c).2 := by
  have unmarked : (docStatement c).1.marks = [] := by
    rw [docStatement_eq]
    dsimp only
    split <;> rfl
  rw [unmarked]
  exact (docStatement_moves c).step.passes

theorem keywordStatement?_passes {lead : Lead} {statement : Statement}
    (found : keywordStatement? lead c = some (statement, after)) :
    Passes statement.marks c after := by
  have declared {kind : SymbolKind} {needsName : Bool} {start : Cursor} (into : Moves c start)
      (same : declaration kind lead needsName start = (statement, after)) :
      Passes statement.marks c after := by
    have passes := into.passes.trans (declaration_passes kind lead needsName start)
    rwa [same] at passes
  unfold keywordStatement? at found
  dsimp only at found
  split at found
  · have passes := importStatement_passes lead c
    rwa [Option.some.inj found] at passes
  · split at found
    · have passes := docStatement_passes c
      rwa [Option.some.inj found] at passes
    · split at found
      · cases found
        exact (skipRemark_moves _).step.passes
      · split at found
        · exact declared (.advance c) (Option.some.inj found)
        · split at found
          · exact declared (.advance c) (Option.some.inj found)
          · split at found
            · next family next head =>
              have into := (familyHead?_moves head).step
              split at found
              · exact declared (into.trans (.advance _)) (Option.some.inj found)
              · exact declared into (Option.some.inj found)
            · obtain ⟨kind, _, same⟩ := Option.map_eq_some_iff.mp found
              refine declared ?_ same
              split
              · exact (Moves.advance _).step
              · exact .advance c

theorem plainStatement_passes (lead : Lead) (c : Cursor) :
    Passes (plainStatement lead c).1.marks c (plainStatement lead c).2 := by
  unfold plainStatement
  split
  · exact declaration_passes ..
  · split
    · exact declaration_passes ..
    · split
      · exact declaration_passes ..
      · exact (skipStatement_moves c).passes

/-- What a statement finds starts at tokens that it passed. -/
theorem Statement.read_passes (c : Cursor) :
    Passes (Statement.read c).1.marks c (Statement.read c).2 := by
  have into := (leadFrom_moves {} c).passes
  unfold Statement.read
  dsimp only
  generalize leadFrom {} c = led at *
  obtain ⟨lead, next⟩ := led
  dsimp only at *
  split
  · exact into
  · split
    · exact into.trans (.advance next)
    · split
      · cases found : keywordStatement? lead next with
        | none => exact into.trans (plainStatement_passes lead next)
        | some read => exact into.trans (keywordStatement?_passes found)
      · exact into.trans (plainStatement_passes lead next)

end Steps

mutual

def Member.marks : Member → List Position
  | .declared heading _ members => referenceMarks heading.references ++ marksOf members
  | .imported i => [i.span.start]
  | .documented _ => []

/-- Where the references and imports of members start, as they are written. -/
def marksOf : List Member → List Position
  | [] => []
  | member :: rest => member.marks ++ marksOf rest

end

theorem marksOf_append (left right : List Member) :
    marksOf (left ++ right) = marksOf left ++ marksOf right := by
  induction left with
  | nil => rfl
  | cons member rest ih => simp only [List.cons_append, marksOf, ih, List.append_assoc]

theorem membersOf_marks (heading : Option Heading) (last : Option Token) (inner : List Member) :
    (marksOf (membersOf heading last inner)) =
      (heading.elim [] fun heading => referenceMarks heading.references) ++ marksOf inner := by
  cases heading with
  | none => rfl
  | some heading => simp [membersOf, marksOf, Member.marks]

mutual

/-- What a statement with its block adds starts at tokens that were passed. -/
theorem element_passes (c : Cursor) : Passes (marksOf (element c).1) c (element c).2 := by
  have passes := Statement.read_passes c
  unfold element
  split
  · next read =>
    rw [read] at passes
    exact passes
  · next read =>
    rw [read] at passes
    exact passes
  · next read =>
    rw [read] at passes
    exact passes
  · next heading after read =>
    rw [read] at passes
    simpa [membersOf_marks, marksOf, Statement.marks] using passes
  · next heading opening after read =>
    rw [read] at passes
    have shorter := Statement.read_opens_length read
    have inner := block_passes opening after
    simpa [membersOf_marks, Statement.marks] using passes.trans inner
termination_by 2 * c.length
decreasing_by omega

theorem block_passes (opening : Span) (c : Cursor) :
    Passes (marksOf (block opening c).1) c (block opening c).2 := by
  unfold block
  split
  · exact (Passes.refl c).report _ _
  · split
    · exact .advance c
    · have first := element_passes c
      dsimp only
      split
      · next shorter =>
        have others := block_passes opening (element c).2
        simpa [marksOf_append] using first.trans others
      · exact first
termination_by 2 * c.length + 1
decreasing_by all_goals omega

end

theorem topLevel_passes (c : Cursor) : Passes (marksOf (topLevel c).1) c (topLevel c).2 := by
  fun_induction topLevel c with
  | case1 c _ => exact .refl c
  | case2 c _ _ ih => exact (ih.of_tokens rfl rfl).step
  | case3 c _ _ members next read _ others rest same ih =>
    have first := element_passes c
    rw [read] at first
    rw [same] at ih
    simpa [marksOf_append] using first.trans ih
  | case4 c _ _ members next read _ =>
    have first := element_passes c
    rwa [read] at first

def referencesOf (symbols : List Symbol) : List (Symbol × Reference) :=
  symbols.flatMap fun symbol => symbol.references.map (symbol, ·)

def ownedImports (symbols : List Symbol) : List (Symbol × Import) :=
  symbols.flatMap fun symbol => symbol.imports.map (symbol, ·)

def symbolMarks (symbols : List Symbol) : List Position :=
  (referencesOf symbols).map (·.2.span.start) ++ (ownedImports symbols).map (·.2.span.start)

theorem count_symbolMarks_cons (symbol : Symbol) (symbols : List Symbol) (p : Position) :
    (symbolMarks (symbol :: symbols)).count p =
      (referenceMarks symbol.references).count p +
        (symbol.imports.map (·.span.start)).count p + (symbolMarks symbols).count p := by
  simp only [symbolMarks, referencesOf, ownedImports, referenceMarks, List.flatMap_cons,
    List.map_append, List.map_map, List.count_append, Function.comp_def]
  omega

theorem count_symbolMarks_append (left right : List Symbol) (p : Position) :
    (symbolMarks (left ++ right)).count p =
      (symbolMarks left).count p + (symbolMarks right).count p := by
  simp only [symbolMarks, referencesOf, ownedImports, List.flatMap_append, List.map_append,
    List.count_append]
  omega

theorem importsOf_cons (member : Member) (rest : List Member) :
    importsOf (member :: rest) = importsOf [member] ++ importsOf rest :=
  List.filterMap_append (l := [member])

mutual

theorem Member.count_marks (file : String) (isLibrary : Bool) (owner : Option String)
    (p : Position) :
    ∀ member : Member,
      (symbolMarks (member.symbols file isLibrary owner)).count p +
        ((importsOf [member]).map (·.span.start)).count p = member.marks.count p
  | .declared heading stop members => by
      have inner (name : String) := count_marksOf file isLibrary (some name) p members
      have none_ : importsOf [.declared heading stop members] = [] := rfl
      simp only [Member.symbols, count_symbolMarks_cons, Member.marks, List.count_append, none_,
        List.map_nil, List.count_nil]
      rw [Nat.add_zero, Nat.add_assoc, Nat.add_comm (List.count _ (List.map _ _)), inner]
  | .imported i => by simp [Member.symbols, Member.marks, importsOf, symbolMarks, referencesOf,
      ownedImports]
  | .documented _ => by simp [Member.symbols, Member.marks, importsOf, symbolMarks, referencesOf,
      ownedImports]

theorem count_marksOf (file : String) (isLibrary : Bool) (owner : Option String) (p : Position) :
    ∀ members : List Member,
      (symbolMarks (symbolsOf file isLibrary owner members)).count p +
        ((importsOf members).map (·.span.start)).count p = (marksOf members).count p
  | [] => by simp [symbolsOf, marksOf, importsOf, symbolMarks, referencesOf, ownedImports]
  | member :: rest => by
      have first := Member.count_marks file isLibrary owner p member
      have others := count_marksOf file isLibrary owner p rest
      rw [importsOf_cons]
      simp only [symbolsOf, marksOf, count_symbolMarks_append, List.count_append, List.map_append,
        ← first, ← others]
      omega

end

/-- No two references or imports of a file start at the same place. -/
theorem parse_marks_nodup (file text : String) (isLibrary : Bool) :
    (symbolMarks (parse file text isLibrary).symbols ++
      (parse file text isLibrary).imports.map (·.span.start)).Nodup := by
  obtain ⟨passed, whole, marked⟩ := topLevel_passes (scan text).cursor
  have starts := scan_starts_nodup text
  rw [whole, List.map_append] at starts
  have marks := (List.nodup_append.mp starts).1.sublist marked
  refine (List.Perm.nodup_iff (List.perm_iff_count.mpr fun p => ?_)).mpr marks
  rw [List.count_append, ← count_marksOf file isLibrary none p]
  rfl

end Notation

end Sysml
