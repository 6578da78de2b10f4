import Sysml.Proofs.Notation.Passage
import Sysml.Proofs.Notation.Steps

/-!
# The stretch of text that a statement takes

Every reader leads onward in the text. The references of a header stand between the place where it
begins and what is reached behind it (`header_finds`), a heading has its references between its
anchor and that place, and no reader notes a fault outside of the text (`Statement.read_reads`).
-/

set_option autoImplicit false

/-!
## Where reading is in a text

The tokens of a text stand one after the other, and a cursor has the tokens ahead of it behind
what it has reached: the end of the token that was passed last. Every step of reading keeps this and
leads onward (`Leads`), and what the step notes down stands between what was reached before it and
what is reached after it.
-/

namespace Sysml

/-- The first place does not come after the second. -/
def Position.UpTo (p q : Position) : Prop :=
  p.line < q.line ∨ p.line = q.line ∧ p.column ≤ q.column

namespace Position

variable {p q r : Position}

theorem UpTo.refl (p : Position) : p.UpTo p := by
  unfold UpTo
  omega

theorem UpTo.trans (first : p.UpTo q) (second : q.UpTo r) : p.UpTo r := by
  unfold UpTo at *
  omega

theorem UpTo.trans_before (first : p.UpTo q) (second : q.Before r) : p.Before r := by
  unfold UpTo Before at *
  omega

theorem Before.trans_upTo (first : p.Before q) (second : q.UpTo r) : p.Before r := by
  unfold UpTo Before at *
  omega

theorem Before.upTo (before : p.Before q) : p.UpTo q := by
  unfold UpTo Before at *
  omega

/-- No place comes before the start of a text. -/
theorem not_before_start (p : Position) : ¬ p.Before {} := by
  unfold Before
  dsimp only
  omega

theorem upTo_after (p : Position) (text : List Char) : p.UpTo (p.after text) := by
  cases text with
  | nil => exact .refl p
  | cons c rest => exact (p.before_after (List.cons_ne_nil c rest)).upTo

/-- The place stands in a text: it is reached from the text's start over its first characters. -/
def In (text : List Char) (p : Position) : Prop :=
  ∃ front, front <+: text ∧ p = Position.after {} front

theorem In.upTo_end {text : List Char} (inside : p.In text) : p.UpTo (Position.after {} text) := by
  obtain ⟨front, ⟨rest, rfl⟩, rfl⟩ := inside
  rw [after_append]
  exact upTo_after _ rest

theorem In.origin (text : List Char) : Position.In text {} :=
  ⟨[], List.nil_prefix, rfl⟩

theorem In.ending (text : List Char) : (Position.after {} text).In text :=
  ⟨text, List.prefix_rfl, rfl⟩

end Position

/-- The span stands in a text, and it does not start after its end. -/
structure Span.Within (text : List Char) (span : Span) : Prop where
  start : span.start.In text
  stop : span.stop.In text
  ordered : span.start.UpTo span.stop

namespace Notation

variable {text : List Char}

/-! ## Scans -/

def Scanned.span : Scanned → Span
  | .token found => found.span
  | .stray _ place => place
  | .openComment place => place

/-- The span stands in a text at or after a place, and something is in it. -/
structure Filled (text : List Char) (place : Position) (span : Span) : Prop where
  within : span.Within text
  from_ : place.UpTo span.start
  filled : span.start.Before span.stop

/-- What a scan meets stands in the text, one after the other. -/
theorem scanFrom_filled (front : List Char) (place : Position) (rest : List Char)
    (stands : place = Position.after {} front) :
    (∀ item ∈ scanFrom place rest, Filled (front ++ rest) place item.span) ∧
      (scanFrom place rest).Pairwise fun item later => item.span.stop.UpTo later.span.start := by
  have piece {place : Position} {front : List Char} (c : Char) (tail : List Char)
      (stands : place = Position.after {} front) :
      place.after (lexeme c tail).taken = Position.after {} (front ++ (lexeme c tail).taken) ∧
        front ++ c :: tail = front ++ (lexeme c tail).taken ++ (lexeme c tail).rest ∧
        Filled (front ++ c :: tail) place ⟨place, place.after (lexeme c tail).taken⟩ := by
    have cut := lexeme_append c tail
    have moved : place.Before (place.after (lexeme c tail).taken) :=
      place.before_after (lexeme_cuts c tail).2
    have further : place.after (lexeme c tail).taken =
        Position.after {} (front ++ (lexeme c tail).taken) := by
      rw [Position.after_append, ← stands]
    refine ⟨further, by rw [List.append_assoc, cut], ⟨⟨front, List.prefix_append .., stands⟩, ?_,
      moved.upTo⟩, .refl place, moved⟩
    exact ⟨_, by rw [← cut, ← List.append_assoc]; exact List.prefix_append .., further⟩
  fun_induction scanFrom place rest generalizing front with
  | case1 => exact ⟨fun _ member => (by cases member), .nil⟩
  | case2 place c tail found next _ ih =>
    obtain ⟨further, same, taken⟩ := piece c tail stands
    obtain ⟨filled, sorted⟩ := ih _ further
    rw [same]
    exact ⟨fun item member =>
      { filled item member with from_ := taken.filled.upTo.trans (filled item member).from_ }, sorted⟩
  | case3 place c tail found next span kind _ ih =>
    obtain ⟨further, same, taken⟩ := piece c tail stands
    obtain ⟨filled, sorted⟩ := ih _ further
    rw [← same] at filled
    refine ⟨fun item member => ?_, .cons (fun item member => (filled item member).from_) sorted⟩
    rcases List.mem_cons.mp member with rfl | member
    · exact taken
    · exact { filled item member with from_ := taken.filled.upTo.trans (filled item member).from_ }
  | case4 place c tail found next span _ =>
    obtain ⟨-, -, taken⟩ := piece c tail stands
    refine ⟨fun item member => ?_, .cons (fun _ member => (by cases member)) .nil⟩
    obtain rfl := List.mem_singleton.mp member
    exact taken
  | case5 place c tail found next span _ ih =>
    obtain ⟨further, same, taken⟩ := piece c tail stands
    obtain ⟨filled, sorted⟩ := ih _ further
    rw [← same] at filled
    refine ⟨fun item member => ?_, .cons (fun item member => (filled item member).from_) sorted⟩
    rcases List.mem_cons.mp member with rfl | member
    · exact taken
    · exact { filled item member with from_ := taken.filled.upTo.trans (filled item member).from_ }

/-! ## Cursors -/

namespace Cursor

/-- What has been reached: the end of the token that was passed last, or the start of the text. -/
def reached (c : Cursor) : Position :=
  (c.last.map (·.span.stop)).getD {}

/-- The cursor stands in a text: the tokens ahead stand one after the other behind what has been
reached. -/
structure Placed (text : List Char) (c : Cursor) : Prop where
  ahead : ∀ token ∈ c.tokens, Filled text c.reached token.span
  sorted : c.tokens.Pairwise fun token later => token.span.stop.UpTo later.span.start
  stop : c.stop.token.span = ⟨Position.after {} text, Position.after {} text⟩
  reached : c.reached.In text
  faults : ∀ fault ∈ c.faults, fault.span.Within text

/-- Reading led on to a cursor that stands in the text. -/
structure Leads (text : List Char) (c after : Cursor) : Prop where
  placed : after.Placed text
  reached : c.reached.UpTo after.reached
  here : c.here.span.start.UpTo after.here.span.start

section Steps

variable {c middle after : Cursor}

theorem Placed.here_within (placed : c.Placed text) : c.here.span.Within text := by
  obtain ⟨ahead, stop, last, faults⟩ := c
  cases ahead with
  | nil =>
    have ending : stop.token.span = _ := placed.stop
    change stop.token.span.Within text
    rw [ending]
    exact ⟨.ending text, .ending text, .refl _⟩
  | cons word rest => exact (placed.ahead word.token (by simp [tokens])).within

/-- The next token stands behind what has been reached. -/
theorem Placed.reached_here (placed : c.Placed text) : c.reached.UpTo c.here.span.start := by
  obtain ⟨ahead, stop, last, faults⟩ := c
  cases ahead with
  | nil =>
    have ending : stop.token.span = _ := placed.stop
    change Position.UpTo _ stop.token.span.start
    rw [ending]
    exact placed.reached.upTo_end
  | cons word rest => exact (placed.ahead word.token (by simp [tokens])).from_

theorem Placed.here_filled {p : Token → Bool} (placed : c.Placed text) (seen : c.sees p = true) :
    c.here.span.start.Before c.here.span.stop := by
  obtain ⟨ahead, stop, last, faults⟩ := c
  cases ahead with
  | nil => cases seen
  | cons word rest => exact (placed.ahead word.token (by simp [tokens])).filled

theorem advance_reached (c : Cursor) : c.advance.reached = c.here.span.stop := by
  obtain ⟨ahead, stop, last, faults⟩ := c
  cases ahead with
  | nil => rfl
  | cons word rest => rfl

theorem Placed.stay (placed : c.Placed text) : Leads text c c :=
  ⟨placed, .refl _, .refl _⟩

theorem Leads.trans (first : Leads text c middle) (second : Leads text middle after) :
    Leads text c after :=
  ⟨second.placed, first.reached.trans second.reached, first.here.trans second.here⟩

/-- The cursor counts only for the tokens ahead, what it has reached and its faults. -/
theorem Leads.of_same {other : Cursor} (leads : Leads text c after) (tokens : other.tokens = after.tokens)
    (stop : other.stop.token = after.stop.token) (last : other.last = after.last)
    (faults : ∀ fault ∈ other.faults, fault.span.Within text) : Leads text c other := by
  have reached : other.reached = after.reached := by rw [Cursor.reached, last]; rfl
  have here : other.here = after.here := by
    have heads := congrArg List.head? tokens
    unfold Cursor.here
    unfold Cursor.tokens at heads
    cases left : other.ahead <;> cases right : after.ahead <;> simp_all
  refine ⟨⟨?_, ?_, ?_, ?_, faults⟩, ?_, ?_⟩
  · rw [tokens, reached]
    exact leads.placed.ahead
  · rw [tokens]
    exact leads.placed.sorted
  · rw [stop]
    exact leads.placed.stop
  · rw [reached]
    exact leads.placed.reached
  · rw [reached]
    exact leads.reached
  · rw [here]
    exact leads.here

theorem Leads.report {span : Span} (leads : Leads text c after) (within : span.Within text)
    (problem : SyntaxProblem) : Leads text c (after.report span problem) := by
  refine leads.of_same rfl rfl rfl fun fault member => ?_
  rcases List.mem_cons.mp member with rfl | member
  · exact within
  · exact leads.placed.faults fault member

theorem Leads.reportIf {span : Span} (leads : Leads text c after) (wrong : Bool)
    (within : span.Within text) (problem : SyntaxProblem) :
    Leads text c (after.reportIf wrong span problem) := by
  unfold Cursor.reportIf
  split
  · exact leads.report within problem
  · exact leads

theorem Placed.passComment (placed : c.Placed text) : Leads text c c.passComment := by
  obtain ⟨ahead, stop, last, faults⟩ := c
  cases ahead <;> exact placed.stay.of_same rfl rfl rfl placed.faults

theorem Placed.drop (placed : c.Placed text) : Leads text c c.drop := by
  obtain ⟨ahead, stop, last, faults⟩ := c
  cases ahead with
  | nil => exact placed.stay
  | cons word rest =>
    have before := List.pairwise_cons.mp placed.sorted
    have first := placed.ahead word.token (by simp [tokens])
    have next : Placed text ⟨rest, stop, last, faults⟩ :=
      { ahead := fun token member => placed.ahead token (List.mem_cons_of_mem _ member)
        sorted := before.2
        stop := placed.stop
        reached := placed.reached
        faults := placed.faults }
    refine ⟨next, .refl _, ?_⟩
    cases rest with
    | nil =>
      have ending : stop.token.span = _ := placed.stop
      change Position.UpTo _ stop.token.span.start
      rw [ending]
      exact first.within.start.upTo_end
    | cons second rest =>
      exact first.filled.upTo.trans (before.1 second.token (by simp))

theorem Placed.advance (placed : c.Placed text) : Leads text c c.advance := by
  obtain ⟨ahead, stop, last, faults⟩ := c
  have dropped := placed.drop
  have within := placed.here_within
  have behind := placed.reached_here
  cases ahead with
  | nil =>
    refine ⟨⟨fun _ member => (by cases member), .nil, placed.stop, within.stop, placed.faults⟩,
      behind.trans within.ordered, .refl _⟩
  | cons word rest =>
    have before := List.pairwise_cons.mp placed.sorted
    refine ⟨⟨fun token member => ?_, before.2, placed.stop, within.stop, placed.faults⟩,
      behind.trans within.ordered, dropped.here⟩
    exact { placed.ahead token (List.mem_cons_of_mem _ member) with
      from_ := before.1 token member }

theorem Leads.advance (leads : Leads text c after) : Leads text c after.advance :=
  leads.trans leads.placed.advance

end Steps

end Cursor

open Cursor (Leads Placed)

/-- The first cursor in a text stands in it. -/
theorem scan_placed (text : String) : (scan text).cursor.Placed text.toList := by
  obtain ⟨filled, sorted⟩ := scanFrom_filled [] {} text.toList rfl
  have kept := attachComments_tokens [] (scan text).tokens
  have found (token : Token) (member : token ∈ (scan text).tokens) :
      Scanned.token token ∈ scanFrom {} text.toList := by
    obtain ⟨item, member, same⟩ := List.mem_filterMap.mp member
    cases item with
    | token other => cases same; exact member
    | stray => cases same
    | openComment => cases same
  refine ⟨fun token member => filled _ (found token (kept.subset member)), ?_, rfl, .origin _, ?_⟩
  · refine List.Pairwise.sublist kept ?_
    refine List.pairwise_filterMap.mpr (sorted.imp fun {item later} ordered token same other also => ?_)
    cases item <;> cases same
    cases later <;> cases also
    exact ordered
  · intro fault member
    obtain ⟨item, member, same⟩ := List.mem_filterMap.mp (List.mem_reverse.mp member)
    have within := (filled item member).within
    cases item <;> cases same <;> exact within

end Notation

end Sysml

namespace Sysml

/-- The reference stands in a text between two places, and something is in it. -/
structure Reference.Stands (text : List Char) (low high : Position) (reference : Reference) : Prop where
  within : reference.span.Within text
  low : low.UpTo reference.span.start
  filled : reference.span.start.Before reference.span.stop
  high : reference.span.stop.UpTo high

theorem Reference.Stands.widen {text : List Char} {low high lower higher : Position}
    {reference : Reference} (stands : reference.Stands text low high) (down : lower.UpTo low)
    (up : high.UpTo higher) : reference.Stands text lower higher :=
  { stands with low := down.trans stands.low, high := stands.high.trans up }

namespace Notation

open Cursor (Leads Placed)

variable {text : List Char} {start c after : Cursor}

/-- A place that lies before what has been reached lies before the end of a token. -/
theorem Cursor.last_of_before {p : Position} (before : p.Before c.reached) :
    ∃ token, c.last = some token ∧ token.span.stop = c.reached := by
  unfold Cursor.reached at before ⊢
  cases found : c.last with
  | none =>
    rw [found] at before
    exact absurd before (Position.not_before_start p)
  | some token => exact ⟨token, rfl, rfl⟩

/-! ## Names and what is skipped -/

theorem pathTail_leads (chain : Bool) (leads : Leads text start c) :
    Leads text start (pathTail chain c).2 := by
  fun_induction pathTail chain c with
  | case1 c more parts after same ih =>
    rw [same] at ih
    exact ih leads.advance.advance
  | case2 => exact leads

/-- A path takes the token that it begins with. -/
theorem path?_leads {chain : Bool} {path : String} (leads : Leads text start c)
    (found : path? chain c = some (path, after)) :
    Leads text start after ∧ c.here.span.start.Before after.reached := by
  unfold path? at found
  split at found
  · next seen =>
    cases found
    have onward := pathTail_leads chain leads.placed.advance.placed.stay
    refine ⟨leads.advance.trans onward, (leads.placed.here_filled seen).trans_upTo ?_⟩
    rw [← Cursor.advance_reached]
    exact onward.reached
  · cases found

theorem leadFrom_leads (lead : Lead) (leads : Leads text start c) :
    Leads text start (leadFrom lead c).2 := by
  fun_induction leadFrom lead c
  all_goals first
    | exact leads
    | next ih => exact ih leads.advance
    | skip
  next mark _ after found _ _ ih => exact ih (path?_leads leads.advance found).1

theorem closeGroup_leads {first : Span} (opening closing : String) (depth : Nat)
    (within : first.Within text) (leads : Leads text start c) :
    Leads text start (closeGroup opening closing first depth c) := by
  fun_induction closeGroup opening closing first depth c
  all_goals first
    | exact leads
    | exact leads.report within _
    | next ih => exact ih leads.advance

theorem skipGroup_leads (opening closing : String) (leads : Leads text start c) :
    Leads text start (skipGroup opening closing c) :=
  closeGroup_leads opening closing 1 leads.placed.here_within leads.advance

theorem skipStatement_leads (leads : Leads text start c) :
    Leads text start (skipStatement c) := by
  fun_induction skipStatement c
  all_goals first
    | exact leads
    | exact skipGroup_leads _ _ leads
    | exact leads.advance
    | next ih => exact ih leads.advance

theorem skipOperands_leads (depth : Nat) (leads : Leads text start c) :
    Leads text start (skipOperands depth c) := by
  fun_induction skipOperands depth c
  all_goals first
    | exact leads
    | next ih => exact ih leads.advance

theorem skipConjugation_leads (leads : Leads text start c) :
    Leads text start (skipConjugation c) := by
  unfold skipConjugation
  split
  · exact leads.advance
  · exact leads

theorem passOperator_leads (leads : Leads text start c) : Leads text start (passOperator c) := by
  unfold passOperator
  split
  · exact leads.advance.advance
  · exact leads.advance

/-! ## References -/

/-- Reading led on and found references on its way. -/
structure Finds (text : List Char) (c : Cursor) (references : List Reference) (after : Cursor) :
    Prop where
  leads : Leads text c after
  stand : ∀ reference ∈ references, reference.Stands text c.here.span.start after.reached

namespace Finds

variable {references others : List Reference} {middle : Cursor}

theorem none (leads : Leads text c after) : Finds text c [] after :=
  ⟨leads, fun _ member => (by cases member)⟩

theorem append (first : Finds text c references middle) (second : Finds text middle others after) :
    Finds text c (references ++ others) after := by
  refine ⟨first.leads.trans second.leads, fun reference member => ?_⟩
  rcases List.mem_append.mp member with earlier | later
  · exact (first.stand reference earlier).widen (.refl _) second.leads.reached
  · exact (second.stand reference later).widen first.leads.here (.refl _)

theorem behind (leads : Leads text c middle) (finds : Finds text middle references after) :
    Finds text c references after :=
  (none leads).append finds

theorem onward (finds : Finds text c references middle) (leads : Leads text middle after) :
    Finds text c references after := by
  have joined := finds.append (none leads)
  rwa [List.append_nil] at joined

end Finds

/-- The reference of a path takes what the path takes. -/
theorem path?_finds {path : String} (kind : RefKind) (placed : c.Placed text)
    (found : path? true c = some (path, after)) :
    Finds text c
      [{ kind, target := .text path
         span := ⟨c.here.span.start, (after.last.getD c.here).span.stop⟩ }] after := by
  obtain ⟨leads, taken⟩ := path?_leads placed.stay found
  obtain ⟨last, known, ends⟩ := Cursor.last_of_before taken
  refine ⟨leads, fun reference member => ?_⟩
  obtain rfl := List.mem_singleton.mp member
  rw [known, Option.getD_some, ends]
  exact ⟨⟨placed.here_within.start, leads.placed.reached, taken.upTo⟩, .refl _, taken, .refl _⟩

theorem targets_finds (kind : RefKind) (placed : c.Placed text) :
    Finds text c (targets kind c).1 (targets kind c).2 := by
  have into {c : Cursor} (placed : c.Placed text) := skipConjugation_leads placed.stay
  fun_induction targets kind c with
  | case1 c _ => exact .none (into placed)
  | case2 c target after found _ reference comma others rest same ih =>
    have first := (path?_finds kind (into placed).placed found).behind (into placed)
    have further := ih first.leads.placed.advance.placed
    rw [same] at further
    exact first.append (further.behind first.leads.placed.advance)
  | case3 c target after found _ reference _ =>
    exact (path?_finds kind (into placed).placed found).behind (into placed)

theorem header_finds (kind : SymbolKind) (placed : c.Placed text) :
    Finds text c (header kind c).1 (header kind c).2.2 := by
  have passing {middle after : Cursor} {references : List Reference} {c : Cursor}
      (leads : Leads text c middle)
      (finds : middle.Placed text → Finds text middle references after) :
      Finds text c references after := (finds leads.placed).behind leads
  fun_induction header kind c
  all_goals first
    | exact .none placed.stay
    | exact .none placed.advance
    | exact .none (placed.stay.report placed.here_within _)
    | next ih => exact passing (skipGroup_leads _ _ placed.stay) ih
    | next ih => exact passing (skipOperands_leads 0 placed.advance) ih
    | next ih => exact passing placed.advance ih
    | skip
  next c _ _ _ _ relationship _ found next references ending rest same ih =>
    have operator := passOperator_leads placed.stay
    have first := (targets_finds relationship operator.placed).behind operator
    have noted : Leads text found.2 next :=
      first.leads.placed.stay.reportIf _ first.leads.placed.here_within _
    have further := ih noted.placed
    rw [same] at further
    exact (first.onward noted).append further

/-! ## Statements -/

theorem shortName_leads (leads : Leads text start c) : Leads text start (shortName c).2 := by
  unfold shortName
  split
  · dsimp only
    split <;> split
    · exact leads.advance.advance.advance
    · exact leads.advance.advance.report leads.advance.advance.placed.here_within _
    · exact leads.advance.advance
    · exact leads.advance.report leads.advance.placed.here_within _
  · exact leads

theorem passName_leads (leads : Leads text start c) : Leads text start (passName c) := by
  unfold passName
  split
  · exact leads.advance
  · exact leads

theorem importStars_leads (isNamespace isRecursive : Bool) (leads : Leads text start c) :
    Leads text start (importStars isNamespace isRecursive c).2.2 := by
  fun_induction importStars isNamespace isRecursive c
  all_goals first
    | exact leads
    | next ih => exact ih leads.advance.advance

/-- The anchor of a heading stands between two places with its references behind it. -/
structure Heading.Stands (text : List Char) (low high : Position) (heading : Heading) : Prop where
  within : heading.anchor.Within text
  low : low.UpTo heading.anchor.start
  filled : heading.anchor.start.Before high
  references : ∀ reference ∈ heading.references,
    reference.Stands text heading.anchor.start high

/-- What a statement keeps stands in the text between two places. -/
def Statement.Stands (text : List Char) (low high : Position) : Statement → Prop
  | .skipped => True
  | .documented _ => True
  | .imported i => i.span.Within text
  | .declared heading => ∀ kept ∈ heading, kept.Stands text low high
  | .opened heading opening =>
      (∀ kept ∈ heading, kept.Stands text low high) ∧ opening.Within text

structure Reads (text : List Char) (c : Cursor) (read : Statement × Cursor) : Prop where
  leads : Leads text c read.2
  stands : read.1.Stands text c.reached read.2.reached

theorem Reads.skipped (leads : Leads text c after) : Reads text c (.skipped, after) :=
  ⟨leads, trivial⟩

theorem Heading.Stands.widen {low high lower higher : Position} {heading : Heading}
    (stands : heading.Stands text low high) (down : lower.UpTo low) (up : high.UpTo higher) :
    heading.Stands text lower higher :=
  { stands with
    low := down.trans stands.low
    filled := stands.filled.trans_upTo up
    references := fun reference member => (stands.references reference member).widen (.refl _) up }

theorem Reads.behind {read : Statement × Cursor} (leads : Leads text start c)
    (reads : Reads text c read) : Reads text start read := by
  obtain ⟨statement, after⟩ := read
  refine ⟨leads.trans reads.leads, ?_⟩
  have stands := reads.stands
  cases statement with
  | skipped | documented => trivial
  | imported i => exact stands
  | declared heading => exact fun kept member => (stands kept member).widen leads.reached (.refl _)
  | opened heading opening =>
    exact ⟨fun kept member => (stands.1 kept member).widen leads.reached (.refl _), stands.2⟩

/-- A heading is anchored at its name, or else at the first token of its declaration, whose
references begin behind it. -/
theorem headingOf_stands {kind : SymbolKind} {lead : Lead} {shortName : String} {named : Cursor}
    {references : List Reference} {heading : Heading} (leads : Leads text c named)
    (placed : c.Placed text) (finds : Finds text (passName named) references after)
    (made : headingOf kind lead c.here shortName (nameHere? named) references = some heading) :
    heading.Stands text c.reached after.reached := by
  obtain ⟨name, known, rfl⟩ := Option.map_eq_some_iff.mp made
  unfold nameHere? passName at *
  split at finds
  · next seen =>
    have filled := leads.placed.here_filled seen
    have reached : named.here.span.stop.UpTo after.reached := by
      rw [← Cursor.advance_reached]
      exact finds.leads.reached
    rw [if_pos seen, Option.getD_some]
    refine ⟨leads.placed.here_within, leads.reached.trans leads.placed.reached_here,
      filled.trans_upTo reached, fun reference member => ?_⟩
    exact (finds.stand reference member).widen leads.placed.advance.here (.refl _)
  · next unnamed =>
    rw [if_neg unnamed] at known ⊢
    have stand (reference : Reference) (member : reference ∈ references) :=
      (finds.stand reference member).widen leads.here (.refl _)
    obtain ⟨reference, member⟩ : ∃ reference, reference ∈ references := by
      cases references with
      | nil => cases known
      | cons reference rest => exact ⟨reference, List.mem_cons_self⟩
    have first := stand reference member
    exact ⟨placed.here_within, placed.reached_here,
      (first.low.trans_before first.filled).trans_upTo first.high, stand⟩

theorem finish_reads {heading : Option Heading} (ending : HeaderEnd) (leads : Leads text c after)
    (stands : ∀ kept ∈ heading, kept.Stands text c.reached after.reached) :
    Reads text c (ending.finish heading after) := by
  cases ending with
  | closed => exact ⟨leads, stands⟩
  | opens =>
    refine ⟨leads.advance, fun kept member => ?_, leads.placed.here_within⟩
    exact (stands kept member).widen (.refl _) leads.placed.advance.reached

theorem declaration_reads (kind : SymbolKind) (lead : Lead) (needsName : Bool)
    (leads : Leads text start c) : Reads text start (declaration kind lead needsName c) := by
  have placed := leads.placed
  have short := shortName_leads placed.stay
  have name := passName_leads short.placed.stay
  have finds := header_finds kind name.placed
  have onward := (short.trans name).trans finds.leads
  rw [declaration_eq]
  refine (finish_reads _ (onward.reportIf _ placed.here_within _) fun heading made => ?_).behind leads
  refine (headingOf_stands short placed finds made).widen (.refl _) ?_
  unfold Cursor.reportIf
  split <;> exact .refl _

theorem importStatement_reads (lead : Lead) (leads : Leads text start c) :
    Reads text start (importStatement lead c) := by
  have into : Leads text start (importStart c) := by
    unfold importStart
    split
    · exact leads.advance.advance
    · exact leads.advance
  rw [importStatement_eq]
  split
  · exact .skipped (skipStatement_leads (into.report into.placed.here_within _))
  · next path after found =>
    obtain ⟨passed, taken⟩ := path?_leads into found
    have stars := importStars_leads false false passed.placed.stay
    have conditions : Leads text start (passConditions (importStars false false after).2.2) := by
      unfold passConditions
      split
      · exact skipGroup_leads _ _ (passed.trans stars)
      · exact passed.trans stars
    refine ⟨?_, ?_⟩
    · change Leads text start (importEnd _)
      unfold importEnd
      split
      · exact conditions.advance
      · exact skipStatement_leads (conditions.report conditions.placed.here_within _)
    · have further := taken.trans_upTo stars.reached
      obtain ⟨last, known, ends⟩ := Cursor.last_of_before further
      change Span.Within text ⟨_, _⟩
      rw [known, Option.getD_some, ends]
      exact ⟨into.placed.here_within.start, stars.placed.reached, further.upTo⟩

theorem docStatement_reads (leads : Leads text start c) : Reads text start (docStatement c) := by
  have named : Leads text start (passDocName c.advance) := by
    unfold passDocName
    split
    · exact leads.advance.advance
    · exact leads.advance
  have located : Leads text start (passLocale (passDocName c.advance)) := by
    unfold passLocale
    split
    · split
      · exact named.advance.advance
      · exact named.advance
    · exact named
  rw [docStatement_eq]
  dsimp only
  split
  · exact .skipped (located.report leads.placed.here_within _)
  · exact ⟨located.trans located.placed.passComment, trivial⟩

theorem skipRemark_leads (leads : Leads text start c) : Leads text start (skipRemark c) := by
  fun_induction skipRemark c
  all_goals first
    | exact leads
    | exact leads.trans leads.placed.passComment
    | exact leads.trans leads.placed.drop
    | next ih => exact ih (leads.trans leads.placed.drop)

theorem familyHead?_leads {family : Family} (leads : Leads text start c)
    (found : familyHead? c = some (family, after)) : Leads text start after := by
  unfold familyHead? at found
  split at found
  · split at found
    · cases found
      exact leads.advance.advance
    · obtain ⟨_, _, same⟩ := Option.map_eq_some_iff.mp found
      cases same
      exact leads.advance
  · obtain ⟨_, _, same⟩ := Option.map_eq_some_iff.mp found
    cases same
    exact leads.advance

theorem keywordStatement?_reads {lead : Lead} {read : Statement × Cursor}
    (leads : Leads text start c) (found : keywordStatement? lead c = some read) :
    Reads text start read := by
  unfold keywordStatement? at found
  dsimp only at found
  split at found
  · cases found
    exact importStatement_reads lead leads
  · split at found
    · cases found
      exact docStatement_reads leads
    · split at found
      · cases found
        exact .skipped (skipRemark_leads leads.advance)
      · split at found
        · cases found
          exact declaration_reads _ lead true leads.advance
        · split at found
          · cases found
            exact declaration_reads _ lead true leads.advance
          · split at found
            · next family next head =>
              have into := familyHead?_leads leads head
              split at found
              · cases found
                exact declaration_reads _ lead true into.advance
              · cases found
                exact declaration_reads _ lead false into
            · obtain ⟨kind, _, same⟩ := Option.map_eq_some_iff.mp found
              cases same
              apply declaration_reads
              split
              · exact leads.advance.advance
              · exact leads.advance

theorem plainStatement_reads (lead : Lead) (leads : Leads text start c) :
    Reads text start (plainStatement lead c) := by
  unfold plainStatement
  split
  · exact declaration_reads _ lead false leads
  · split
    · exact declaration_reads _ lead false leads
    · split
      · exact declaration_reads _ lead false leads
      · exact .skipped (skipStatement_leads leads)

/-- A statement leads onward, and what it keeps stands on its way. -/
theorem Statement.read_reads (placed : c.Placed text) : Reads text c (Statement.read c) := by
  have into := leadFrom_leads {} placed.stay
  rw [Statement.read_eq]
  unfold statementFrom
  split
  · exact .skipped into
  · split
    · exact .skipped into.advance
    · split
      · cases found : keywordStatement? (leadFrom {} c).1 (leadFrom {} c).2 with
        | none => exact plainStatement_reads _ into
        | some read => exact keywordStatement?_reads into found
      · exact plainStatement_reads _ into

end Notation

end Sysml
