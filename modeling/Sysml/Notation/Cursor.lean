import Sysml.Diagnostic
import Sysml.Notation.Token

/-!
# Cursors

A place between the tokens of a text. Comments are no tokens of their own here:
each token carries the comments that stand before it, which only documentation
looks at. Main statement: moving on over a token that is there brings the end
nearer (`advance_length_of_sees`).
-/

set_option autoImplicit false

namespace Sysml.Notation

/-- A token with the comments before it. -/
structure Word where
  comments : List Token
  token : Token
  deriving DecidableEq, Repr, Inhabited

/-- The tokens with the comments before each; `pending` holds the comments
before the first. The comments after the last token come beside. -/
def attachComments (pending : List Token) : List Token → List Word × List Token
  | [] => ([], pending)
  | token :: rest =>
      if token.kind = .comment then attachComments (pending ++ [token]) rest
      else
        let (words, trailing) := attachComments [] rest
        (⟨pending, token⟩ :: words, trailing)

structure Fault where
  problem : SyntaxProblem
  span : Span
  deriving DecidableEq, Repr, Inhabited

structure Cursor where
  /-- The tokens that are still ahead. -/
  ahead : List Word
  /-- The mark of the text's end, with the comments before it. -/
  stop : Word
  /-- The token passed last. -/
  last : Option Token
  /-- The faults met so far, latest first. -/
  faults : List Fault
  deriving DecidableEq, Repr, Inhabited

namespace Cursor

def atEnd (c : Cursor) : Bool :=
  c.ahead.isEmpty

/-- The next token; at the end, the mark of the end. -/
def here (c : Cursor) : Token :=
  match c.ahead with
  | [] => c.stop.token
  | word :: _ => word.token

/-- The next token is there and satisfies `p`. -/
def sees (p : Token → Bool) (c : Cursor) : Bool :=
  match c.ahead with
  | [] => false
  | word :: _ => p word.token

/-- The token after the next is there and satisfies `p`. -/
def seesNext (p : Token → Bool) (c : Cursor) : Bool :=
  match c.ahead with
  | _ :: word :: _ => p word.token
  | _ => false

/-- The place after the next token; the end is never passed. -/
def advance (c : Cursor) : Cursor :=
  match c.ahead with
  | [] => { c with last := some c.stop.token }
  | word :: rest => { c with ahead := rest, last := some word.token }

def comment? (c : Cursor) : Option Token :=
  match c.ahead with
  | [] => c.stop.comments.head?
  | word :: _ => word.comments.head?

def passComment (c : Cursor) : Cursor :=
  match c.ahead with
  | [] => { c with stop := { c.stop with comments := c.stop.comments.tail } }
  | word :: rest => { c with ahead := { word with comments := word.comments.tail } :: rest }

def report (c : Cursor) (span : Span) (problem : SyntaxProblem) : Cursor :=
  { c with faults := ⟨problem, span⟩ :: c.faults }

def reportIf (c : Cursor) (wrong : Bool) (span : Span) (problem : SyntaxProblem) : Cursor :=
  if wrong then c.report span problem else c

def length (c : Cursor) : Nat :=
  c.ahead.length

@[simp] theorem report_length (c : Cursor) (span : Span) (problem : SyntaxProblem) :
    (c.report span problem).length = c.length := rfl

@[simp] theorem reportIf_length (c : Cursor) (wrong : Bool) (span : Span)
    (problem : SyntaxProblem) : (c.reportIf wrong span problem).length = c.length := by
  unfold reportIf
  split <;> rfl

@[simp] theorem reportIf_sees (p : Token → Bool) (c : Cursor) (wrong : Bool) (span : Span)
    (problem : SyntaxProblem) : (c.reportIf wrong span problem).sees p = c.sees p := by
  unfold reportIf
  split <;> rfl

@[simp] theorem passComment_length (c : Cursor) : c.passComment.length = c.length := by
  unfold passComment length
  split <;> simp_all

theorem advance_length (c : Cursor) : c.advance.length = c.length - 1 := by
  unfold advance length
  split <;> simp_all

theorem advance_length_le (c : Cursor) : c.advance.length ≤ c.length := by
  rw [advance_length]; omega

theorem length_pos_of_sees {p : Token → Bool} {c : Cursor} (seen : c.sees p = true) :
    0 < c.length := by
  unfold sees at seen
  unfold length
  split at seen <;> simp_all

theorem length_pos_of_not_atEnd {c : Cursor} (more : ¬ c.atEnd = true) : 0 < c.length := by
  unfold atEnd at more
  unfold length
  simpa [List.length_pos_iff] using more

/-- Moving on over a token that is there brings the end nearer. -/
theorem advance_length_of_sees {p : Token → Bool} {c : Cursor} (seen : c.sees p = true) :
    c.advance.length < c.length := by
  have := length_pos_of_sees seen
  rw [advance_length]; omega

theorem advance_length_of_not_atEnd {c : Cursor} (more : ¬ c.atEnd = true) :
    c.advance.length < c.length := by
  have := length_pos_of_not_atEnd more
  rw [advance_length]; omega

end Cursor

def Scan.faults (s : Scan) : List Fault :=
  s.found.filterMap fun
    | .token _ => none
    | .stray c span => some ⟨.strayCharacter c, span⟩
    | .openComment span => some ⟨.openComment, span⟩

/-- The place before the first token of a scan. -/
def Scan.cursor (s : Scan) : Cursor :=
  let (words, trailing) := attachComments [] s.tokens
  ⟨words, ⟨trailing, s.stop⟩, none, s.faults.reverse⟩

end Sysml.Notation
