/-!
# Positions and spans

Places in a text, counted from zero: the number of line feeds before, and the
number of characters since the last of them.
-/

set_option autoImplicit false

namespace Sysml

/-- A place between two characters of a text. -/
structure Position where
  line : Nat := 0
  column : Nat := 0
  deriving DecidableEq, Repr, Inhabited

namespace Position

/-- The place after a character that stands at `p`. -/
def next (p : Position) (c : Char) : Position :=
  if c = '\n' then ⟨p.line + 1, 0⟩ else ⟨p.line, p.column + 1⟩

/-- The place after a text that stands at `p`. -/
def after (p : Position) (text : List Char) : Position :=
  text.foldl next p

theorem after_append (p : Position) (left right : List Char) :
    p.after (left ++ right) = (p.after left).after right := by
  simp [after, List.foldl_append]

end Position

/-- The range of a text from `start` up to `stop`. -/
structure Span where
  start : Position := {}
  stop : Position := {}
  deriving DecidableEq, Repr, Inhabited

end Sysml
