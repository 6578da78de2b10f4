/-!
# Places in YAML text

The characters that YAML gives a meaning, and a place in a text with its line
and column. The end of the text is seen as a NUL, which no text holds.
-/

set_option autoImplicit false

namespace Sysml.Yaml

inductive Fault where
  /-- The text is no YAML, or asks for what is not known. -/
  | malformed
  /-- A number, date or character that does not exist. -/
  | noSuchValue
  /-- An empty text where a number is asked for. -/
  | emptyNumber
  /-- A word that is no truth value where one is asked for. -/
  | noTruthValue
  /-- A text that is no date where one is asked for. -/
  | noDate
  /-- A number that is too large. -/
  | overflow
  /-- A mapping that has a stand-in where a date is asked for. -/
  | noScalar
  /-- A mapping that stands in for itself where a scalar is asked for. -/
  | endless
  deriving DecidableEq, Repr, Inhabited

def nul : Char :=
  Char.ofNat 0

/-- A character that ends a line. -/
def isBreak (c : Char) : Bool :=
  let n := c.toNat
  n == 0x0a || n == 0x0d || n == 0x85 || n == 0x2028 || n == 0x2029

def isBreakOrEnd (c : Char) : Bool :=
  c == nul || isBreak c

def isSpaceOrEnd (c : Char) : Bool :=
  c == ' ' || isBreakOrEnd c

def isBlankOrEnd (c : Char) : Bool :=
  c == '\t' || isSpaceOrEnd c

def isDigit (c : Char) : Bool :=
  '0' ≤ c && c ≤ '9'

def isHexDigit (c : Char) : Bool :=
  isDigit c || ('a' ≤ c && c ≤ 'f') || ('A' ≤ c && c ≤ 'F')

def isWordChar (c : Char) : Bool :=
  isDigit c || ('a' ≤ c && c ≤ 'z') || ('A' ≤ c && c ≤ 'Z') || c == '-' || c == '_'

def isAllowed (c : Char) : Bool :=
  let n := c.toNat
  n == 0x09 || n == 0x0a || n == 0x0d || (0x20 ≤ n && n ≤ 0x7e) || n == 0x85 ||
    (0xa0 ≤ n && n ≤ 0xd7ff) || (0xe000 ≤ n && n ≤ 0xfffd) || 0x10000 ≤ n

structure Place where
  rest : List Char
  index : Nat := 0
  line : Nat := 0
  column : Nat := 0
  deriving Repr, Inhabited

namespace Place

def peek (p : Place) (ahead : Nat) : Char :=
  (p.rest[ahead]?).getD nul

def here (p : Place) : Char :=
  p.rest.head?.getD nul

def next (p : Place) : Place :=
  match p.rest with
  | [] => p
  | c :: rest =>
      if isBreak c && !(c == '\r' && rest.head? == some '\n') then
        ⟨rest, p.index + 1, p.line + 1, 0⟩
      else ⟨rest, p.index + 1, p.line, if c.toNat = 0xfeff then p.column else p.column + 1⟩

def skip (p : Place) : Nat → Place
  | 0 => p
  | count + 1 => p.next.skip count

def takeWhile (p : Place) (accept : Char → Bool) : List Char × Place :=
  let taken := p.rest.takeWhile accept
  (taken, p.skip taken.length)

def skipWhile (p : Place) (accept : Char → Bool) : Place :=
  (p.takeWhile accept).2

/-- The text of a line end, and the place after it; empty if none is next. A
carriage return, a line feed, both together and a next-line character count as
a line feed. -/
def lineBreak (p : Place) : List Char × Place :=
  if p.here = '\r' && p.peek 1 == '\n' then (['\n'], p.skip 2)
  else if p.here = '\r' || p.here = '\n' || p.here.toNat == 0x85 then (['\n'], p.next)
  else if isBreak p.here then ([p.here], p.next)
  else ([], p)

/-- A document marker is next: three of a character, then a blank. -/
def atMarker (p : Place) (c : Char) : Bool :=
  p.here == c && p.peek 1 == c && p.peek 2 == c && isBlankOrEnd (p.peek 3)

def atAnyMarker (p : Place) : Bool :=
  p.atMarker '-' || p.atMarker '.'

end Place

end Sysml.Yaml
