import Sysml.Yaml.Place

/-!
# YAML pages

A page under way: the text so far with its column, and what was written last.
Scalars are broken into lines where they run past the width of the page.
-/

set_option autoImplicit false

namespace Sysml.Yaml

structure Page where
  /-- The text so far, last character first. -/
  written : List Char := []
  column : Nat := 0
  /-- The last thing written is a blank, a line end or an indicator like one. -/
  atBlank : Bool := true
  /-- The line holds nothing but indentation and entry indicators. -/
  atIndent : Bool := true
  deriving Inhabited

namespace Page

def width : Nat :=
  80

def text (page : Page) : String :=
  String.ofList page.written.reverse

def add (page : Page) (chars : List Char) : Page :=
  { page with written := chars.reverse ++ page.written, column := page.column + chars.length }

def newLine (page : Page) : Page :=
  ⟨'\n' :: page.written, 0, true, true⟩

def newLineWith (page : Page) (lineEnd : Char) : Page :=
  ⟨lineEnd :: page.written, 0, true, true⟩

/-- Goes to an indentation: on the same line if nothing else is on it yet. -/
def indentTo (page : Page) (indent : Nat) : Page :=
  let page :=
    if !page.atIndent || indent < page.column || (page.column == indent && !page.atBlank) then
      page.newLine
    else page
  if page.column < indent then
    { page.add (List.replicate (indent - page.column) ' ') with atBlank := true }
  else page

def indicator (page : Page) (mark : String) (needsBlank : Bool) : Page :=
  let chars := if page.atBlank || !needsBlank then mark.toList else ' ' :: mark.toList
  { page.add chars with atBlank := false, atIndent := false }

/-- Writes the indicator of an entry, after which a block may begin on the same
line. -/
def entryIndicator (page : Page) (mark : String) : Page :=
  { page.indicator mark true with atIndent := page.atIndent }

def inContent (page : Page) : Page :=
  { page with atBlank := false, atIndent := false }

end Page

/-- The parts of a text: runs of spaces, runs of line ends, and the rest. -/
inductive Part where
  | spaces (count : Nat)
  | breaks (lineEnds : List Char)
  | content (chars : List Char)
  deriving DecidableEq, Repr, Inhabited

/-- A character that counts as a line end in a scalar that is written. -/
def endsWrittenLine (c : Char) : Bool :=
  c != '\r' && isBreak c

def Part.cons (c : Char) (parts : List Part) : List Part :=
  if c = ' ' then
    match parts with
    | .spaces count :: rest => .spaces (count + 1) :: rest
    | _ => .spaces 1 :: parts
  else if endsWrittenLine c then
    match parts with
    | .breaks lineEnds :: rest => .breaks (c :: lineEnds) :: rest
    | _ => .breaks [c] :: parts
  else
    match parts with
    | .content chars :: rest => .content (c :: chars) :: rest
    | _ => .content [c] :: parts

def parts (chars : List Char) : List Part :=
  chars.foldr Part.cons []

namespace Page

/-- Writes line ends; a single line feed needs a second one, as it would be read
as a space. -/
def lineEnds (page : Page) (chars : List Char) : Page :=
  let page := if chars.head? = some '\n' then page.newLine else page
  chars.foldl (fun page c => if c = '\n' then page.newLine else page.newLineWith c) page

/-- Writes the parts of a plain scalar. A line is broken at a single space. -/
def plainParts (indent : Nat) (mayBreak : Bool) : Page → List Part → Page
  | page, [] => page
  | page, .spaces count :: rest =>
      let page :=
        if count == 1 && width < page.column && mayBreak then (page.indentTo indent).inContent
        else page.add (List.replicate count ' ')
      plainParts indent mayBreak page rest
  | page, .breaks chars :: rest =>
      plainParts indent mayBreak ((page.lineEnds chars).indentTo indent).inContent rest
  | page, .content chars :: rest => plainParts indent mayBreak (page.add chars) rest

def plain (page : Page) (indent : Nat) (mayBreak : Bool) (text : String) : Page :=
  if text.isEmpty then page
  else
    let page := if page.atBlank then page else page.add [' ']
    plainParts indent mayBreak page.inContent (parts text.toList)

/-- Writes the parts of a scalar between single quotes; a quote inside is doubled.
Neither the first nor the last part is where a line is broken. -/
def singleParts (indent : Nat) (mayBreak : Bool) : Bool → Page → List Part → Page
  | _, page, [] => page
  | isFirst, page, .spaces count :: rest =>
      let page :=
        if count == 1 && width < page.column && mayBreak && !isFirst && !rest.isEmpty then
          page.indentTo indent
        else page.add (List.replicate count ' ')
      singleParts indent mayBreak false page rest
  | _, page, .breaks chars :: rest =>
      singleParts indent mayBreak false ((page.lineEnds chars).indentTo indent) rest
  | _, page, .content chars :: rest =>
      singleParts indent mayBreak false
        (page.add (chars.flatMap fun c => if c = '\'' then ['\'', '\''] else [c])) rest

def single (page : Page) (indent : Nat) (mayBreak : Bool) (text : String) : Page :=
  (singleParts indent mayBreak true (page.indicator "'" true) (parts text.toList)).indicator "'"
    false

/-- A hexadecimal digit in upper case. -/
def hexDigit (n : Nat) : Char :=
  if n < 10 then Char.ofNat (48 + n) else Char.ofNat (55 + n)

/-- The last `width` hexadecimal digits of `n`. -/
def hexDigits : Nat → Nat → List Char
  | 0, _ => []
  | width + 1, n => hexDigits width (n / 16) ++ [hexDigit (n % 16)]

/-- What a character is written as between double quotes, if not as itself. -/
def escape? (c : Char) : Option (List Char) :=
  let n := c.toNat
  let named : List (Nat × Char) :=
    [(0, '0'), (7, 'a'), (8, 'b'), (9, 't'), (10, 'n'), (11, 'v'), (12, 'f'), (13, 'r'), (27, 'e'),
      (0x22, '"'), (0x5c, '\\'), (0x85, 'N'), (0x2028, 'L'), (0x2029, 'P')]
  match named.lookup n with
  | some letter => some ['\\', letter]
  | none =>
      if (0x20 ≤ n && n ≤ 0x7e) || (n != 0xfeff &&
          ((0xa0 ≤ n && n ≤ 0xd7ff) || (0xe000 ≤ n && n ≤ 0xfffd))) then none
      else if n ≤ 0xff then some ('\\' :: 'x' :: hexDigits 2 n)
      else if n ≤ 0xffff then some ('\\' :: 'u' :: hexDigits 4 n)
      else some ('\\' :: 'U' :: hexDigits 8 n)

/-- Breaks the line inside double quotes; a space that comes next has to be
escaped there. -/
def breakDouble (page : Page) (indent : Nat) (next : Option Char) : Page :=
  let page := ((page.add ['\\']).indentTo indent).inContent
  if next = some ' ' then page.add ['\\'] else page

/-- Writes the characters of a scalar between double quotes. `held` are those not
yet written, last first. A line is broken before a space or around an escape,
except at the first and the last character. -/
def doubleChars (indent : Nat) (mayBreak : Bool) : Bool → List Char → Page → List Char → Page
  | _, held, page, [] => page.add held.reverse
  | isFirst, held, page, c :: rest =>
      let mayBreak' := mayBreak && !isFirst && !rest.isEmpty
      match escape? c with
      | some escape =>
          let page := (page.add held.reverse).add escape
          let page :=
            if mayBreak' && width + 1 < page.column then page.breakDouble indent rest.head?
            else page
          doubleChars indent mayBreak false [] page rest
      | none =>
          if mayBreak' && (c == ' ' || held.isEmpty) && width < page.column + held.length then
            let page := (page.add held.reverse).breakDouble indent (some c)
            doubleChars indent mayBreak false [c] page rest
          else doubleChars indent mayBreak false (c :: held) page rest

def double (page : Page) (indent : Nat) (mayBreak : Bool) (text : String) : Page :=
  (doubleChars indent mayBreak true [] (page.indicator "\"" true) text.toList).indicator "\"" false

def block (page : Page) (indent : Nat) (lines : List (List Char)) : Page :=
  lines.foldl (fun page line => ((page.indentTo indent).add line).newLine)
    (page.indicator "|" true).newLine

end Page

end Sysml.Yaml
