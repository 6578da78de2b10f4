import Sysml.Decimal.Layout
import Sysml.Text.Base64
import Sysml.Value.Text
import Sysml.Yaml.Anchor
import Sysml.Yaml.Page
import Sysml.Yaml.Tag

/-!
# Writing YAML

Values as YAML text in block style. A scalar is written plain where it reads
back as what it is, else between quotes; sequences inside mappings are not
indented further. What stands in several places is written once.
-/

set_option autoImplicit false

namespace Sysml.Yaml

/-- Doubles as YAML spells them: an exponent follows a point. -/
def layout : Decimal.Layout :=
  ⟨".0", ".inf", "-.inf", ".nan"⟩

/-- A scalar with the tag it has to read back with. -/
structure Lexeme where
  tag : Tag
  text : String
  deriving Inhabited

inductive Style where
  | plain
  | single
  | double
  | block
  deriving DecidableEq, Repr, Inhabited

namespace Lexeme

/-- The scalar of a value; containers, a time of day and what has a label have
none. -/
def ofValue? : Value → Option Lexeme
  | .null => some ⟨.null, "null"⟩
  | .bool b => some ⟨.bool, if b then "true" else "false"⟩
  | .int n => some ⟨.int, toString n⟩
  | .double bits => some ⟨.float, layout.text bits⟩
  | .text s => some ⟨.text, s⟩
  | .bytes octets => some ⟨.bytes, Text.Base64.encodeLines octets⟩
  | .date moment => some ⟨.timestamp, moment.iso " "⟩
  | .time _ | .list _ | .map _ | .set _ | .pair _ _ | .shared _ _ | .again _ => none

def isMultiline (lexeme : Lexeme) : Bool :=
  lexeme.text.toList.any endsWrittenLine

/-- A character that is written as it is outside of double quotes. -/
def isShown (c : Char) : Bool :=
  let n := c.toNat
  n == 0x0a || (0x20 ≤ n && n ≤ 0x7e) || n == 0x85 || (0xa0 ≤ n && n ≤ 0xd7ff) ||
    (0xe000 ≤ n && n ≤ 0xfffd && n != 0xfeff) || (0x10000 ≤ n && n < 0x10ffff)

/-- Every character can be written as it is, and no line end follows a space. -/
def isPresentable (chars : List Char) : Bool :=
  chars.all isShown &&
    !(chars.zip chars.tail).any fun (c, next) => c == ' ' && endsWrittenLine next

def hasIndentedLine (chars : List Char) : Bool :=
  (chars.zip chars.tail).any fun (c, next) => endsWrittenLine c && next == ' '

def isEdgeBlank (c : Char) : Bool :=
  c == ' ' || endsWrittenLine c

/-- An indicator after the first character: a colon before a blank, or a number
sign after one. `before` is the character in front. -/
def hasInnerIndicator (before : Char) : List Char → Bool
  | [] => false
  | c :: rest =>
      (c == ':' && isBlankOrEnd (rest.head?.getD nul)) || (c == '#' && isBlankOrEnd before) ||
        hasInnerIndicator c rest

/-- The text has characters that mean something to a reader of plain scalars. -/
def hasIndicator : List Char → Bool
  | [] => false
  | c :: rest =>
      "#,[]\x7b\x7d&*!|>'\"%@\x60".toList.contains c ||
        (isBlankOrEnd (rest.head?.getD nul) && (c == '?' || c == ':' || c == '-')) ||
        (c :: rest).take 3 == ['-', '-', '-'] || (c :: rest).take 3 == ['.', '.', '.'] ||
        hasInnerIndicator c rest

def allowsPlain (lexeme : Lexeme) : Bool :=
  let chars := lexeme.text.toList
  Tag.ofForm chars == lexeme.tag && !lexeme.isMultiline && isPresentable chars &&
    !chars.head?.any isEdgeBlank && !chars.getLast?.any isEdgeBlank && !hasIndicator chars

def allowsSingle (lexeme : Lexeme) : Bool :=
  let chars := lexeme.text.toList
  isPresentable chars && !hasIndentedLine chars

/-- How the scalar is written; a key stays on its line, and bytes are a block
unless there are none. -/
def style (lexeme : Lexeme) (isKey : Bool) : Style :=
  if lexeme.tag == .bytes then
    if lexeme.text.isEmpty || isKey then .double else .block
  else if lexeme.allowsPlain && !(isKey && lexeme.text.isEmpty) then .plain
  else if lexeme.allowsSingle && !(isKey && lexeme.isMultiline) then .single
  else .double

def keyLimit : Nat :=
  128

def isSimpleKey (lexeme : Lexeme) : Bool :=
  lexeme.tag.shorthand.length + lexeme.text.length < keyLimit && !lexeme.text.isEmpty &&
    !lexeme.isMultiline

/-- Writes the scalar. Unless its form or its quotes tell what it is, its tag
stands before it. -/
def write (lexeme : Lexeme) (isKey : Bool) (indent : Nat) (page : Page) : Page :=
  let style := lexeme.style isKey
  let page :=
    if style == .plain || lexeme.tag == .text then page
    else page.indicator lexeme.tag.shorthand true
  match style with
  | .plain => page.plain indent (!isKey) lexeme.text
  | .single => page.single indent (!isKey) lexeme.text
  | .double => page.double indent (!isKey) lexeme.text
  | .block =>
      page.block indent ((lexeme.text.toList.splitOn '\n').filter fun line => !line.isEmpty)

end Lexeme

/-- A page of values, with the labels of those that are on it. -/
structure Sheet where
  page : Page := {}
  placed : List Nat := []
  deriving Inhabited

namespace Sheet

def onPage (change : Page → Page) (sheet : Sheet) : Sheet :=
  { sheet with page := change sheet.page }

def reference (anchors : Anchors) (mark : String) (label : Nat) (sheet : Sheet) : Sheet :=
  match anchors.name? label with
  | some name => sheet.onPage fun page => page.indicator (mark ++ name) true
  | none => sheet

/-- Begins a value with a label: its anchor is written, if it has one. -/
def place (anchors : Anchors) (label : Nat) (sheet : Sheet) : Sheet :=
  { (sheet.reference anchors "&" label) with placed := label :: sheet.placed }

def writeAlias (anchors : Anchors) (label : Nat) (sheet : Sheet) : Sheet :=
  sheet.reference anchors "*" label

/-- Writes a key that stands on one line, unless it is none: a scalar that is not
too long, or an alias. -/
def simpleKey? (anchors : Anchors) (indent : Nat) (sheet : Sheet) : Value → Option Sheet
  | .shared label held =>
      if sheet.placed.contains label then some (sheet.writeAlias anchors label)
      else simpleKey? anchors indent (sheet.place anchors label) held
  | held =>
      ((Lexeme.ofValue? held).filter (·.isSimpleKey)).map fun lexeme =>
        sheet.onPage fun page => lexeme.write true indent page

/-- Writes a key and its colon. `asValue` writes the key like a value: so it is
written, after a question mark, if it does not fit on one line. -/
def key (anchors : Anchors) (indent : Nat) (sheet : Sheet) (held : Value)
    (asValue : Sheet → Sheet) : Sheet :=
  let sheet := sheet.onPage fun page => page.indentTo indent
  match sheet.simpleKey? anchors (indent + 2) held with
  | some sheet => sheet.onPage fun page => page.indicator ":" false
  | none =>
      (asValue (sheet.onPage fun page => page.entryIndicator "?")).onPage fun page =>
        (page.indentTo indent).entryIndicator ":"

/-- Begins an item of a sequence. -/
def dash (indent : Nat) (sheet : Sheet) : Sheet :=
  sheet.onPage fun page => (page.indentTo indent).entryIndicator "-"

/-- The indentation of a sequence inside a collection: as a mapping's value it
stands below its key. -/
def sequenceIndent (indent : Nat) (inMapping : Bool) (sheet : Sheet) : Nat :=
  if inMapping && !sheet.page.atIndent then indent else indent + 2

mutual

/-- Writes a value inside a collection whose entries stand at `indent`. -/
def value (anchors : Anchors) (indent : Nat) (inMapping : Bool) (sheet : Sheet) : Value → Sheet
  | .list held =>
      if held.isEmpty then sheet.onPage fun page => page.indicator "[]" true
      else items anchors (sequenceIndent indent inMapping sheet) sheet held
  | .pair first second =>
      let indent := sequenceIndent indent inMapping sheet
      let sheet := value anchors indent false (dash indent sheet) first
      value anchors indent false (dash indent sheet) second
  | .map held =>
      if held.isEmpty then sheet.onPage fun page => page.indicator "\x7b\x7d" true
      else entries anchors (indent + 2) sheet held
  | .set held =>
      let sheet := sheet.onPage fun page => page.indicator Tag.set.shorthand true
      if held.isEmpty then sheet.onPage fun page => page.indicator "\x7b\x7d" true
      else members anchors (indent + 2) sheet held
  | .shared label held =>
      if sheet.placed.contains label then sheet.writeAlias anchors label
      else value anchors indent inMapping (sheet.place anchors label) held
  | .again label => sheet.writeAlias anchors label
  | scalar =>
      match Lexeme.ofValue? scalar with
      | some lexeme => sheet.onPage fun page => lexeme.write false (indent + 2) page
      | none => sheet

def items (anchors : Anchors) (indent : Nat) (sheet : Sheet) : List Value → Sheet
  | [] => sheet
  | item :: rest => items anchors indent (value anchors indent false (dash indent sheet) item) rest

def entries (anchors : Anchors) (indent : Nat) (sheet : Sheet) : List (Value × Value) → Sheet
  | [] => sheet
  | (held, content) :: rest =>
      let sheet := key anchors indent sheet held fun sheet => value anchors indent true sheet held
      entries anchors indent (value anchors indent true sheet content) rest

/-- Writes the members of a set: keys without values. -/
def members (anchors : Anchors) (indent : Nat) (sheet : Sheet) : List Value → Sheet
  | [] => sheet
  | member :: rest =>
      let sheet := key anchors indent sheet member fun sheet =>
        value anchors indent true sheet member
      let sheet := sheet.onPage fun page => Lexeme.write ⟨.null, "null"⟩ false (indent + 2) page
      members anchors indent sheet rest

end

end Sheet

def render (value : Value) : String :=
  let anchors := Anchors.ofValue value
  let sheet : Sheet :=
    match value with
    | .list (item :: rest) => Sheet.items anchors 0 {} (item :: rest)
    | .map (entry :: rest) => Sheet.entries anchors 0 {} (entry :: rest)
    | value => Sheet.value anchors 0 false {} value
  (sheet.page.indentTo 0).text

end Sysml.Yaml
