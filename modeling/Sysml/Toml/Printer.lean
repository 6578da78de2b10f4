import Sysml.Failure
import Sysml.Value.Text

/-!
# Writing TOML

A table is written as its plain entries, then its arrays of tables, then its
inner tables, each under a header with the names that lead to it. Inner tables
come level by level. Entries that are null are left out.
-/

set_option autoImplicit false

namespace Sysml.Toml

/-- A character that a key may hold without quotes. -/
def isBareKey (c : Char) : Bool :=
  c.isAlphanum || c == '_' || c == '-'

/-- Single quotes without escapes, and double quotes with them. -/
def doubleQuotes : List Char → List Char
  | [] => []
  | '\\' :: '\'' :: rest => '\'' :: doubleQuotes rest
  | '"' :: rest => '\\' :: '"' :: doubleQuotes rest
  | c :: rest => c :: doubleQuotes rest

/-- The pieces of a text between the places where a backslash and an `x` stand;
`piece` holds the characters of the piece under way, last first. -/
def splitCodes (piece : List Char) : List Char → List (List Char)
  | [] => [piece.reverse]
  | '\\' :: 'x' :: rest => piece.reverse :: splitCodes [] rest
  | c :: rest => splitCodes (c :: piece) rest

def halveBackslashes : List Char → List Char
  | [] => []
  | '\\' :: '\\' :: rest => '\\' :: halveBackslashes rest
  | c :: rest => c :: halveBackslashes rest

/-- Puts two pieces together. The backslashes at the end of the first one decide
whether a code in four digits is meant. -/
def joinCode (before after : List Char) : List Char :=
  let before := halveBackslashes before
  let slashes := (before.reverse.takeWhile (· == '\\')).length
  let turns := min slashes (before.length - 1)
  let plain := if slashes = 0 then turns % 2 = 0 else turns % 2 = 1
  before ++ (if plain then ['x'] else "u00".toList) ++ after

/-- Puts all pieces together. An empty piece at the front is dropped; what is
left must be two pieces then. -/
def joinCodes (first : List Char) : List (List Char) → Except Failure (List Char)
  | [] => .ok first
  | second :: rest =>
      if first.isEmpty then
        match rest with
        | [] => .error .notWritable
        | third :: rest => joinCodes (joinCode second third) rest
      else joinCodes (joinCode first second) rest

def quoteText (s : String) : Except Failure String := do
  let shown := (Text.quoted s).toList
  let inner := (shown.drop 1).dropLast
  let inner := if shown.head? = some '\'' then doubleQuotes inner else inner
  match splitCodes [] inner with
  | [] => return "\"\""
  | first :: rest => return "\"" ++ String.ofList (← joinCodes first rest) ++ "\""

/-- A key, in quotes if it needs them; a line end after the last character does
not call for them. -/
def keyText (name : String) : Except Failure String :=
  let text := name.toList
  let plain := if text.getLast? = some '\n' then text.dropLast else text
  if !plain.isEmpty && plain.all isBareKey then .ok name else quoteText name

/-- An exponent without the zero in front. -/
def shortenExponent : List Char → List Char
  | [] => []
  | 'e' :: sign :: '0' :: rest => 'e' :: sign :: rest
  | c :: rest => c :: shortenExponent rest

def bracketed (items : List String) : String :=
  "[" ++ String.join (items.map fun item => " " ++ item ++ ",") ++ "]"

/-- A date, with a `Z` where it is in universal time. -/
def dateText (moment : Moment) : String :=
  if moment.time.bind (·.offset) = some 0 then
    let time := moment.time.map fun time => { time with offset := none }
    Moment.iso "T" { moment with time } ++ "Z"
  else moment.iso "T"

mutual

/-- A value on one line. A table inside an array is written as its keys. -/
def valueText : Value → Except Failure String
  | .null => .ok "\"None\""
  | .bool b => .ok (if b then "true" else "false")
  | .int n => if Decimal.hasText n then .ok (toString n) else .error .longNumber
  | .double bits =>
      .ok (String.ofList (shortenExponent (Decimal.Layout.plain.text bits).toList))
  | .text s => quoteText s
  | .bytes octets => .ok (bracketed (octets.map fun octet => toString octet.toNat))
  | .date moment => .ok (dateText moment)
  | .time clock => .ok (Moment.clockText clock)
  | .list items => bracketed <$> itemTexts items
  | .map entries => bracketed <$> keyTexts entries
  | .set members => bracketed <$> itemTexts members
  | .pair first second => do return bracketed [← valueText first, ← valueText second]
  | .shared _ held => valueText held
  | .again _ => .error .unbounded

def itemTexts : List Value → Except Failure (List String)
  | [] => .ok []
  | item :: rest => do return (← valueText item) :: (← itemTexts rest)

def keyTexts : List (Value × Value) → Except Failure (List String)
  | [] => .ok []
  | (key, _) :: rest => do return (← valueText key) :: (← keyTexts rest)

end

mutual

def depth : Value → Nat
  | .list items => depthOfItems items + 1
  | .map entries => depthOfEntries entries + 1
  | _ => 1

def depthOfItems : List Value → Nat
  | [] => 0
  | item :: rest => max (depth item) (depthOfItems rest)

def depthOfEntries : List (Value × Value) → Nat
  | [] => 0
  | (_, held) :: rest => max (depth held) (depthOfEntries rest)

end

def isTable : Value → Bool
  | .map _ => true
  | _ => false

/-- What a table is written as: its own entries, its arrays of tables, and its
inner tables by their keys. -/
structure Section where
  lines : String := ""
  arrays : String := ""
  inner : List (String × Value) := []
  deriving Inhabited

/-- The text of a section without its inner tables. -/
def Section.text (s : Section) : String :=
  s.lines ++ s.arrays

abbrev Writer := String → Value → Except Failure Section

/-- The tables inside of some tables, by the keys that lead to them. -/
def deeper (key : String) (s : Section) : List (String × Value) :=
  s.inner.map fun entry => (key ++ "." ++ entry.1, entry.2)

def itemTables (write : Writer) (above : String) :
    Nat → List (String × Value) → Except Failure String
  | 0, _ => .ok ""
  | levels + 1, tables => do
      let sections ← tables.mapM fun (key, table) => do
        return (key, ← write (above ++ "." ++ key) table)
      let shown := sections.map fun (key, s) =>
        if s.text.isEmpty then "" else "[" ++ above ++ "." ++ key ++ "]\n" ++ s.text
      let next := sections.flatMap fun (key, s) => deeper key s
      if next.isEmpty then return String.join shown
      else return String.join shown ++ (← itemTables write above levels next)

def arrayItem (write : Writer) (levels : Nat) (above : String) (item : Value) :
    Except Failure String := do
  let s ← write above item
  let tables ← itemTables write above levels s.inner
  let own := if s.text.startsWith "[" then "\n" ++ s.text else s.text ++ "\n"
  return "[[" ++ above ++ "]]\n" ++ own ++ tables

def addEntry (write : Writer) (levels : Nat) (above : String) (s : Section)
    (entry : Value × Value) : Except Failure Section := do
  match entry with
  | (.text name, held) =>
      let key ← keyText name
      match held with
      | .map _ => return { s with inner := Entries.put key held s.inner }
      | .null => return s
      | .list items =>
          if items.any isTable then
            let shown ← items.mapM (arrayItem write levels (above ++ key))
            return { s with arrays := s.arrays ++ String.join shown }
          else return { s with lines := s.lines ++ key ++ " = " ++ (← valueText held) ++ "\n" }
      | _ => return { s with lines := s.lines ++ key ++ " = " ++ (← valueText held) ++ "\n" }
  | _ => throw .noEntry

/-- The section of a value that is no table. What is empty can stand for a table.
Otherwise it seems to hold names, the first of which is looked at: the characters
of a text, or the items of an array. -/
def sectionOfOther (value : Value) : Except Failure Section :=
  let first : Option Value :=
    match value with
    | .text s => s.toList.head?.map fun c => .text (String.singleton c)
    | .list items => items.head?
    | _ => none
  match first with
  | none => .ok {}
  | some name => do
      if !name.isWritable then throw .longNumber
      let _ ← keyText name.display
      throw .wrongKind

/-- The section of a table that some names lead to. `fuel` bounds how deep arrays
of tables are nested. -/
def sectionOf (levels : Nat) : Nat → Writer
  | 0, _, _ => .error .unbounded
  | fuel + 1, above, value =>
      let above := if above.isEmpty || above.endsWith "." then above else above ++ "."
      match value with
      | .map entries => entries.foldlM (addEntry (sectionOf levels fuel) levels above) {}
      | .text _ | .list _ => sectionOfOther value
      | _ => .error .wrongKind

/-- Adds a table of the document to the text before it, after an empty line. A
table that holds nothing but tables has no header. -/
def addTable (text key : String) (s : Section) : String :=
  if s.text.isEmpty && !s.inner.isEmpty then text
  else
    let gap := if text.isEmpty || text.endsWith "\n\n" then "" else "\n"
    text ++ gap ++ "[" ++ key ++ "]\n" ++ s.text

def addTables (write : Writer) : Nat → String → List (String × Value) → Except Failure String
  | 0, text, _ => .ok text
  | levels + 1, text, tables => do
      if tables.isEmpty then return text
      let sections ← tables.mapM fun (key, table) => do return (key, ← write key table)
      let text := sections.foldl (fun text (key, s) => addTable text key s) text
      addTables write levels text (sections.flatMap fun (key, s) => deeper key s)

def render (value : Value) : Except Failure String := do
  let levels := depth value + 1
  let s ← sectionOf levels levels "" value
  addTables (sectionOf levels levels) levels s.text s.inner

end Sysml.Toml
