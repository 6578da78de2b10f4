import Sysml.Entries
import Sysml.Toml.Scalar

/-!
# Reading TOML

Tables of keys and values. Each line of a document opens a table, adds an entry
to the table that is open, or goes on with a long string. A table may be opened
once; the tables on the way to it come into being by themselves. The items of an
array have one type.
-/

set_option autoImplicit false

namespace Sysml.Toml

abbrev Table := List (Value × Value)

def isQuote (c : Char) : Bool :=
  c == '"' || c == '\''

/-- The text without its first and last character. -/
def inner (text : List Char) : List Char :=
  (text.drop 1).dropLast

/-! ## Lines with quotes -/

/-- Goes on with pieces that single quotes delimit while a piece is open: up to a
double quote that stands outside of them. -/
def openPieces (singles : List (List Char)) :
    List (List Char) → List (List Char) × List (List Char)
  | [] => (singles, [])
  | piece :: rest =>
      if singles.length % 2 = 0 then
        openPieces (singles.dropLast ++ pieces "'" (singles.getLast?.getD [] ++ '"' :: piece)) rest
      else (singles, piece :: rest)

/-- The parts of a line between quotes; every second one is inside of quotes. -/
def quoteParts (line : List Char) : List (List Char) :=
  match pieces "\"" line with
  | [] => []
  | [piece] => pieces "'" piece
  | piece :: rest =>
      if piece.contains '\'' then
        match openPieces (pieces "'" piece) rest with
        | (singles, []) => singles
        | (singles, next :: others) => singles ++ pieces "'" next ++ others
      else pieces "'" piece ++ rest

/-- How many marks stand before the first one that is outside of quotes. -/
def quotedMarks (mark : String) (quoted : Bool) : List (List Char) → Nat
  | [] => 0
  | part :: rest =>
      if !quoted && has mark part then 0
      else (pieces mark part).length - 1 + quotedMarks mark (!quoted) rest

def cutAt? (mark : String) (place : Nat) (text : List Char) : Option (List Char × List Char) :=
  let found := pieces mark text
  if found.length < place + 2 then none
  else
    some (mark.toList.intercalate (found.take (place + 1)),
      mark.toList.intercalate (found.drop (place + 1)))

/-- The text before and after an equals sign, counted from zero, or after the last
one. -/
def equation (place : Nat) (line : List Char) : List Char × List Char :=
  let last := (pieces "=" line).length - 2
  (cutAt? "=" (min place last) line).getD ([], line)

/-! ## Keys -/

/-- The names of a key: those that lead to a table, and the last one. -/
def keyNames (key : List Char) : Except Fault (List String × String) :=
  if key.contains '.' then
    let levels :=
      if key.any isQuote then
        (quoteParts key).mapIdx fun i part =>
          if i % 2 = 1 then [part] else (pieces "." part).map Text.trim
      else [pieces "." key]
    match levels.flatten.reverse.dropWhile (·.isEmpty) with
    | [] => .error .cut
    | last :: above =>
        .ok (((above.reverse.filter (!·.isEmpty)).map String.ofList),
          String.ofList (Text.trim last))
  else
    match key.head?, key.getLast? with
    | some first, some last =>
        .ok ([], String.ofList (if isQuote first && first == last then inner key else key))
    | _, _ => .error .cut

/-- A value that may follow an equals sign: after a blank anything may. -/
def follows (value : List Char) : Bool :=
  value.head?.all (fun c => " \t'\"[\x7b".toList.contains c) ||
    ["true", "false"].contains (String.ofList (Text.trim value)) ||
    isNumber value || (moment? value).isSome || (clockAt? value).isSome

/-- The key and the value of a line, and whether its number is strict. Where no
value may follow an equals sign the key goes on to the next one. -/
def keyAndValue (line : List Char) :
    Nat → Nat → List Char → Bool → Except Fault (List Char × List Char × Bool)
  | 0, _, _, _ => .error .malformed
  | fuel + 1, place, value, strict =>
      if follows value then .ok (Text.trim (equation place line).1, Text.trim value, strict)
      else
        let next := (equation (place + 1) line).2
        if next = value then .error .malformed
        else keyAndValue line fuel (place + 1) next (strict && isStrict next)

def splitLine (line : List Char) : Except Fault (List Char × List Char × Bool) :=
  let place := quotedMarks "=" false (quoteParts line)
  let value := (equation place line).2
  let plain := if value.head?.any Char.isDigit then value.filter (· != '_') else value
  keyAndValue line (line.length + 2) place plain (isStrict value)

/-! ## Long strings -/

/-- An array whose first item is a string. -/
def isTextArray (value : List Char) : Bool :=
  (Text.trim (inner value)).head?.any isQuote

/-- The last string among the pieces of an array, which are given last first. -/
def lastText : List (List Char) → Except Fault (List Char)
  | [] => .ok []
  | [piece] => .ok piece
  | last :: before :: rest =>
      match last with
      | [] => .error .cut
      | c :: _ =>
          if isQuote c then .ok last else lastText ((before ++ ',' :: last) :: rest)
termination_by texts => texts.length

/-- A value that begins a long string and does not end it. -/
def opensLong (value : List Char) : Except Fault Bool := do
  if value.length < 3 then return false
  let text ←
    if value.head? = some '[' && value.getLast? != some ']' && isTextArray value then
      lastText (pieces "," (Text.trim (value.drop 1))).reverse
    else pure value
  match text with
  | a :: rest =>
      if !isQuote a then return false
      match rest with
      | [] => throw .cut
      | b :: rest =>
          if b ≠ a then return false
          match rest with
          | [] => throw .cut
          | c :: _ =>
              return c == a && !(5 < text.length && text.reverse.take 3 == [a, a, a])
  | [] => throw .cut

/-- A long string that goes on on the next line. -/
structure OpenText where
  name : String
  text : List Char
  /-- Its last line ends in a backslash, which joins the next one to it. -/
  joins : Bool
  deriving Inhabited

def OpenText.ofLines (name : String) (text : List Char) : OpenText :=
  if endsEscaped text then ⟨name, text.dropLast, true⟩ else ⟨name, text ++ ['\n'], false⟩

/-! ## Arrays and inline tables -/

/-- The strings of an array are whole again where commas inside of them cut them
apart. -/
def isWholeText (text : List Char) : Bool :=
  match text with
  | [] => true
  | first :: _ =>
      text.getLast? = some first && !endsEscaped (inner text) &&
        !(2 < text.length && text.take 3 == [first, first, first] &&
          !((text.reverse.drop 1).take 2).contains first)

def joinText (text : List Char) :
    List (List Char) → Except Fault (List Char × List (List Char))
  | [] => if isWholeText (Text.trim text) then .ok (text, []) else .error .cut
  | next :: rest =>
      if isWholeText (Text.trim text) then .ok (text, next :: rest)
      else joinText (text ++ ',' :: next) rest

/-- The items of an array of strings; the last piece stands for itself. -/
def joinTexts : Nat → List (List Char) → Except Fault (List (List Char))
  | 0, parts => .ok parts
  | fuel + 1, parts =>
      match parts with
      | text :: next :: rest => do
          let (text, rest) ← joinText text (next :: rest)
          return text :: (← joinTexts fuel rest)
      | parts => .ok parts

def bracketParts (depth : Int) (part : List Char) : List Char → List (List Char)
  | [] => [part.reverse]
  | c :: rest =>
      if c = '[' then bracketParts (depth + 1) (c :: part) rest
      else if c = ']' then bracketParts (depth - 1) (c :: part) rest
      else if c = ',' && depth = 0 then part.reverse :: bracketParts depth [] rest
      else bracketParts depth (c :: part) rest

/-- The inline tables of an array. `part` holds the characters of the table under
way, last first, and `depth` counts its open braces. -/
def tableParts : Nat → Bool → Nat → List Char → List Char → List (List Char)
  | 0, _, _, _, _ => []
  | _, _, _, _, [] => []
  | fuel + 1, inText, depth, part, c :: rest =>
      let inText :=
        if isQuote c then !inText || Layout.isEscaped part else inText
      let depth := if !inText && c = '\x7b' then depth + 1 else depth
      if inText || c ≠ '\x7d' then tableParts fuel inText depth (c :: part) rest
      else if 1 < depth then tableParts fuel inText (depth - 1) (c :: part) rest
      else
        (c :: part).reverse ::
          match (rest.drop 1).dropWhile (· != '\x7b') with
          | [] => []
          | brace :: rest => tableParts fuel inText depth [brace] rest

def arrayParts (array : List Char) : Except Fault (List (List Char)) :=
  let items := inner array
  let front := items.takeWhile (· != '[')
  if items.contains '[' && (Text.trim front).isEmpty then .ok (bracketParts 0 [] items)
  else
    let parts :=
      if (Text.trim items).head? = some '\x7b' then
        tableParts array.length false (if items.head? = some '\x7b' then 1 else 0) (items.take 1)
          (items.drop 1)
      else pieces "," items
    if isTextArray array then joinTexts parts.length parts else .ok parts

/-- A value that is whole by its first and last characters. -/
def isWholeValue (value : List Char) : Bool :=
  match value.head?, value.getLast? with
  | some first, some last =>
      (isQuote first && first == last) || first == '-' || first.isDigit ||
        value == "true".toList || value == "false".toList || (first == '[' && last == ']') ||
        (first == '\x7b' && last == '\x7d')
  | _, _ => false

/-- The fields of an inline table: commas part them where the value before the
comma is whole. -/
def fieldTexts : List (List Char) → Except Fault (List (List Char))
  | [] => .ok []
  | text :: rest =>
      match cutAt? "=" 0 text with
      | none => .error .malformed
      | some (_, value) =>
          let value := Text.trim value
          if value.isEmpty then .error .cut
          else if isWholeValue value then (text :: ·) <$> fieldTexts rest
          else
            match rest with
            | next :: others => fieldTexts ((text ++ ',' :: next) :: others)
            | [] => .error .malformed
termination_by texts => texts.length

def inlineFields (table : List Char) : Except Fault (List (List Char)) :=
  match pieces "," (inner table) with
  | [text] => if (Text.trim text).isEmpty then .ok [] else fieldTexts [text]
  | texts => fieldTexts texts

def typeName : Value → Nat
  | .text _ => 0
  | .bool _ => 1
  | .int _ => 2
  | .double _ => 3
  | .date _ => 4
  | .time _ => 5
  | .list _ => 6
  | _ => 7

def haveOneType : List Value → Bool
  | first :: rest => rest.all fun value => typeName value == typeName first
  | [] => true

/-- Changes what some names lead to; the tables on the way come into being. -/
def within {α : Type} (change : Value → Except Fault (Value × α)) :
    List String → Value → Except Fault (Value × α)
  | [], level => change level
  | name :: rest, .map entries => do
      let (held, result) ← within change rest ((entries.lookup (.text name)).getD (.map []))
      return (.map (Entries.put (.text name) held entries), result)
  | _, _ => .error .noTable

/-- Adds an entry to a table that has none of that name. -/
def insert (name : String) (value : Value) (level : Value) : Except Fault Value :=
  match level with
  | .map entries =>
      if (entries.lookup (.text name)).isSome then .error .malformed
      else .ok (.map (entries ++ [(.text name, value)]))
  | _ => .error .malformed

mutual

def value : Nat → Bool → List Char → Except Fault Value
  | 0, _, _ => .error .malformed
  | fuel + 1, strict, text =>
      if text = "true".toList then .ok (.bool true)
      else if text = "false".toList then .ok (.bool false)
      else
        match text with
        | [] => .error .malformed
        | c :: _ =>
            if isQuote c then .text <$> string c text
            else if c = '[' then do
              let parts ← arrayParts (Text.trim text)
              let items ← itemValues fuel ((parts.map Text.trim).filter (!·.isEmpty)) []
              return .list items
            else if c = '\x7b' then do
              fields fuel (.map []) (← inlineFields text)
            else word strict text

def itemValues : Nat → List (List Char) → List Value → Except Fault (List Value)
  | 0, _, _ => .error .malformed
  | _, [], read => .ok read
  | fuel + 1, text :: rest, read => do
      let item ← value fuel true text
      if !haveOneType (read ++ [item]) then throw .malformed
      itemValues fuel rest (read ++ [item])

/-- Adds fields to a table, up to one that opens a long string. -/
def fields : Nat → Value → List (List Char) → Except Fault Value
  | 0, _, _ => .error .malformed
  | _, level, [] => .ok level
  | fuel + 1, level, text :: rest => do
      match ← entry fuel text level with
      | (level, none) => fields fuel level rest
      | (level, some _) => return level

/-- Adds the entry of a line to a table, or tells of the long string that the line
opens. -/
def entry : Nat → List Char → Value → Except Fault (Value × Option OpenText)
  | 0, _, _ => .error .malformed
  | fuel + 1, line, level => do
      let (key, text, strict) ← splitLine line
      let (above, name) ← keyNames key
      within (fun level => do
        if ← opensLong text then
          let _ ← insert name .null level
          if name.isEmpty then throw .unnamed
          return (level, some (.ofLines name text))
        else
          let held ← value fuel strict text
          return (← insert name held level, none)) above level

end

/-! ## Headers -/

/-- The least number of pieces from the front, at least `count`, that make a name
in quotes together, with the name. -/
def quotedName (groups : List (List Char)) : Nat → Nat → Except Fault (String × Nat)
  | 0, _ => .error .malformed
  | tries + 1, count =>
      let name := Text.trim ([ '.' ].intercalate (groups.take count))
      if 1 < name.length && name.head? == name.getLast? then
        .ok (String.ofList (inner name), count)
      else quotedName groups tries (count + 1)

def isPlainName (name : List Char) : Bool :=
  !name.isEmpty && name.all fun c => c.isAlphanum || c == '_' || c == '-'

def headerNames : Nat → List (List Char) → Except Fault (List String)
  | 0, _ => .ok []
  | _, [] => .ok []
  | fuel + 1, group :: rest => do
      let name := Text.trim group
      if name.head?.any isQuote then
        let (name, count) ← quotedName (name :: rest) (rest.length + 3) 1
        return name :: (← headerNames fuel (rest.drop (count - 1)))
      else if isPlainName name then return String.ofList name :: (← headerNames fuel rest)
      else throw .malformed

/-- The names of a header line after its opening brackets, which closing brackets
end. -/
def header (closing : String) (line : List Char) : Except Fault (List String) := do
  match cutAt? closing (quotedMarks closing false (quoteParts line)) line with
  | none => throw .malformed
  | some (text, after) =>
      if !(Text.trim after).isEmpty then throw .malformed
      let names ← headerNames (text.length + 1) (pieces "." text)
      if names.contains "" then throw .malformed
      return names

/-- A step from a value to one inside of it. -/
inductive Step where
  | entry (name : String)
  /-- To the last item of an array. -/
  | last
  deriving DecidableEq, Repr, Inhabited

def along {α : Type} (change : Value → Except Fault (Value × α)) :
    List Step → Value → Except Fault (Value × α)
  | [], level => change level
  | .entry name :: rest, .map entries => do
      let (held, result) ← along change rest ((entries.lookup (.text name)).getD (.map []))
      return (.map (Entries.put (.text name) held entries), result)
  | .last :: rest, .list items => do
      let (held, result) ← along change rest (items.getLast?.getD .null)
      return (.list (items.dropLast ++ [held]), result)
  | _, _ => .error .noTable

/-- What a header leads to: the value with the tables that come into being, the
steps, and the names of those that came into being by themselves. -/
structure Opened where
  value : Value
  steps : List Step
  implicit : List String
  deriving Inhabited

def Opened.under (name : String) (entries : Table) (opened : Opened) : Opened :=
  { opened with
    value := .map (Entries.put (.text name) opened.value entries)
    steps := .entry name :: opened.steps }

/-- The last item of an array with the steps that lead to it. -/
def Opened.atLast (items : List Value) (opened : Opened) : Opened :=
  { opened with
    value := .list (items.dropLast ++ [opened.value]), steps := .last :: opened.steps }

/-- What comes into being under a name: a table, or an array of one for the last
name of a header of that kind. -/
def newTable (isItem isLast : Bool) : Value :=
  if isItem && isLast then .list [.map []] else .map []

/-- What the last name of a header finds: a table that came into being by itself
is opened, and an array gets a further table. -/
def reopened (isItem : Bool) (name : String) (implicit : List String) (held : Value) :
    Except Fault (Value × List String) :=
  if implicit.contains name then
    if isItem then .error .malformed else .ok (held, implicit.erase name)
  else if isItem then
    match held with
    | .list items => .ok (.list (items ++ [.map []]), implicit)
    | _ => .error .noArray
  else .error .malformed

def noTableAt : Value → Fault
  | .text s => if s.isEmpty then .cut else .noTable
  | _ => .noTable

/-- Opens what names lead to from a value. A header of an array's item goes to the
last item of each array on the way; another one does so where a name follows. -/
def openNames (isItem : Bool) : List String → List String → Value → Except Fault Opened
  | [], implicit, level => .ok ⟨level, [], implicit⟩
  | name :: rest, implicit, level => do
      match level with
      | .map entries =>
          let (held, implicit) ←
            match entries.lookup (.text name) with
            | none =>
                pure (newTable isItem rest.isEmpty,
                  if rest.isEmpty then implicit else implicit ++ [name])
            | some held =>
                if rest.isEmpty then reopened isItem name implicit held
                else pure (held, implicit)
          return (← inside rest implicit held).under name entries
      | .list items =>
          match items.getLast? with
          | none => throw .cut
          | some (.map entries) =>
              let held :=
                (entries.lookup (.text name)).getD (newTable isItem rest.isEmpty)
              return ((← inside rest implicit held).under name entries).atLast items
          | some _ => throw .noTable
      | other => throw (noTableAt other)
where
  /-- Opens the names that are left inside of a value. -/
  inside (rest : List String) (implicit : List String) (held : Value) : Except Fault Opened := do
    if isItem then
      match held with
      | .list items =>
          match items.getLast? with
          | none => throw .cut
          | some last => return (← openNames isItem rest implicit last).atLast items
      | .map _ => openNames isItem rest implicit held
      | other => throw (noTableAt other)
    else openNames isItem rest implicit held

/-! ## Documents -/

/-- A document under way: the tables, the steps to the one that entries go to, the
names of the tables that came into being by themselves, and the long string that
is open. -/
structure Course where
  root : Value := .map []
  path : List Step := []
  implicit : List String := []
  openText : Option OpenText := none
  deriving Inhabited

/-- Whether a line ends a long string: with three quotes, or, in an array, with a
bracket. -/
def closesText (text line : List Char) : Except Fault Bool :=
  match text.head? with
  | some '[' => if line.isEmpty then .error .cut else .ok (line.getLast? = some ']')
  | some quote => .ok (line.reverse.take 3 == [quote, quote, quote])
  | none => .error .cut

def Course.goOn (course : Course) (held : OpenText) (line : List Char) : Except Fault Course := do
  let text := held.text ++ line
  if ← closesText text line then
    let read ← value (text.length + 2) true text
    let (root, _) ← along (fun level =>
      match level with
      | .map entries => .ok (.map (Entries.put (.text held.name) read entries), ())
      | _ => .error .noTable) course.path course.root
    return { course with root, openText := none }
  else return { course with openText := some (.ofLines held.name text) }

def Course.open (course : Course) (isItem : Bool) (names : List String) : Except Fault Course := do
  let opened ← openNames isItem names course.implicit course.root
  return { course with root := opened.value, path := opened.steps, implicit := opened.implicit }

/-- Takes in a statement. A line that is none counts for nothing. -/
def Course.statement (course : Course) (line : List Char) : Except Fault Course := do
  match line with
  | ['['] => throw .malformed
  | '[' :: '[' :: rest => course.open true (← header "]]" rest)
  | '[' :: rest => course.open false (← header "]" rest)
  | '{' :: _ =>
      if line.getLast? ≠ some '\x7d' then throw .malformed
      let texts ← inlineFields line
      let (root, _) ← along (fun level => do
        return (← fields (2 * line.length + 4) level texts, ())) course.path course.root
      return { course with root }
  | _ =>
      if !line.contains '=' then return course
      let (root, openText) ← along (entry (2 * line.length + 4) line) course.path course.root
      return { course with root, openText }

def Course.line (course : Course) (line : List Char) : Except Fault Course :=
  match course.openText with
  | none =>
      let line := Text.trim line
      if line.isEmpty then .ok course else course.statement line
  | some held =>
      let line := if held.joins || !held.text.contains '\n' then Text.trim line else line
      if line.isEmpty && held.joins then .ok course else course.goOn held line

/-- The tables of a document whose line ends are line feeds. -/
def read (text : List Char) : Except Fault Table := do
  let course ← (← lines text).foldlM Course.line {}
  match course.root with
  | .map entries => return entries
  | _ => return []

end Sysml.Toml
