import Sysml.Value.Moment
import Sysml.Yaml.Place

/-!
# YAML tags

What a node is. A plain scalar says it by its form: words for truth values and
for nothing, integers in several bases, numbers with a point, and dates.
-/

set_option autoImplicit false

namespace Sysml.Yaml

/-- The kind of value that a node stands for. -/
inductive Tag where
  | null
  | bool
  | int
  | float
  | text
  | bytes
  | timestamp
  /-- The key `<<`, whose value's entries are merged into the mapping. -/
  | merge
  /-- The key `=`, whose value stands for the whole mapping. -/
  | standIn
  | list
  | map
  | set
  | orderedMap
  | pairs
  /-- A tag that is not known. -/
  | other (name : String)
  deriving DecidableEq, Repr, Inhabited

namespace Tag

def words : List (Tag × String) :=
  [(.null, "null"), (.bool, "bool"), (.int, "int"), (.float, "float"), (.text, "str"),
    (.bytes, "binary"), (.timestamp, "timestamp"), (.merge, "merge"), (.standIn, "value"),
    (.list, "seq"), (.map, "map"), (.set, "set"), (.orderedMap, "omap"), (.pairs, "pairs")]

def known : String :=
  "tag:yaml.org,2002:"

def ofName (name : String) : Tag :=
  match words.find? fun entry => known ++ entry.2 == name with
  | some entry => entry.1
  | none => .other name

def shorthand (tag : Tag) : String :=
  match tag with
  | .other name => "!<" ++ name ++ ">"
  | tag => "!!" ++ (words.lookup tag).getD ""

end Tag

namespace Plain

def unsigned : List Char → List Char
  | '-' :: rest => rest
  | '+' :: rest => rest
  | text => text

def isOctal (c : Char) : Bool :=
  '0' ≤ c && c ≤ '7'

/-- A digit or an underscore, which separates digits. -/
def isSpaced (isMember : Char → Bool) (c : Char) : Bool :=
  c == '_' || isMember c

/-- Some characters of a class, one at least. -/
def isRun (isMember : Char → Bool) (text : List Char) : Bool :=
  !text.isEmpty && text.all isMember

/-- Digits with underscores between and after them. -/
def isDigits (text : List Char) : Bool :=
  text.head?.any isDigit && text.all (isSpaced isDigit)

/-- A part after a colon: a digit, or two of which the first is at most five. -/
def isSixty : List Char → Bool
  | [a] => isDigit a
  | [a, b] => '0' ≤ a && a ≤ '5' && isDigit b
  | _ => false

def colonParts (text : List Char) : List (List Char) :=
  text.splitOn ':'

def isSexagesimal (text : List Char) : Bool :=
  match colonParts text with
  | first :: part :: more => isDigits first && (part :: more).all isSixty
  | _ => false

/-- An integer: binary, octal, decimal, hexadecimal or sexagesimal. -/
def isInteger (text : List Char) : Bool :=
  let text := unsigned text
  text == ['0'] ||
    match text with
    | '0' :: 'b' :: digits => isRun (isSpaced fun c => c == '0' || c == '1') digits
    | '0' :: 'x' :: digits => isRun (isSpaced isHexDigit) digits
    | '0' :: digits => isRun (isSpaced isOctal) digits
    | _ => isDigits text || isSexagesimal text

/-- An exponent, which has a sign, or nothing. -/
def isExponent : List Char → Bool
  | [] => true
  | e :: s :: digits =>
      (e == 'e' || e == 'E') && (s == '-' || s == '+') && isRun isDigit digits
  | _ => false

def isFraction (text : List Char) : Bool :=
  isExponent (text.dropWhile (isSpaced isDigit))

/-- A number with a point, or a word for an infinity or for what is no number. -/
def isFloat (text : List Char) : Bool :=
  let magnitude := unsigned text
  let whole := magnitude.takeWhile (isSpaced isDigit)
  [".inf", ".Inf", ".INF"].any (·.toList == magnitude) ||
    [".nan", ".NaN", ".NAN"].any (·.toList == text) ||
    (match text with
    | '.' :: c :: rest => isDigit c && isFraction rest
    | _ => false) ||
    (match magnitude.dropWhile (isSpaced isDigit) with
    | '.' :: rest => isDigits whole && isFraction rest
    | _ => false) ||
    (let sixties := magnitude.takeWhile (· != '.')
    match magnitude.dropWhile (· != '.') with
    | '.' :: rest => isSexagesimal sixties && rest.all (isSpaced isDigit)
    | _ => false)

def isTimestamp (text : List Char) : Bool :=
  match Moment.parts? text with
  | none => false
  | some parts => parts.time.isSome || text.length == 10

def truthWords : List (String × Bool) :=
  [("yes", true), ("no", false), ("true", true), ("false", false), ("on", true), ("off", false)]

/-- A word in lower case, in upper case, or with a capital. -/
def isSpelled (word : String) (text : List Char) : Bool :=
  let chars := word.toList
  text == chars || text == chars.map Char.toUpper ||
    text == (chars.take 1).map Char.toUpper ++ chars.drop 1

end Plain

/-- The text without a line feed at its end, which the form of a scalar does not
depend on. -/
def Plain.withoutLastBreak (text : List Char) : List Char :=
  if text.length ≠ 1 ∧ text.getLast? = some '\n' then text.dropLast else text

/-- The tag of a single indicator, which stands for no value. -/
def Tag.indicator : Tag :=
  .other (known ++ "yaml")

def Tag.ofForm (text : List Char) : Tag :=
  let text := Plain.withoutLastBreak text
  if Plain.truthWords.any fun word => Plain.isSpelled word.1 text then .bool
  else if Plain.isFloat text then .float
  else if Plain.isInteger text then .int
  else if text = ['<', '<'] then .merge
  else if text.isEmpty || text = ['~'] || Plain.isSpelled "null" text then .null
  else if Plain.isTimestamp text then .timestamp
  else if text = ['='] then .standIn
  else if text = ['!'] || text = ['&'] || text = ['*'] then .indicator
  else .text

end Sysml.Yaml
