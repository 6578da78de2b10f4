import Sysml.Entries
import Sysml.Text.Lines
import Sysml.Xml.Charset

/-!
# XML markup

The parts that all markup is made of: names, literals, comments, processing
instructions, and references to characters and to entities.
-/

set_option autoImplicit false

namespace Sysml.Xml

def skipSpace (text : List Char) : List Char :=
  text.dropWhile isSpace

/-- The text after a word, if it begins with it. -/
def after? (word : String) (text : List Char) : Option (List Char) :=
  if word.toList.isPrefixOf text then some (text.drop word.length) else none

def expect (word : String) (text : List Char) : Except Fault (List Char) :=
  match after? word text with
  | some rest => .ok rest
  | none => .error .malformed

def splitAt? (word : List Char) : List Char → Option (List Char × List Char)
  | [] => if word.isEmpty then some ([], []) else none
  | c :: rest =>
      if word.isPrefixOf (c :: rest) then some ([], (c :: rest).drop word.length)
      else (splitAt? word rest).map fun (before, after) => (c :: before, after)

def upTo (word : String) (text : List Char) : Except Fault (List Char × List Char) :=
  match splitAt? word.toList text with
  | some found => .ok found
  | none => .error .malformed

def simpleName (text : List Char) : Except Fault (List Char × List Char) :=
  match text with
  | c :: _ =>
      if isNameStart c then .ok (text.takeWhile isNameChar, text.dropWhile isNameChar)
      else .error .malformed
  | [] => .error .malformed

/-- A name, which may have an abbreviation and a colon in front. -/
def fullName (text : List Char) : Except Fault (String × List Char) := do
  let (first, rest) ← simpleName text
  match rest with
  | ':' :: rest =>
      let (second, rest) ← simpleName rest
      return (String.ofList (first ++ ':' :: second), rest)
  | _ => return (String.ofList first, rest)

def literal (text : List Char) : Except Fault (List Char × List Char) :=
  match text with
  | '"' :: rest => upTo "\"" rest
  | '\'' :: rest => upTo "'" rest
  | _ => .error .malformed

/-- The text after a comment of which the opening was passed. -/
def comment (text : List Char) : Except Fault (List Char) := do
  let (_, rest) ← upTo "--" text
  expect ">" rest

/-- The text after a processing instruction of which the opening was passed. -/
def instruction (text : List Char) : Except Fault (List Char) := do
  let (target, rest) ← simpleName text
  if target.map Char.toLower = "xml".toList then .error .malformed
  match rest with
  | c :: _ =>
      if isSpace c || (after? "?>" rest).isSome then return (← upTo "?>" rest).2
      else .error .malformed
  | [] => .error .malformed

/-- A numeral in base ten or sixteen as the number of a character. -/
def charNumber? (hexadecimal : Bool) (digits : List Char) : Option Nat :=
  let value? (c : Char) : Option Nat :=
    if c.isDigit then some (c.toNat - 48)
    else if hexadecimal && 'a' ≤ c && c ≤ 'f' then some (c.toNat - 87)
    else if hexadecimal && 'A' ≤ c && c ≤ 'F' then some (c.toNat - 55)
    else none
  let base := if hexadecimal then 16 else 10
  if digits.isEmpty then none
  else (digits.mapM value?).map (·.foldl (fun n digit => base * n + digit) 0)

/-- The character of a reference, without the number sign. -/
def charOf (reference : List Char) : Except Fault Char :=
  let number :=
    match reference with
    | 'x' :: digits => charNumber? true digits
    | digits => charNumber? false digits
  match number with
  | none => .error .malformed
  | some n =>
      let c := Char.ofNat n
      if c.toNat = n && isAllowed c then .ok c else .error .malformed

inductive Reference where
  | char (c : Char)
  | entity (name : String)
  deriving DecidableEq, Repr, Inhabited

def predefined : List (String × Char) :=
  [("lt", '<'), ("gt", '>'), ("amp", '&'), ("apos", '\''), ("quot", '"')]

/-- A reference of which the ampersand was passed, and what follows it. -/
def reference (text : List Char) : Except Fault (Reference × List Char) := do
  match text with
  | '#' :: rest =>
      let (digits, rest) ← upTo ";" rest
      return (.char (← charOf digits), rest)
  | _ =>
      let (name, rest) ← simpleName text
      let rest ← expect ";" rest
      let name := String.ofList name
      match predefined.lookup name with
      | some c => return (.char c, rest)
      | none => return (.entity name, rest)

/-- The entities that a document declares. One that stands for another file has
no text. -/
structure Entities where
  texts : List (String × Option (List Char)) := []
  /-- Others may be declared outside of the document. -/
  isOpen : Bool := false
  deriving Repr, Inhabited

/-- The text of a declared entity that is not being replaced already. -/
def Entities.text (entities : Entities) (active : List String) (name : String) :
    Except Fault (List Char) :=
  match entities.texts.lookup name with
  | some (some text) => if active.contains name then .error .malformed else .ok text
  | _ => .error .malformed

/-- The text of an entity in an attribute, where one that may be declared outside
of the document counts as empty. -/
def Entities.attributeText (entities : Entities) (active : List String) (name : String) :
    Except Fault (List Char) :=
  if entities.isOpen && (entities.texts.lookup name).isNone then .ok []
  else entities.text active name

/-- The value of an attribute: white space becomes spaces, references are replaced.
`active` are the entities around. -/
def replaced (entities : Entities) : Nat → List String → List Char → Except Fault (List Char)
  | 0, _, _ => .error .malformed
  | _ + 1, _, [] => .ok []
  | fuel + 1, active, c :: rest =>
      if c = '<' then .error .malformed
      else if c = '&' then do
        let (found, rest) ← reference rest
        match found with
        | .char c => return c :: (← replaced entities fuel active rest)
        | .entity name =>
            let text ← entities.attributeText active name
            let value ← replaced entities fuel (name :: active) text
            return value ++ (← replaced entities fuel active rest)
      else
        (replaced entities fuel active rest).map ((if isSpace c then ' ' else c) :: ·)

/-- How far a text and the entities inside one another reach at most. -/
def Entities.reach (entities : Entities) (text : List Char) : Nat :=
  entities.texts.foldl (fun reach entry => reach + (entry.2.getD []).length) text.length

def attributeValue (entities : Entities) (raw : List Char) : Except Fault (List Char) :=
  replaced entities (entities.reach raw + 1) [] raw

/-- Character references inside an entity's text are replaced when it is
declared; other references wait. -/
def entityText : Nat → List Char → Except Fault (List Char)
  | 0, _ => .error .malformed
  | _ + 1, [] => .ok []
  | fuel + 1, c :: rest =>
      if c = '%' then .error .malformed
      else if c = '&' then
        match rest with
        | '#' :: more => do
            let (digits, more) ← upTo ";" more
            return (← charOf digits) :: (← entityText fuel more)
        | _ => do
            let (name, more) ← simpleName rest
            let more ← expect ";" more
            return '&' :: name ++ ';' :: (← entityText fuel more)
      else (entityText fuel rest).map (c :: ·)

def someSpace (text : List Char) : Except Fault (List Char) :=
  match text with
  | c :: rest => if isSpace c then .ok (skipSpace rest) else .error .malformed
  | [] => .error .malformed

end Sysml.Xml
