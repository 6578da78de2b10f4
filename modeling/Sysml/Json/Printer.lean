import Sysml.Failure
import Sysml.Value.Text

/-!
# Writing JSON

JSON text with two spaces of indentation for each level. Values without a JSON
form (byte strings, dates, sets, containers inside of themselves) and keys
without one are refused.
-/

set_option autoImplicit false

namespace Sysml.Json

def layout : Decimal.Layout :=
  ⟨"", "Infinity", "-Infinity", "NaN"⟩

def unitEscape (n : Nat) : List Char :=
  '\\' :: 'u' :: Text.hexDigits 4 n

/-- A character as escapes; beyond the first plane it takes two code units. -/
def charEscape (c : Char) : List Char :=
  let n := c.toNat
  if n < 0x10000 then unitEscape n
  else unitEscape (0xd800 + (n - 0x10000) / 0x400) ++ unitEscape (0xdc00 + (n - 0x10000) % 0x400)

/-- A character inside a JSON string; `ascii` asks for escapes instead of
characters beyond printable ASCII. -/
def stringChar (ascii : Bool) (c : Char) : List Char :=
  if c = '"' then ['\\', '"']
  else if c = '\\' then ['\\', '\\']
  else if c = '\n' then ['\\', 'n']
  else if c = '\r' then ['\\', 'r']
  else if c = '\t' then ['\\', 't']
  else if c.toNat = 0x0c then ['\\', 'f']
  else if c.toNat = 0x08 then ['\\', 'b']
  else if c.toNat < 0x20 then charEscape c
  else if ascii && 0x7e < c.toNat then charEscape c
  else [c]

def stringText (ascii : Bool) (s : String) : String :=
  String.ofList ('"' :: s.toList.flatMap (stringChar ascii) ++ ['"'])

def integerText (n : Int) : Except Failure String :=
  if Decimal.hasText n then .ok (toString n) else .error .longNumber

def keyText (key : Value) : Except Failure String :=
  match key.bare with
  | .text s => .ok s
  | .int n => integerText n
  | .bool b => .ok (if b then "true" else "false")
  | .null => .ok "null"
  | .double bits => .ok (layout.text bits)
  | _ => .error .wrongKind

def indentation (depth : Nat) : String :=
  String.ofList (List.replicate (2 * depth) ' ')

def block (opening closing : String) (depth : Nat) (parts : List String) : String :=
  if parts.isEmpty then opening ++ closing
  else
    opening ++ "\n" ++ (",\n").intercalate (parts.map (indentation (depth + 1) ++ ·)) ++ "\n" ++
      indentation depth ++ closing

mutual

/-- The value at a level of indentation; `around` are the labels of the values that
it is inside of. -/
def renderAt (ascii : Bool) (around : List Nat) (depth : Nat) : Value → Except Failure String
  | .null => .ok "null"
  | .bool b => .ok (if b then "true" else "false")
  | .int n => integerText n
  | .double bits => .ok (layout.text bits)
  | .text s => .ok (stringText ascii s)
  | .list items => block "[" "]" depth <$> renderItems ascii around (depth + 1) items
  | .map entries => block "\x7b" "\x7d" depth <$> renderEntries ascii around (depth + 1) entries
  | .pair first second => do
      let first ← renderAt ascii around (depth + 1) first
      let second ← renderAt ascii around (depth + 1) second
      return block "[" "]" depth [first, second]
  | .bytes _ | .date _ | .time _ | .set _ => .error .wrongKind
  | .shared label held =>
      if around.contains label then .error .wrongValue
      else renderAt ascii (label :: around) depth held
  | .again _ => .error .wrongValue

def renderItems (ascii : Bool) (around : List Nat) (depth : Nat) :
    List Value → Except Failure (List String)
  | [] => .ok []
  | item :: rest => do
      let head ← renderAt ascii around depth item
      let tail ← renderItems ascii around depth rest
      return head :: tail

def renderEntries (ascii : Bool) (around : List Nat) (depth : Nat) :
    List (Value × Value) → Except Failure (List String)
  | [] => .ok []
  | (key, held) :: rest => do
      let key ← keyText key
      let held ← renderAt ascii around depth held
      let tail ← renderEntries ascii around depth rest
      return (stringText ascii key ++ ": " ++ held) :: tail

end

/-- The JSON text of a value; `ascii` keeps the text within ASCII. -/
def render (ascii : Bool) (value : Value) : Except Failure String :=
  renderAt ascii [] 0 value

end Sysml.Json
