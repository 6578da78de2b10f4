import Sysml.Xml.DocumentType

/-!
# XML content

Cutting a document into tags and text. Comments and processing instructions are
passed over; references are replaced, and attributes get the values that the
document declares for them.
-/

set_option autoImplicit false

namespace Sysml.Xml

/-- A tag or a piece of text. Names are as written, with their abbreviations. -/
inductive Piece where
  | opening (name : String) (attributes : List (String × String))
  | closing
  | text (chars : List Char)
  deriving Repr, Inhabited

/-- The attributes that a tag holds, whether the tag closes its element too, and what
follows the tag. -/
def writtenAttributes (entities : Entities) :
    Nat → List Char → Except Fault (List (String × String) × Bool × List Char)
  | 0, _ => .error .malformed
  | fuel + 1, text => do
      let rest := skipSpace text
      match rest with
      | '>' :: rest => return ([], false, rest)
      | '/' :: '>' :: rest => return ([], true, rest)
      | _ =>
          if rest.length = text.length then .error .malformed
          let (name, rest) ← fullName rest
          let rest ← expect "=" (skipSpace rest)
          let (raw, rest) ← literal (skipSpace rest)
          let value ← attributeValue entities raw
          let (others, closes, rest) ← writtenAttributes entities fuel rest
          if (others.lookup name).isSome then .error .malformed
          return ((name, String.ofList value) :: others, closes, rest)

/-- The attributes of an element, whether its tag closes it too, and what follows
the tag. Those that are not written and have defaults come last. -/
def attributes (declared : Declarations) (element : String) (text : List Char) :
    Except Fault (List (String × String) × Bool × List Char) := do
  let (written, closes, rest) ← writtenAttributes declared.entities (text.length + 1) text
  let values := written.map fun (name, value) =>
    match declared.rule? element name with
    | some rule => (name, if rule.hasTokens then String.ofList (tokens value.toList) else value)
    | none => (name, value)
  let others := declared.rules.filterMap fun rule =>
    if rule.element == element && (written.lookup rule.name).isNone then
      rule.default.map fun value => (rule.name, value)
    else none
  return (values ++ others, closes, rest)

/-- The pieces of some content up to the closing tag of the first of the open
elements' last, or up to the end of an entity's text, where no element may be
left open. -/
def content (declared : Declarations) :
    Nat → List String → Bool → List String → List Char → Except Fault (List Piece × List Char)
  | 0, _, _, _, _ => .error .malformed
  | fuel + 1, active, inEntity, opened, text => do
      match text with
      | [] => if inEntity && opened.isEmpty then return ([], []) else .error .malformed
      | '&' :: rest =>
          let (found, rest) ← reference rest
          match found with
          | .char c =>
              let (pieces, rest) ← content declared fuel active inEntity opened rest
              return (.text [c] :: pieces, rest)
          | .entity name =>
              let replacement ← declared.entities.text active name
              let (inner, _) ← content declared fuel (name :: active) true [] replacement
              let (pieces, rest) ← content declared fuel active inEntity opened rest
              return (inner ++ pieces, rest)
      | '<' :: '/' :: rest =>
          let (name, rest) ← fullName rest
          let rest ← expect ">" (skipSpace rest)
          match opened with
          | [] => .error .malformed
          | last :: outer =>
              if last ≠ name then .error .malformed
              if outer.isEmpty && !inEntity then return ([.closing], rest)
              let (pieces, rest) ← content declared fuel active inEntity outer rest
              return (.closing :: pieces, rest)
      | '<' :: '?' :: rest => content declared fuel active inEntity opened (← instruction rest)
      | '<' :: '!' :: '-' :: '-' :: rest =>
          content declared fuel active inEntity opened (← comment rest)
      | '<' :: '!' :: rest =>
          let (plain, rest) ← upTo "]]>" (← expect "[CDATA[" rest)
          let (pieces, rest) ← content declared fuel active inEntity opened rest
          return (.text plain :: pieces, rest)
      | '<' :: rest =>
          let (name, rest) ← fullName rest
          let (found, closes, rest) ← attributes declared name rest
          if closes then
            let (pieces, rest) ← content declared fuel active inEntity opened rest
            return (.opening name found :: .closing :: pieces, rest)
          else
            let (pieces, rest) ← content declared fuel active inEntity (name :: opened) rest
            return (.opening name found :: pieces, rest)
      | _ =>
          let plain := text.takeWhile fun c => c != '<' && c != '&'
          if (splitAt? "]]>".toList plain).isSome then .error .malformed
          let (pieces, rest) ←
            content declared fuel active inEntity opened (text.drop plain.length)
          return (.text plain :: pieces, rest)

def skipMisc : Nat → List Char → Except Fault (List Char)
  | 0, _ => .error .malformed
  | fuel + 1, text => do
      match skipSpace text with
      | '<' :: '?' :: rest => skipMisc fuel (← instruction rest)
      | '<' :: '!' :: '-' :: '-' :: rest => skipMisc fuel (← comment rest)
      | rest => return rest

def declarationEntry (name : String) (text : List Char) :
    Except Fault (Option (List Char) × List Char) := do
  match after? name (skipSpace text) with
  | none => return (none, text)
  | some rest =>
      let _ ← someSpace text
      let (value, rest) ← literal (skipSpace (← expect "=" (skipSpace rest)))
      return (some value, rest)

def isDeclarationChar (c : Char) : Bool :=
  c.isAlphanum || c == '.' || c == '-' || c == '_'

/-- What the declaration at the front of a document says. -/
structure Heading where
  encoding : Option String := none
  standsAlone : Bool := false
  deriving DecidableEq, Repr, Inhabited

/-- What a declaration at the front of a text says, and the text after the
declaration. -/
def declaration (text : List Char) : Except Fault (Heading × List Char) := do
  match text with
  | '<' :: '?' :: 'x' :: 'm' :: 'l' :: c :: rest =>
      if !isSpace c then return ({}, text)
      let (version, rest) ← declarationEntry "version" (c :: rest)
      let (encoding, rest) ← declarationEntry "encoding" rest
      let (standalone, rest) ← declarationEntry "standalone" rest
      let rest ← expect "?>" (skipSpace rest)
      if version.isNone || !([version, encoding].all fun value =>
          (value.getD []).all isDeclarationChar) then .error .malformed
      if encoding.any fun name => !(name.head?.any Char.isAlpha) then .error .malformed
      if standalone.any fun value => value ≠ "yes".toList ∧ value ≠ "no".toList then
        .error .malformed
      return (⟨encoding.map String.ofList, standalone == some "yes".toList⟩, rest)
  | _ => return ({}, text)

/-- What a document's declaration says, and the text after it, with line feeds as
line ends. -/
def documentText (octets : List UInt8) : Except Fault (Heading × List Char) := do
  let (found, octets) := Encoding.detect octets
  let decoded (encoding : Encoding) : Except Fault (List Char) :=
    match encoding.decode octets with
    | some text => .ok (Text.unifyLineEnds text)
    | none => .error .malformed
  let (glanced, _) ← declaration (Text.unifyLineEnds (found.glance octets))
  match glanced.encoding with
  | none => declaration (← decoded found)
  | some name => declaration (← decoded (← found.ofName name))

/-- The pieces of a document, of which the first opens the root and the last
closes it. -/
def pieces (octets : List UInt8) : Except Fault (List Piece) := do
  let (heading, text) ← documentText octets
  if !text.all isAllowed then .error .malformed
  let fuel := 2 * text.length + 4
  let rest ← skipMisc fuel text
  let (declared, rest) ←
    match after? "<!DOCTYPE" rest with
    | some rest => documentType octets.length heading.standsAlone rest
    | none => pure ({}, rest)
  let rest ← skipMisc fuel rest
  let _ ← declared.entities.cost declared.budget rest
  let (name, rest) ← fullName (← expect "<" rest)
  let (found, closes, rest) ← attributes declared name rest
  let (inner, rest) ←
    if closes then pure ([Piece.closing], rest) else content declared fuel [] false [name] rest
  if (← skipMisc fuel rest).isEmpty then return .opening name found :: inner
  else .error .malformed

end Sysml.Xml
