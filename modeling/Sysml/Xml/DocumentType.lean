import Sysml.Xml.Expansion

/-!
# Document types

The declarations at the front of a document: entities, and what attributes are
like. Declarations that stand elsewhere are not read; after a reference to some,
only a document that stands alone has more declarations of its own.
-/

set_option autoImplicit false

namespace Sysml.Xml

/-- What a document declares about an attribute of its elements. -/
structure AttributeRule where
  element : String
  name : String
  /-- The value is a list of tokens between single spaces. -/
  hasTokens : Bool
  /-- The value of an attribute that is not written. -/
  default : Option String
  deriving DecidableEq, Repr, Inhabited

structure Declarations where
  entities : Entities := {}
  rules : List AttributeRule := []
  /-- The document needs no declarations from elsewhere. -/
  standsAlone : Bool := false
  /-- Further declarations do not count. -/
  isClosed : Bool := false
  /-- What further references may come to. -/
  budget : Nat := 0
  deriving Repr, Inhabited

namespace Declarations

def rule? (declared : Declarations) (element name : String) : Option AttributeRule :=
  declared.rules.find? fun rule => rule.element == element && rule.name == name

def refer (declared : Declarations) : Declarations :=
  { declared with entities := { declared.entities with isOpen := !declared.standsAlone } }

/-- Adds an entity; of two with one name the first counts. -/
def addEntity (declared : Declarations) (name : String) (text : Option (List Char)) :
    Declarations :=
  if declared.isClosed then declared
  else
    let texts := Entries.putNew name text declared.entities.texts
    { declared with entities := { declared.entities with texts } }

/-- Adds what is declared about an attribute; of two declarations the first
counts. -/
def addRule (declared : Declarations) (rule : AttributeRule) : Declarations :=
  if declared.isClosed || (declared.rule? rule.element rule.name).isSome then declared
  else { declared with rules := declared.rules ++ [rule] }

end Declarations

/-- The value without spaces at either end and with single spaces inside. -/
def tokens (value : List Char) : List Char :=
  [' '].intercalate ((value.splitOn ' ').filter fun token => !token.isEmpty)

/-- A name in a declaration, which may have a colon inside. What follows the colon
may begin like the rest of a name. -/
def declaredName (text : List Char) : Except Fault (String × List Char) := do
  let (first, rest) ← simpleName text
  match rest with
  | ':' :: rest =>
      let second := rest.takeWhile isNameChar
      if second.isEmpty then .error .malformed
      return (String.ofList (first ++ ':' :: second), rest.drop second.length)
  | _ => return (String.ofList first, rest)

def isPublicChar (c : Char) : Bool :=
  c.isAlphanum || " \r\n-'()+,./:=?;!*#@$_%".toList.contains c

def publicId (text : List Char) : Except Fault (List Char) := do
  let (name, rest) ← literal text
  if name.all isPublicChar then return rest else .error .malformed

/-- The place of another file: its identifiers between quotes. Tells whether
there is one. -/
def externalId (text : List Char) : Except Fault (Bool × List Char) := do
  match after? "SYSTEM" text, after? "PUBLIC" text with
  | some rest, _ =>
      let (_, rest) ← literal (← someSpace rest)
      return (true, rest)
  | none, some rest =>
      let rest ← publicId (← someSpace rest)
      let (_, rest) ← literal (← someSpace rest)
      return (true, rest)
  | none, none => return (false, text)

/-- An entity declaration of which the opening was passed. Parameter entities
are passed over, and so is the text of one that does not count. -/
def entityDeclaration (counts : Bool) (text : List Char) :
    Except Fault (Option (String × Option (List Char)) × List Char) := do
  let rest ← someSpace text
  let (isParameter, rest) ←
    match rest with
    | '%' :: rest => do pure (true, ← someSpace rest)
    | _ => pure (false, rest)
  let (name, rest) ← simpleName rest
  let rest ← someSpace rest
  let (isExternal, rest) ← externalId rest
  let (value, rest) ←
    if isExternal then
      match after? "NDATA" (skipSpace rest) with
      | some more => do
          if isParameter then .error .malformed
          let _ ← someSpace rest
          let (_, more) ← simpleName (← someSpace more)
          pure (none, more)
      | none => pure (none, rest)
    else do
      let (raw, rest) ← literal rest
      pure (← if counts then some <$> entityText (raw.length + 1) raw else pure none, rest)
  let rest ← expect ">" (skipSpace rest)
  return (if isParameter then none else some (String.ofList name, value), rest)

/-- The text after the mark that tells how often a part may stand, if there is one. -/
def skipCount (text : List Char) : List Char :=
  match text with
  | '?' :: rest => rest
  | '*' :: rest => rest
  | '+' :: rest => rest
  | _ => text

/-- The text after the parts of groups. `groups` are what joins the parts of the
open groups so far, innermost first; one group has one joint. A part has to
follow if `atPart`, and a joint or the end of a group if not. -/
def groupParts : Nat → Bool → List (Option Char) → List Char → Except Fault (List Char)
  | 0, _, _, _ => .error .malformed
  | fuel + 1, atPart, groups, text => do
      match atPart, skipSpace text, groups with
      | true, '(' :: rest, _ => groupParts fuel true (none :: groups) rest
      | true, rest, _ =>
          let (_, rest) ← declaredName rest
          groupParts fuel false groups (skipCount rest)
      | false, ')' :: rest, [_] => return skipCount rest
      | false, ')' :: rest, _ :: outer => groupParts fuel false outer (skipCount rest)
      | false, c :: rest, joint :: outer =>
          if (c == ',' || c == '|') && joint.all (· == c) then
            groupParts fuel true (some c :: outer) rest
          else .error .malformed
      | _, _, _ => .error .malformed

/-- The text after the names of the elements that may stand among text, of which
the part for text was passed. -/
def mixedParts : Nat → List Char → Except Fault (List Char)
  | 0, _ => .error .malformed
  | fuel + 1, text => do
      match skipSpace text with
      | ')' :: '*' :: rest => return rest
      | '|' :: rest =>
          let (_, rest) ← declaredName (skipSpace rest)
          mixedParts fuel rest
      | _ => .error .malformed

def contentModel (text : List Char) : Except Fault (List Char) := do
  match text with
  | '(' :: rest =>
      match after? "#PCDATA" (skipSpace rest) with
      | some more =>
          match skipSpace more with
          | ')' :: '*' :: rest => return rest
          | ')' :: rest => return rest
          | _ => mixedParts (more.length + 1) more
      | none => groupParts (rest.length + 1) true [none] rest
  | _ =>
      let (word, rest) ← simpleName text
      if word = "EMPTY".toList ∨ word = "ANY".toList then return rest else .error .malformed

/-- The text after an element declaration of which the opening was passed. -/
def elementDeclaration (text : List Char) : Except Fault (List Char) := do
  let (_, rest) ← declaredName (← someSpace text)
  let rest ← contentModel (← someSpace rest)
  expect ">" (skipSpace rest)

/-- The text after a notation declaration of which the opening was passed. The
second identifier may be left out. -/
def notationDeclaration (text : List Char) : Except Fault (List Char) := do
  let (_, rest) ← simpleName (← someSpace text)
  let rest ← someSpace rest
  match after? "PUBLIC" rest with
  | some rest =>
      let rest ← publicId (← someSpace rest)
      match skipSpace rest with
      | '>' :: rest => return rest
      | _ =>
          let (_, rest) ← literal (← someSpace rest)
          expect ">" (skipSpace rest)
  | none =>
      let (isExternal, rest) ← externalId rest
      if isExternal then expect ">" (skipSpace rest) else .error .malformed

/-- The text after a choice of values of which the opening was passed. -/
def choice (skipValue : List Char → Except Fault (List Char)) :
    Nat → List Char → Except Fault (List Char)
  | 0, _ => .error .malformed
  | fuel + 1, text => do
      match skipSpace (← skipValue (skipSpace text)) with
      | ')' :: rest => return rest
      | '|' :: rest => choice skipValue fuel rest
      | _ => .error .malformed

/-- The text after a token, which may begin like the rest of a name. -/
def skipToken (text : List Char) : Except Fault (List Char) :=
  let rest := text.dropWhile fun c => isNameChar c || c == ':'
  if rest.length = text.length then .error .malformed else .ok rest

/-- The type of an attribute: whether it is a list of tokens, and what follows. -/
def attributeType (text : List Char) : Except Fault (Bool × List Char) := do
  match text with
  | '(' :: rest =>
      return (true, ← choice skipToken (rest.length + 1) rest)
  | _ =>
      let (word, rest) ← simpleName text
      match String.ofList word with
      | "CDATA" => return (false, rest)
      | "NOTATION" =>
          let rest ← expect "(" (← someSpace rest)
          return (true, ← choice (fun text => Prod.snd <$> simpleName text) (rest.length + 1) rest)
      | word =>
          if ["ID", "IDREF", "IDREFS", "ENTITY", "ENTITIES", "NMTOKEN", "NMTOKENS"].contains word
          then return (true, rest)
          else .error .malformed

/-- The default of an attribute, if it has one, what its references come to, and what
follows. -/
def attributeDefault (declared : Declarations) (text : List Char) :
    Except Fault (Option (List Char) × Nat × List Char) := do
  match after? "#REQUIRED" text, after? "#IMPLIED" text with
  | some rest, _ => return (none, 0, rest)
  | none, some rest => return (none, 0, rest)
  | none, none =>
      let text ←
        match after? "#FIXED" text with
        | some rest => someSpace rest
        | none => pure text
      let (raw, rest) ← literal text
      if declared.isClosed then return (none, 0, rest)
      let cost ← declared.entities.cost declared.budget raw
      return (some (← attributeValue declared.entities raw), cost, rest)

/-- What is declared about the attributes of an element, up to the end of the
declaration. -/
def attributeRules (element : String) :
    Nat → Declarations → List Char → Except Fault (Declarations × List Char)
  | 0, _, _ => .error .malformed
  | fuel + 1, declared, text => do
      match skipSpace text with
      | '>' :: rest => return (declared, rest)
      | _ =>
          let (name, rest) ← declaredName (← someSpace text)
          let (hasTokens, rest) ← attributeType (← someSpace rest)
          let (value, cost, rest) ← attributeDefault declared (← someSpace rest)
          let value := value.map fun value =>
            String.ofList (if hasTokens then tokens value else value)
          let declared := { declared with budget := declared.budget - cost }
          attributeRules element fuel (declared.addRule ⟨element, name, hasTokens, value⟩) rest

/-- One declaration of which the opening was passed. -/
def markupDeclaration (declared : Declarations) (text : List Char) :
    Except Fault (Declarations × List Char) := do
  let (word, rest) ← simpleName text
  match String.ofList word with
  | "ENTITY" =>
      let (found, rest) ← entityDeclaration (!declared.isClosed) rest
      match found with
      | some (name, value) => return (declared.addEntity name value, rest)
      | none => return (declared, rest)
  | "ATTLIST" =>
      let (element, rest) ← declaredName (← someSpace rest)
      attributeRules element (rest.length + 1) declared rest
  | "ELEMENT" => return (declared, ← elementDeclaration rest)
  | "NOTATION" => return (declared, ← notationDeclaration rest)
  | _ => .error .malformed

def subset : Nat → Declarations → List Char → Except Fault (Declarations × List Char)
  | 0, _, _ => .error .malformed
  | fuel + 1, declared, text => do
      match skipSpace text with
      | ']' :: rest => return (declared, rest)
      | '%' :: rest =>
          let (_, rest) ← simpleName rest
          let declared := { declared.refer with isClosed := !declared.standsAlone }
          subset fuel declared (← expect ";" rest)
      | '<' :: '?' :: rest => subset fuel declared (← instruction rest)
      | '<' :: '!' :: '-' :: '-' :: rest => subset fuel declared (← comment rest)
      | '<' :: '!' :: rest =>
          let (declared, rest) ← markupDeclaration declared rest
          subset fuel declared rest
      | _ => .error .malformed

/-- The declarations of a document type of which the opening was passed, in a
document of so many bytes. -/
def documentType (size : Nat) (standsAlone : Bool) (text : List Char) :
    Except Fault (Declarations × List Char) := do
  let (_, rest) ← declaredName (← someSpace text)
  let (isExternal, rest) ← externalId (skipSpace rest)
  let declared : Declarations := { standsAlone, budget := expansionBudget size }
  let declared := if isExternal then declared.refer else declared
  match skipSpace rest with
  | '[' :: rest =>
      let (declared, rest) ← subset (rest.length + 1) declared rest
      return (declared, ← expect ">" (skipSpace rest))
  | rest => return (declared, ← expect ">" rest)

end Sysml.Xml
