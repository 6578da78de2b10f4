import Sysml.Decimal.Layout
import Sysml.Yaml.Scalar

/-!
# YAML tokens

Cutting a YAML text into tokens. Indentation becomes tokens that open and close
block collections. A key without an indicator is known as a key only when the
colon after it is met; its tokens are then put before it. Where a text has a
fault the tokens before it are known, up to the first that may turn out to be a
key.
-/

set_option autoImplicit false

namespace Sysml.Yaml

inductive Token where
  | version (major minor : Nat)
  | handle (name start : String)
  | unknownDirective
  | documentStart
  | documentEnd
  | streamEnd
  | blockSequence
  | blockMapping
  | blockEnd
  | flowSequence
  | flowSequenceEnd
  | flowMapping
  | flowMappingEnd
  | blockEntry
  | flowEntry
  | key
  | value
  | alias (name : String)
  | anchor (name : String)
  | tag (handle : Option String) (suffix : String)
  | scalar (text : String) (plain : Bool)
  deriving DecidableEq, Repr, Inhabited

structure PossibleKey where
  /-- The number of tokens before it. -/
  position : Nat
  isRequired : Bool
  index : Nat
  line : Nat
  column : Nat
  deriving DecidableEq, Repr, Inhabited

structure Scanner where
  place : Place
  tokens : Array Token := #[]
  /-- How many flow collections are open. -/
  flowDepth : Nat := 0
  /-- The column of the innermost block collection. -/
  indent : Int := -1
  /-- The columns of the block collections around it. -/
  outer : List Int := []
  allowsKey : Bool := true
  /-- By flow depth. -/
  possibleKeys : List (Nat × PossibleKey) := []
  deriving Inhabited

namespace Scanner

def push (s : Scanner) (token : Token) : Scanner :=
  { s with tokens := s.tokens.push token }

def moveTo (s : Scanner) (place : Place) : Scanner :=
  { s with place }

/-- Forgets the keys that began on an earlier line or too far back. -/
def dropStaleKeys (s : Scanner) : Except Fault Scanner :=
  let isStale (key : PossibleKey) : Bool :=
    key.line != s.place.line || 1024 < s.place.index - key.index
  if s.possibleKeys.any fun entry => isStale entry.2 && entry.2.isRequired then .error .malformed
  else .ok { s with possibleKeys := s.possibleKeys.filter fun entry => !isStale entry.2 }

def dropKey (s : Scanner) : Except Fault Scanner :=
  match s.possibleKeys.lookup s.flowDepth with
  | none => .ok s
  | some key =>
      if key.isRequired then .error .malformed
      else .ok { s with possibleKeys := s.possibleKeys.filter fun entry => entry.1 != s.flowDepth }

def noteKey (s : Scanner) : Except Fault Scanner :=
  if s.allowsKey then do
    let isRequired := s.flowDepth == 0 && s.indent == (s.place.column : Int)
    let s ← s.dropKey
    let key : PossibleKey :=
      { position := s.tokens.size, isRequired
        index := s.place.index, line := s.place.line, column := s.place.column }
    return { s with possibleKeys := (s.flowDepth, key) :: s.possibleKeys }
  else .ok s

/-- Closes the block collections that are indented more than `column`. -/
def unwindFrom (s : Scanner) (column : Int) : List Int → Scanner
  | [] => s
  | outer :: rest =>
      if column < s.indent then
        unwindFrom { s.push .blockEnd with indent := outer, outer := rest } column rest
      else s

/-- Closes the block collections that are indented more than `column`; inside
flow collections indentation means nothing. -/
def unwind (s : Scanner) (column : Int) : Scanner :=
  if s.flowDepth = 0 then s.unwindFrom column s.outer else s

/-- Opens a block collection at a column, if it is indented more than the one
around it; its token goes to `position`. -/
def indentAt (s : Scanner) (column position : Nat) (token : Token) : Scanner :=
  if s.indent < (column : Int) then
    { s with
      indent := column
      outer := s.indent :: s.outer
      tokens := s.tokens.insertIdxIfInBounds position token }
  else s

/-- Passes spaces, comments and line ends before a token. After a line end
outside of flow collections a key may begin. -/
def toNextToken : Nat → Scanner → Scanner
  | 0, s => s
  | fuel + 1, s =>
      let place := s.place.skipWhile (· == ' ')
      let place := if place.here = '#' then place.skipWhile fun c => !isBreakOrEnd c else place
      if isBreak place.here then
        toNextToken fuel
          { s with place := place.lineBreak.2, allowsKey := s.allowsKey || s.flowDepth == 0 }
      else s.moveTo place

/-- What is done before a token that no key can stand around: open blocks are
closed and possible keys forgotten. -/
def closeAll (s : Scanner) : Except Fault Scanner := do
  let s ← (s.unwind (-1)).dropKey
  return { s with allowsKey := false }

def versionNumber (p : Place) : Except Fault (Nat × Place) :=
  let (digits, p) := p.takeWhile isDigit
  if digits.isEmpty then .error .malformed
  else if Decimal.digitLimit < digits.length then .error .noSuchValue
  else .ok (digits.foldl (fun n c => 10 * n + (c.toNat - 48)) 0, p)

/-- A tag handle: `!`, `!!` or `!name!`. -/
def tagHandle (p : Place) : Except Fault (List Char × Place) :=
  if p.here = '!' then
    if p.peek 1 = ' ' then .ok (['!'], p.next)
    else
      let (name, after) := p.next.takeWhile isWordChar
      if after.here = '!' then .ok ('!' :: name ++ ['!'], after.next)
      else .error .malformed
  else .error .malformed

def isUriChar (c : Char) : Bool :=
  isWordChar c || ";/?:@&=+$,.!~*'()[]%".toList.contains c

def uriBytes : Nat → List UInt8 → Place → Except Fault (List UInt8 × Place)
  | 0, _, _ => .error .malformed
  | fuel + 1, bytes, p =>
      if p.here = '%' then
        let digits := p.next.rest.take 2
        if digits.length = 2 && digits.all isHexDigit then
          uriBytes fuel (bytes ++ [UInt8.ofNat (hexNumber digits)]) (p.skip 3)
        else .error .malformed
      else .ok (bytes, p)

def uriParts : Nat → List Char → Place → Except Fault (List Char × Place)
  | 0, _, _ => .error .malformed
  | fuel + 1, read, p =>
      let (plain, p) := p.takeWhile fun c => isUriChar c && c != '%'
      let read := read ++ plain
      if p.here = '%' then do
        let (bytes, p) ← uriBytes (p.rest.length + 1) [] p
        match String.fromUTF8? ⟨bytes.toArray⟩ with
        | none => .error .malformed
        | some text => uriParts fuel (read ++ text.toList) p
      else .ok (read, p)

/-- A URI, which is not empty. -/
def uri (p : Place) : Except Fault (String × Place) := do
  let (read, p) ← uriParts (p.rest.length + 1) [] p
  if read.isEmpty then .error .malformed else return (String.ofList read, p)

def directive (p : Place) : Except Fault (Token × Place) := do
  let (name, p) := p.next.takeWhile isWordChar
  if name.isEmpty || !isSpaceOrEnd p.here then .error .malformed
  let (token, p) ←
    if name = "YAML".toList then do
      let (major, p) ← versionNumber (p.skipWhile (· == ' '))
      if p.here ≠ '.' then .error .malformed
      let (minor, p) ← versionNumber p.next
      if !isSpaceOrEnd p.here then .error .malformed
      pure (Token.version major minor, p)
    else if name = "TAG".toList then do
      let (handle, p) ← tagHandle (p.skipWhile (· == ' '))
      if p.here ≠ ' ' then .error .malformed
      let (start, p) ← uri (p.skipWhile (· == ' '))
      if !isSpaceOrEnd p.here then .error .malformed
      pure (Token.handle (String.ofList handle) start, p)
    else pure (Token.unknownDirective, p.skipWhile fun c => !isBreakOrEnd c)
  return (token, ← ignoredLine p)

def anchorName (p : Place) : Except Fault (String × Place) :=
  let (name, p) := p.next.takeWhile isWordChar
  if name.isEmpty then .error .malformed
  else if isBlankOrEnd p.here || "?:,]\x7d%@\x60".toList.contains p.here then
    .ok (String.ofList name, p)
  else .error .malformed

/-- A tag has a handle: a second exclamation mark follows before a blank. -/
def hasHandle (p : Place) : Bool :=
  (p.next.rest.takeWhile fun c => !isSpaceOrEnd c).contains '!'

def tag (p : Place) : Except Fault (Token × Place) := do
  let (token, p) ←
    if p.peek 1 = '<' then do
      let (suffix, p) ← uri (p.skip 2)
      if p.here ≠ '>' then .error .malformed
      pure (Token.tag none suffix, p.next)
    else if isBlankOrEnd (p.peek 1) then pure (Token.tag none "!", p.next)
    else do
      let (handle, p) ← if hasHandle p then tagHandle p else pure (['!'], p.next)
      let (suffix, p) ← uri p
      pure (Token.tag (some (String.ofList handle)) suffix, p)
  if isSpaceOrEnd p.here then return (token, p) else .error .malformed

/-- Takes the indicator of a block collection's entry or key: outside of flow
collections it may open the collection. -/
def openBlock (s : Scanner) (token : Token) : Except Fault Scanner :=
  if s.flowDepth = 0 then
    if s.allowsKey then .ok (s.indentAt s.place.column s.tokens.size token) else .error .malformed
  else .ok s

def single (s : Scanner) (token : Token) : Scanner :=
  (s.push token).moveTo s.place.next

/-- Takes a colon: the key is what may have begun before, or it is missing. -/
def takeValue (s : Scanner) : Except Fault Scanner := do
  match s.possibleKeys.lookup s.flowDepth with
  | some key =>
      let s := { s with
        possibleKeys := s.possibleKeys.filter fun entry => entry.1 != s.flowDepth
        tokens := s.tokens.insertIdxIfInBounds key.position .key }
      let s := if s.flowDepth = 0 then s.indentAt key.column key.position .blockMapping else s
      return { s with allowsKey := false }.single .value
  | none =>
      let s ← s.openBlock .blockMapping
      let s ← { s with allowsKey := s.flowDepth == 0 }.dropKey
      return s.single .value

def takeContent (s : Scanner) (read : Place → Except Fault (Token × Place)) :
    Except Fault Scanner := do
  let s ← s.noteKey
  let (token, place) ← read s.place
  return { s.push token with allowsKey := false, place }

def startsPlain (s : Scanner) : Bool :=
  let c := s.place.here
  let next := s.place.peek 1
  !(isBlankOrEnd c || "-?:,[]\x7b\x7d#&*!|>'\"%@\x60".toList.contains c) ||
    (!isBlankOrEnd next && (c == '-' || (s.flowDepth == 0 && (c == '?' || c == ':'))))

def takePlain (s : Scanner) : Except Fault Scanner := do
  let s ← s.noteKey
  let (text, broken, place) :=
    plainScalar (s.flowDepth != 0) (s.indent + 1) (s.place.rest.length + 1) [] [] false s.place
  return { s.push (.scalar (String.ofList text) true) with allowsKey := broken, place }

/-- Takes the token at the place of the scan, where one begins. -/
def take (s : Scanner) : Except Fault Scanner := do
  let c := s.place.here
  let next := s.place.peek 1
  let inBlock := s.flowDepth == 0
  if c = '%' && s.place.column == 0 then
    let s ← s.closeAll
    let (token, place) ← directive s.place
    return (s.push token).moveTo place
  else if s.place.column = 0 && s.place.atMarker '-' then
    let s ← s.closeAll
    return (s.push .documentStart).moveTo (s.place.skip 3)
  else if s.place.column = 0 && s.place.atMarker '.' then
    let s ← s.closeAll
    return (s.push .documentEnd).moveTo (s.place.skip 3)
  else if c = '[' || c = '\x7b' then
    let s ← s.noteKey
    let token : Token := if c = '[' then .flowSequence else .flowMapping
    return { s with flowDepth := s.flowDepth + 1, allowsKey := true }.single token
  else if c = ']' || c = '\x7d' then
    let s ← s.dropKey
    let token : Token := if c = ']' then .flowSequenceEnd else .flowMappingEnd
    if s.flowDepth = 0 then .error .malformed
    else return { s with flowDepth := s.flowDepth - 1, allowsKey := false }.single token
  else if c = ',' then
    let s ← { s with allowsKey := true }.dropKey
    return s.single .flowEntry
  else if c = '-' && isBlankOrEnd next then
    let s ← s.openBlock .blockSequence
    let s ← { s with allowsKey := true }.dropKey
    return s.single .blockEntry
  else if c = '?' && (!inBlock || isBlankOrEnd next) then
    let s ← s.openBlock .blockMapping
    let s ← { s with allowsKey := inBlock }.dropKey
    return s.single .key
  else if c = ':' && (!inBlock || isBlankOrEnd next) then s.takeValue
  else if c = '*' then
    s.takeContent fun p => return ((.alias (← anchorName p).1), (← anchorName p).2)
  else if c = '&' then
    s.takeContent fun p => return ((.anchor (← anchorName p).1), (← anchorName p).2)
  else if c = '!' then s.takeContent tag
  else if (c = '|' || c = '>') && inBlock then
    let s ← { s with allowsKey := true }.dropKey
    let (text, place) ← blockScalar s.indent s.place
    return (s.push (.scalar (String.ofList text) false)).moveTo place
  else if c = '\'' || c = '"' then
    s.takeContent fun p => do
      let (text, after) ← quotedScalar (c == '"') (p.rest.length + 1) [] p.next
      return (.scalar (String.ofList text) false, after)
  else if s.startsPlain then s.takePlain
  else .error .malformed

/-- Takes what comes next: the tokens that end here and one that begins here. Tells
whether the text has ended. -/
def takeNext (s : Scanner) : Except Fault (Scanner × Bool) := do
  let s ← (toNextToken (s.place.rest.length + 1) s).dropStaleKeys
  let s := s.unwind s.place.column
  if s.place.rest.isEmpty then
    let s ← s.closeAll
    return (s.push .streamEnd, true)
  else return (← s.take, false)

def takeAll : Nat → Scanner → Scanner × Option Fault
  | 0, s => (s, some .malformed)
  | fuel + 1, s =>
      match s.takeNext with
      | .error fault => (s, some fault)
      | .ok (s, true) => (s, none)
      | .ok (s, false) => takeAll fuel s

/-- The number of tokens that are known for sure: none after where a key may have
begun. -/
def settled (s : Scanner) : Nat :=
  s.possibleKeys.foldl (fun count entry => min count entry.2.position) s.tokens.size

end Scanner

/-- The tokens of a text, and what is wrong after them. -/
structure Tokens where
  ready : List Token
  fault : Option Fault := none
  deriving Inhabited

/-- The tokens of a text. A byte order mark at its start is passed over. -/
def tokens (text : String) : Tokens :=
  let chars := text.toList
  if !chars.all isAllowed then ⟨[], some .malformed⟩
  else
    let place : Place := ⟨chars, 0, 0, 0⟩
    let place := if place.here.toNat = 0xfeff then place.next else place
    match Scanner.takeAll (chars.length + 2) { place } with
    | (s, none) => ⟨s.tokens.toList, none⟩
    | (s, some fault) =>
        match s.dropStaleKeys with
        | .error stale => ⟨[], some stale⟩
        | .ok s => ⟨s.tokens.toList.take s.settled, some fault⟩

end Sysml.Yaml
