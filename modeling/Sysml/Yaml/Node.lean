import Sysml.Yaml.Tag
import Sysml.Yaml.Token

/-!
# YAML nodes

The graph that a text's tokens describe: scalars, sequences and mappings, each
with its tag. The parts of a node are nodes by their numbers, and an alias is the
number of the node that has its anchor. So a node may stand in several places,
also inside of itself.
-/

set_option autoImplicit false

namespace Sysml.Yaml

/-- A node of a document; its parts are the numbers of nodes. -/
inductive Node where
  | scalar (tag : Tag) (text : String)
  | sequence (tag : Tag) (items : List Nat)
  | mapping (tag : Tag) (entries : List (Nat × Nat))
  deriving Repr, Inhabited

def Node.tag : Node → Tag
  | .scalar tag _ => tag
  | .sequence tag _ => tag
  | .mapping tag _ => tag

def Node.withTag (tag : Tag) : Node → Node
  | .scalar _ text => .scalar tag text
  | .sequence _ items => .sequence tag items
  | .mapping _ entries => .mapping tag entries

abbrev Graph := Array Node

def Graph.node (graph : Graph) (n : Nat) : Node :=
  graph.getD n default

namespace Node

/-- What is known while the nodes of a document are put together. -/
structure Course where
  /-- The tokens not yet used. -/
  tokens : List Token
  /-- What is wrong with the text after the tokens. -/
  fault : Option Fault := none
  /-- What tag handles stand for. -/
  handles : List (String × String) := []
  /-- The nodes that have an anchor. -/
  anchors : List (String × Nat) := []
  graph : Graph := #[]
  deriving Inhabited

abbrev Step := StateT Course (Except Fault)

/-- The next token; after the last one the text ends, or has its fault. -/
def peek : Step Token := do
  let course ← get
  match course.tokens, course.fault with
  | token :: _, _ => return token
  | [], none => return .streamEnd
  | [], some fault => throw fault

def advance : Step Unit :=
  modify fun course => { course with tokens := course.tokens.tail }

def isNext (choices : List Token) : Step Bool := do
  return choices.contains (← peek)

/-- Passes the next token, which has to be this one. -/
def expect (token : Token) : Step Unit := do
  if (← peek) = token then advance else throw .malformed

def add (node : Node) : Step Nat := do
  let n := (← get).graph.size
  modify fun course => { course with graph := course.graph.push node }
  return n

def put (n : Nat) (node : Node) : Step Unit :=
  modify fun course => { course with graph := course.graph.setIfInBounds n node }

def empty : Step Nat :=
  add (.scalar .null "")

def tagName (handle : Option String) (suffix : String) : Step String := do
  match handle with
  | none => return suffix
  | some handle =>
      match (← get).handles.lookup handle with
      | none => throw .malformed
      | some start => return start ++ suffix

/-- The anchor and the tag before a node, in either order. -/
def properties : Step (Option String × Option String) := do
  match ← peek with
  | .anchor name =>
      advance
      match ← peek with
      | .tag handle suffix =>
          advance
          return (some name, some (← tagName handle suffix))
      | _ => return (some name, none)
  | .tag handle suffix =>
      advance
      match ← peek with
      | .anchor name =>
          advance
          return (some name, some (← tagName handle suffix))
      | _ => return (none, some (← tagName handle suffix))
  | _ => return (none, none)

/-- The tag of a scalar: its own, or the one of its form. -/
def scalarTag (plain : Bool) (name : Option String) (text : String) : Tag :=
  match name with
  | none => if plain then .ofForm text.toList else .text
  | some "!" => .ofForm text.toList
  | some name => .ofName name

/-- The tag of a collection: its own, or the one of its kind. -/
def collectionTag (name : Option String) (kind : Tag) : Tag :=
  match name with
  | none => kind
  | some "!" => kind
  | some name => .ofName name

/-- Where a node stands: inside a flow collection, in a block, or as a key or
value of a block mapping, where entries of a sequence need no indentation. -/
inductive Position where
  | flow
  | block
  | entry
  deriving DecidableEq, Repr, Inhabited

/-- An anchor is given to one node only. -/
def reserve (anchor : Option String) : Step Unit := do
  let anchors := (← get).anchors
  if anchor.any fun name => (anchors.lookup name).isSome then throw .malformed

def addUnder (anchor : Option String) (node : Node) : Step Nat := do
  let n ← add node
  match anchor with
  | none => return n
  | some name =>
      modify fun course => { course with anchors := (name, n) :: course.anchors }
      return n

mutual

def compose : Nat → Position → Step Nat
  | 0, _ => throw .malformed
  | fuel + 1, position => do
      match ← peek with
      | .alias name =>
          advance
          match (← get).anchors.lookup name with
          | some n => return n
          | none => throw .malformed
      | _ =>
          let (anchor, tag) ← properties
          let _ ← peek
          reserve anchor
          content fuel position anchor tag

/-- What follows the anchor and the tag of a node. Nothing may follow them if
there is one of them. -/
def content : Nat → Position → Option String → Option String → Step Nat
  | 0, _, _, _ => throw .malformed
  | fuel + 1, position, anchor, tag => do
      match ← peek, position with
      | .blockEntry, .entry => list anchor tag (entries fuel false)
      | .scalar text plain, _ =>
          advance
          addUnder anchor (.scalar (scalarTag plain tag text) text)
      | .flowSequence, _ =>
          advance
          list anchor tag (flowItems fuel true)
      | .flowMapping, _ =>
          advance
          map anchor tag (flowPairs fuel true)
      | .blockSequence, .block | .blockSequence, .entry =>
          advance
          list anchor tag (entries fuel true)
      | .blockMapping, .block | .blockMapping, .entry =>
          advance
          map anchor tag (blockPairs fuel)
      | _, _ =>
          if anchor.isSome || tag.isSome then
            addUnder anchor (.scalar (scalarTag tag.isNone tag "") "")
          else throw .malformed
where
  /-- A sequence, which has its number before its items have theirs. -/
  list (anchor tag : Option String) (items : Step (List Nat)) : Step Nat := do
    let tag := collectionTag tag .list
    let n ← addUnder anchor (.sequence tag [])
    put n (.sequence tag (← items))
    return n
  /-- A mapping, which has its number before its entries have theirs. -/
  map (anchor tag : Option String) (entries : Step (List (Nat × Nat))) : Step Nat := do
    let tag := collectionTag tag .map
    let n ← addUnder anchor (.mapping tag [])
    put n (.mapping tag (← entries))
    return n

/-- A node unless one of some tokens is next: then nothing is written there. -/
def composeUnless : Nat → Position → List Token → Step Nat
  | 0, _, _ => throw .malformed
  | fuel + 1, position, stops => do
      if ← isNext stops then empty else compose fuel position

/-- The entries of a block sequence. One that is a value and is not indented has
no token at its end. -/
def entries : Nat → Bool → Step (List Nat)
  | 0, _ => throw .malformed
  | fuel + 1, indented => do
      if ← isNext [.blockEntry] then
        advance
        let stops : List Token :=
          if indented then [.blockEntry, .blockEnd] else [.blockEntry, .key, .value, .blockEnd]
        let item ← composeUnless fuel .block stops
        return item :: (← entries fuel indented)
      else
        if indented then expect .blockEnd
        return []

def blockPairs : Nat → Step (List (Nat × Nat))
  | 0 => throw .malformed
  | fuel + 1 => do
      if ← isNext [.key] then
        advance
        let key ← composeUnless fuel .entry [.key, .value, .blockEnd]
        let value ← valueUnless fuel .entry [.key, .value, .blockEnd]
        return (key, value) :: (← blockPairs fuel)
      else
        expect .blockEnd
        return []

def valueUnless : Nat → Position → List Token → Step Nat
  | 0, _, _ => throw .malformed
  | fuel + 1, position, stops => do
      if ← isNext [.value] then
        advance
        composeUnless fuel position stops
      else empty

/-- The items of a flow sequence. A key among them is a mapping of one entry. -/
def flowItems : Nat → Bool → Step (List Nat)
  | 0, _ => throw .malformed
  | fuel + 1, isFirst => do
      if ← isNext [.flowSequenceEnd] then
        advance
        return []
      else
        if !isFirst then expect .flowEntry
        if ← isNext [.key] then
          advance
          let n ← add (.mapping .map [])
          let key ← composeUnless fuel .flow [.value, .flowEntry, .flowSequenceEnd]
          let value ← valueUnless fuel .flow [.flowEntry, .flowSequenceEnd]
          put n (.mapping .map [(key, value)])
          return n :: (← flowItems fuel false)
        else if ← isNext [.flowSequenceEnd] then
          advance
          return []
        else
          let item ← compose fuel .flow
          return item :: (← flowItems fuel false)

/-- The entries of a flow mapping. An item that is no key has no value. -/
def flowPairs : Nat → Bool → Step (List (Nat × Nat))
  | 0, _ => throw .malformed
  | fuel + 1, isFirst => do
      if ← isNext [.flowMappingEnd] then
        advance
        return []
      else
        if !isFirst then expect .flowEntry
        if ← isNext [.key] then
          advance
          let key ← composeUnless fuel .flow [.value, .flowEntry, .flowMappingEnd]
          let value ← valueUnless fuel .flow [.flowEntry, .flowMappingEnd]
          return (key, value) :: (← flowPairs fuel false)
        else if ← isNext [.flowMappingEnd] then
          advance
          return []
        else
          let key ← compose fuel .flow
          return (key, ← empty) :: (← flowPairs fuel false)

end

def commonHandles : List (String × String) :=
  [("!", "!"), ("!!", Tag.known)]

/-- The directives before a document. `versioned` tells whether the version was
given; handles may be given once each. -/
def directives : Nat → Bool → List (String × String) → Step (List (String × String))
  | 0, _, _ => throw .malformed
  | fuel + 1, versioned, handles => do
      match ← peek with
      | .version major _ =>
          advance
          if versioned || major != 1 then throw .malformed
          directives fuel true handles
      | .handle name start =>
          advance
          if (handles.lookup name).isSome then throw .malformed
          directives fuel versioned ((name, start) :: handles)
      | .unknownDirective =>
          advance
          directives fuel versioned handles
      | _ => return handles ++ commonHandles

/-- The node of a document that begins with a marker. Directives may stand before
the marker. -/
def markedDocument (fuel : Nat) : Step Nat := do
  let handles ← directives fuel false []
  modify fun course => { course with handles }
  expect .documentStart
  match ← peek with
  | .version _ _ | .handle _ _ => empty
  | _ => composeUnless fuel .block [.unknownDirective, .documentStart, .documentEnd, .streamEnd]

/-- A text holds one document at most: after it only markers of its end follow. -/
def finish : Nat → Step Unit
  | 0 => throw .malformed
  | fuel + 1 => do
      match ← peek with
      | .streamEnd => return
      | .documentEnd =>
          advance
          finish fuel
      | _ =>
          let _ ← directives fuel false []
          let _ ← peek
          throw .malformed

/-- The node of a text, or none if the text holds nothing. -/
def document (fuel : Nat) : Step (Option Nat) := do
  match ← peek with
  | .streamEnd => return none
  | .documentStart | .unknownDirective | .version _ _ | .handle _ _ =>
      let n ← markedDocument fuel
      finish fuel
      return some n
  | _ =>
      modify fun course => { course with handles := commonHandles }
      let n ← compose fuel .block
      finish fuel
      return some n

end Node

/-- The nodes of a text and the number of the one that holds the others, or none
if the text holds nothing. -/
def Graph.ofText (text : String) : Except Fault (Option (Graph × Nat)) := do
  let tokens := tokens text
  let fuel := 4 * tokens.ready.length + 8
  let (root, course) ← (Node.document fuel).run { tokens := tokens.ready, fault := tokens.fault }
  return root.map fun n => (course.graph, n)

end Sysml.Yaml
