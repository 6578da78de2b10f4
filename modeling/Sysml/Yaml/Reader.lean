import Sysml.Decimal.Reader
import Sysml.Text.Base64
import Sysml.Text.Lower
import Sysml.Value.Slots
import Sysml.Yaml.Merge

/-!
# Reading YAML

The value that a YAML text describes. Scalars have their values at once; a
container is there as soon as it is met, and is filled when those met before it
are. So a container may hold itself, and of several faults the outermost counts.
Of entries with one key the last wins, in the first one's place.
-/

set_option autoImplicit false

namespace Sysml.Yaml

/-! ## Scalars -/

/-- The text without the underscores between its digits. -/
def withoutSpacing (text : String) : List Char :=
  text.toList.filter (· != '_')

def existing {α : Type} : Option α → Except Fault α
  | none => .error .noSuchValue
  | some value => .ok value

def sumOfSixties (parts : List Int) : Int :=
  parts.foldl (fun sum part => 60 * sum + part) 0

/-- An integer: binary after `0b`, hexadecimal after `0x`, octal after a zero,
else decimal or in parts of sixty. -/
def integer (text : String) : Except Fault Int := do
  let text := withoutSpacing text
  if text.isEmpty then .error .emptyNumber
  let (negative, digits) := Decimal.sign text
  let magnitude ←
    match digits with
    | [] => .error .emptyNumber
    | ['0'] => pure 0
    | '0' :: 'b' :: rest => existing (Decimal.integer? 2 rest)
    | '0' :: 'x' :: rest => existing (Decimal.integer? 16 rest)
    | '0' :: _ => existing (Decimal.integer? 8 digits)
    | _ =>
        if digits.contains ':' then
          return (if negative then -1 else 1) *
            sumOfSixties (← existing ((Plain.colonParts digits).mapM (Decimal.integer? 10)))
        else existing (Decimal.integer? 10 digits)
  return if negative then -magnitude else magnitude

def nearestOf (n : Nat) : Except Fault Float :=
  let bits := Decimal.nearestDouble false ⟨n, 0⟩
  if Decimal.isFinite bits then .ok (Float.ofBits bits) else .error .overflow

/-- The sum of parts of which each next one is worth sixty times as much; `base` is
what the first one is worth. -/
def sumFromLast (base : Nat) (sum : Float) : List Float → Except Fault Float
  | [] => .ok sum
  | part :: rest => do sumFromLast (60 * base) (sum + part * (← nearestOf base)) rest

/-- A double: a word, digits with a point or an exponent, or parts of sixty. -/
def float (text : String) : Except Fault UInt64 := do
  let text := withoutSpacing (Text.lower text)
  if text.isEmpty then .error .emptyNumber
  let (negative, digits) := Decimal.sign text
  let magnitude ←
    if digits = ".inf".toList then pure 0x7ff0000000000000
    else if digits = ".nan".toList then return 0x7ff8000000000000
    else if digits.contains ':' then
      let parts ← existing ((Plain.colonParts digits).mapM Decimal.double?)
      pure (← sumFromLast 1 0.0 (parts.map Float.ofBits).reverse).toBits
    else existing (Decimal.double? digits)
  return if negative then magnitude ^^^ 0x8000000000000000 else magnitude

def moment (text : String) : Except Fault Moment :=
  match Moment.parts? (Plain.withoutLastBreak text.toList) with
  | none => .error .noDate
  | some parts => existing (Moment.ofParts? parts)

def scalarValue (tag : Tag) (text : String) : Except Fault Value :=
  match tag with
  | .null => .ok .null
  | .text => .ok (.text text)
  | .int => Value.int <$> integer text
  | .float => Value.double <$> float text
  | .timestamp => Value.date <$> moment text
  | .bool =>
      match Plain.truthWords.lookup (Text.lower text) with
      | some b => .ok (.bool b)
      | none => .error .noTruthValue
  | .bytes =>
      match Text.Base64.decode? text with
      | some octets =>
          if text.toList.all (·.toNat < 128) then .ok (.bytes octets) else .error .malformed
      | none => .error .malformed
  | _ => .error .malformed

def Graph.textOf (graph : Graph) : Nat → Nat → Except Fault String
  | 0, _ => .error .endless
  | fuel + 1, n =>
      match graph.node n with
      | .scalar _ text => .ok text
      | .sequence _ _ => .error .malformed
      | .mapping _ entries =>
          match entries.find? fun entry => (graph.node entry.1).tag == .standIn with
          | some entry => graph.textOf fuel entry.2
          | none => .error .malformed

/-- The value of a node that is no container. A date has to be written as one
scalar. -/
def Graph.scalarOf (graph : Graph) (n : Nat) : Except Fault Value := do
  let node := graph.node n
  match node.tag with
  | .list | .map | .set | .orderedMap | .pairs | .merge | .standIn | .other _ => throw .malformed
  | tag =>
      let text ← graph.textOf (graph.size + 1) n
      match tag, node with
      | .timestamp, .mapping _ _ => throw .noScalar
      | tag, _ => scalarValue tag text

/-! ## Containers -/

/-- What a node stands for; the parts of containers are the numbers of nodes. -/
inductive Content where
  | scalar (value : Value)
  | list (items : List Nat)
  | map (entries : List (Nat × Nat))
  | set (members : List Nat)
  | pairs (entries : List (Nat × Nat))
  deriving Repr, Inhabited

namespace Content

/-- The content is no key: a container that may change. -/
def isContainer : Content → Bool
  | .scalar _ => false
  | _ => true

def parts : Content → List Nat
  | .scalar _ => []
  | .list items => items
  | .set members => members
  | .map entries | .pairs entries => entries.flatMap fun (key, held) => [key, held]

/-- A value with a label is told apart from another one like it: containers and
dates have labels. -/
def hasLabel : Content → Bool
  | .scalar (.date _) => true
  | .scalar _ => false
  | _ => true

end Content

structure Making where
  graph : Graph
  /-- What nodes stand for, by their numbers. -/
  contents : Array (Option Content)
  /-- The containers that were met, in order. -/
  met : Array Nat := #[]
  deriving Inhabited

abbrev Make := StateT Making (Except Fault)

namespace Making

/-- What a node stands for, as far as it is known. -/
def content? (making : Making) (n : Nat) : Option Content :=
  (making.contents[n]?).join

/-- Notes what a node stands for. -/
def note (n : Nat) (content : Content) : Make Unit :=
  modify fun making =>
    { making with contents := making.contents.setIfInBounds n (some content) }

def noteEmpty (n : Nat) (content : Content) : Make Unit := do
  note n content
  modify fun making => { making with met := making.met.push n }

/-- Meets a node: a scalar has its value then, and a container is still empty. -/
def meet (n : Nat) : Make Unit := do
  let making ← get
  if (making.content? n).isSome then return
  match (making.graph.node n).tag with
  | .list => noteEmpty n (.list [])
  | .map => noteEmpty n (.map [])
  | .set => noteEmpty n (.set [])
  | .orderedMap | .pairs => noteEmpty n (.pairs [])
  | _ => note n (.scalar (← making.graph.scalarOf n))

/-- Meets the key and the value of an entry. No container is a key. -/
def meetEntry (entry : Nat × Nat) : Make Unit := do
  meet entry.1
  if ((← get).content? entry.1).any Content.isContainer then throw .malformed
  meet entry.2

def mergedEntries (n : Nat) : Make (List (Nat × Nat)) := do
  match (← get).graph.node n with
  | .mapping _ _ =>
      let graph ← MonadExcept.ofExcept ((← get).graph.merge n)
      modify fun making => { making with graph }
      return graph.entriesOf n
  | _ => throw .malformed

/-- The only entry of a mapping. -/
def onlyEntry (n : Nat) : Make (Nat × Nat) := do
  match (← get).graph.node n with
  | .mapping _ [(key, held)] =>
      meet key
      meet held
      return (key, held)
  | _ => throw .malformed

def fill (n : Nat) : Make Unit := do
  let node := (← get).graph.node n
  match node.tag, node with
  | .list, .sequence _ items =>
      items.forM meet
      note n (.list items)
  | .orderedMap, .sequence _ items | .pairs, .sequence _ items =>
      note n (.pairs (← items.mapM onlyEntry))
  | .map, _ =>
      let entries ← mergedEntries n
      entries.forM meetEntry
      note n (.map entries)
  | .set, _ =>
      let entries ← mergedEntries n
      entries.forM meetEntry
      note n (.set (entries.map (·.1)))
  | _, _ => throw .malformed

/-- Fills the containers in the order in which they were met, from number `index`
on. -/
def fillFrom : Nat → Nat → Make Unit
  | 0, _ => pure ()
  | fuel + 1, index => do
      match (← get).met[index]? with
      | none => return
      | some n =>
          fill n
          fillFrom fuel (index + 1)

/-- How often nodes are parts, by their numbers; the root counts once. -/
def uses (contents : Array (Option Content)) (root : Nat) : Array Nat :=
  let count (counts : Array Nat) (n : Nat) : Array Nat :=
    counts.setIfInBounds n (counts.getD n 0 + 1)
  contents.foldl (fun counts content => ((content.map Content.parts).getD []).foldl count counts)
    (count (Array.replicate contents.size 0) root)

/-- The value of a node inside of the nodes `around`. What stands in several places
has its number as its label, and so has what is inside of it. -/
def value (contents : Array (Option Content)) (uses : Array Nat) :
    Nat → List Nat → Bool → Nat → Value
  | 0, _, _, n => .again n
  | fuel + 1, around, isInside, n =>
      if around.contains n then .again n
      else
        let content := ((contents[n]?).join).getD (.scalar .null)
        let isInside := isInside || 2 ≤ uses.getD n 0
        let part := value contents uses fuel (n :: around) isInside
        let whole : Value :=
          match content with
          | .scalar held => held
          | .list items => .list (items.map part)
          | .map entries =>
              .map (Entries.ofPairs (entries.map fun (key, held) => (part key, part held)))
          | .set members =>
              let entries := Entries.ofPairs (members.map fun key => (part key, ()))
              .set (Slots.inOrder (entries.map (·.1)))
          | .pairs entries => .list (entries.map fun (key, held) => .pair (part key) (part held))
        if isInside && content.hasLabel then .shared n whole else whole

end Making

def Graph.value (graph : Graph) (root : Nat) : Except Fault Value := do
  let making : Making := { graph, contents := Array.replicate graph.size none }
  let make : Make Unit := do
    Making.meet root
    Making.fillFrom (graph.size + 1) 0
  let (_, making) ← make.run making
  return Making.value making.contents (Making.uses making.contents root) (graph.size + 1) [] false
    root

/-- The value of a YAML text; a text that holds nothing is null. -/
def read (text : String) : Except Fault Value := do
  match ← Graph.ofText text with
  | none => return .null
  | some (graph, root) => graph.value root

end Sysml.Yaml
