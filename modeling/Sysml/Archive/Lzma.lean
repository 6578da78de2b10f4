import Sysml.Archive.Bits

/-!
# Weighted bytes

Reading of bytes that are compressed as one long number. Each step of it is a
choice between two, and how likely each is follows from the choices before. The
choices tell bytes, and lengths to repeat from a distance back.
-/

set_option autoImplicit false

namespace Sysml.Archive.Lzma

/-- How far a number was read: it lies in a range, of which `code` counts from the
start. A weight tells how likely the first of two choices is. -/
structure Reading where
  range : UInt32 := 0xffffffff
  code : UInt32 := 0
  octets : List UInt8
  weights : Array UInt32
  deriving Inhabited

namespace Reading

/-- The reading with a range that is large enough to choose in. -/
def widen (reading : Reading) : Except Stop Reading :=
  if 0x1000000 ≤ reading.range then .ok reading
  else
    match reading.octets with
    | [] => .error .endsEarly
    | octet :: octets =>
        let range := reading.range <<< 8
        let code := (reading.code <<< 8) ||| octet.toUInt32
        .ok { reading with range, code, octets }

/-- A choice by the weight in a slot, which learns from it. -/
def bit (slot : Nat) (reading : Reading) : Except Stop (Nat × Reading) := do
  let ⟨range, code, octets, weights⟩ ← reading.widen
  let weight := weights[slot]?.getD 0
  let bound := (range >>> 11) * weight
  if code < bound then
    let weight := weight + ((2048 - weight) >>> 5)
    return (0, ⟨bound, code, octets, weights.setIfInBounds slot weight⟩)
  else
    let weight := weight - (weight >>> 5)
    return (1, ⟨range - bound, code - bound, octets, weights.setIfInBounds slot weight⟩)

def evenBits : Nat → Nat → Reading → Except Stop (Nat × Reading)
  | 0, n, reading => .ok (n, reading)
  | width + 1, n, reading => do
      let ⟨range, code, octets, weights⟩ ← reading.widen
      let range := range >>> 1
      let rest := code - range
      if rest < 0x80000000 then evenBits width (2 * n + 1) ⟨range, rest, octets, weights⟩
      else evenBits width (2 * n) ⟨range, code, octets, weights⟩

/-- A number of so many choices after those that `n` tells, of which each has weights
of its own for all choices before it. -/
def tree (slot : Nat) : Nat → Nat → Reading → Except Stop (Nat × Reading)
  | 0, n, reading => .ok (n, reading)
  | width + 1, n, reading => do
      let (chosen, reading) ← reading.bit (slot + n)
      tree slot width (2 * n + chosen) reading

def number (slot width : Nat) (reading : Reading) : Except Stop (Nat × Reading) := do
  let (n, reading) ← tree slot width 1 reading
  return (n - Nat.pow 2 width, reading)

/-- A number of so many choices, of which the first is for the least digit. -/
def reversed (slot width : Nat) (reading : Reading) : Except Stop (Nat × Reading) := do
  let (n, reading) ← number slot width reading
  return ((List.range width).foldl (fun found place => 2 * found + (n >>> place) % 2) 0, reading)

end Reading

/-- How the numbers of a stream are to be taken: how many bits of the byte before and
of the place choose the weights of a byte, and how many bits of the place choose
those of other steps. -/
structure Shape where
  before : Nat
  place : Nat
  step : Nat
  /-- How far back distances may reach. -/
  reach : Nat
  deriving DecidableEq, Repr, Inhabited

def Shape.ofOctets? : List UInt8 → Option Shape
  | [first, a, b, c, d] =>
      let n := first.toNat
      let reach := a.toNat + 256 * (b.toNat + 256 * (c.toNat + 256 * d.toNat))
      let shape := Shape.mk (n % 9) (n / 9 % 5) (n / 45) (max 4096 ((reach + 15) / 16 * 16))
      if n < 225 && shape.before + shape.place ≤ 4 then some shape else none
  | _ => none

/-- The first slot of each kind of weights; a step has one of twelve kinds and a
place. -/
def isCopySlot : Nat := 0
def isAgainSlot : Nat := 192
def isLastSlot : Nat := 204
def isSecondSlot : Nat := 216
def isThirdSlot : Nat := 228
def isLongSlot : Nat := 240
def distanceSlot : Nat := 432
def farSlot : Nat := 688
def nearSlot : Nat := 816
def lengthSlot : Nat := 832
def againLengthSlot : Nat := 1346
def octetSlot : Nat := 1860

def Shape.weights (shape : Shape) : Array UInt32 :=
  Array.replicate (octetSlot + 0x300 * Nat.pow 2 (shape.before + shape.place)) 1024

/-- What was read of a stream: the kind of the last steps, the last four distances,
the bytes, and the number still to be read. -/
structure Stream where
  kind : Nat := 0
  distances : List Nat := [0, 0, 0, 0]
  written : Array UInt8 := #[]
  reading : Reading
  deriving Inhabited

def Stream.back (stream : Stream) (distance : Nat) : Nat :=
  (stream.written[stream.written.size - 1 - distance]?.getD 0).toNat

/-- A byte after a copy: as long as it is like the byte that a further copy would give,
that byte chooses the weights too. -/
def likeByte (slot : Nat) : Nat → Nat → Nat → Reading → Except Stop (Nat × Reading)
  | 0, _, n, reading => .ok (n, reading)
  | width + 1, like, n, reading => do
      let expected := (like >>> width) % 2
      let (chosen, reading) ← reading.bit (slot + 0x100 * (1 + expected) + n)
      if chosen = expected then likeByte slot width like (2 * n + chosen) reading
      else reading.tree slot width (2 * n + chosen)

def octetStep (shape : Shape) (stream : Stream) (reading : Reading) : Except Stop Stream := do
  let place := stream.written.size % Nat.pow 2 shape.place
  let last := if stream.written.isEmpty then 0 else stream.back 0
  let chosen := place * Nat.pow 2 shape.before + last / Nat.pow 2 (8 - shape.before)
  let slot := octetSlot + 0x300 * chosen
  let (n, reading) ←
    if stream.kind < 7 then reading.tree slot 8 1
    else likeByte slot 8 (stream.back (stream.distances.headD 0)) 1 reading
  let kind :=
    if stream.kind < 4 then 0 else if stream.kind < 10 then stream.kind - 3 else stream.kind - 6
  return { stream with kind, written := stream.written.push (.ofNat (n - 0x100)), reading }

def lengthOf (slot place : Nat) (reading : Reading) : Except Stop (Nat × Reading) := do
  let (isLonger, reading) ← reading.bit slot
  if isLonger = 0 then return ← reading.number (slot + 2 + 8 * place) 3
  let (isLongest, reading) ← reading.bit (slot + 1)
  if isLongest = 0 then
    let (n, reading) ← reading.number (slot + 130 + 8 * place) 3
    return (n + 8, reading)
  else
    let (n, reading) ← reading.number (slot + 258) 8
    return (n + 16, reading)

def distanceOf (length : Nat) (reading : Reading) : Except Stop (Nat × Reading) := do
  let (size, reading) ← reading.number (distanceSlot + 64 * min length 3) 6
  if size < 4 then return (size, reading)
  let width := size / 2 - 1
  let base := (2 + size % 2) * Nat.pow 2 width
  if size < 14 then
    let (n, reading) ← reading.reversed (farSlot + base - size) width
    return (base + n, reading)
  else
    let (n, reading) ← reading.evenBits (width - 4) 0
    let (least, reading) ← reading.reversed nearSlot 4
    return (base + 16 * n + least, reading)

/-- The stream after a copy of so many bytes from the last distance. -/
def copyStep (shape : Shape) (count : Nat) (stream : Stream) : Except Stop Stream :=
  let distance := stream.distances.headD 0
  if distance < stream.written.size && distance < shape.reach then
    let again (written : Array UInt8) (_ : Nat) : Array UInt8 :=
      written.push (written[written.size - 1 - distance]?.getD 0)
    .ok { stream with written := (List.range count).foldl again stream.written }
  else .error .corrupt

/-- Which of the last four distances counts again. -/
def againOf (kind : Nat) (reading : Reading) : Except Stop (Nat × Reading) := do
  let (isOlder, reading) ← reading.bit (isSecondSlot + kind)
  if isOlder = 0 then return (1, reading)
  let (isOldest, reading) ← reading.bit (isThirdSlot + kind)
  return (2 + isOldest, reading)

/-- A step: the stream after it, unless it is the end. -/
def step (shape : Shape) (stream : Stream) : Except Stop (Option Stream) := do
  let kind := stream.kind
  let place := stream.written.size % Nat.pow 2 shape.step
  let (isCopy, reading) ← stream.reading.bit (isCopySlot + 16 * kind + place)
  if isCopy = 0 then return some (← octetStep shape stream reading)
  let (isAgain, reading) ← reading.bit (isAgainSlot + kind)
  if isAgain = 0 then
    let (length, reading) ← lengthOf lengthSlot place reading
    let (distance, reading) ← distanceOf length reading
    if distance = 0xffffffff then
      let reading ← reading.widen
      if reading.code = 0 then return none else .error .corrupt
    let distances := distance :: stream.distances.take 3
    let kind := if kind < 7 then 7 else 10
    return some (← copyStep shape (length + 2) { stream with kind, distances, reading })
  if stream.written.isEmpty then .error .corrupt
  let (isOther, reading) ← reading.bit (isLastSlot + kind)
  let (older, reading) ←
    if isOther = 1 then againOf kind reading
    else
      let (isLong, reading) ← reading.bit (isLongSlot + 16 * kind + place)
      if isLong = 0 then
        let kind := if kind < 7 then 9 else 11
        return some (← copyStep shape 1 { stream with kind, reading })
      pure (0, reading)
  let distances := stream.distances[older]?.getD 0 :: stream.distances.eraseIdx older
  let (length, reading) ← lengthOf againLengthSlot place reading
  let kind := if kind < 7 then 8 else 11
  return some (← copyStep shape (length + 2) { stream with kind, distances, reading })

/-- The steps up to the end, at most `budget`. -/
def steps (shape : Shape) : Nat → Stream → Option Expanded
  | 0, stream => some ⟨stream.written.toList, false⟩
  | budget + 1, stream =>
      match step shape stream with
      | .error .corrupt => none
      | .error .endsEarly => some ⟨stream.written.toList, false⟩
      | .ok none => some ⟨stream.written.toList, true⟩
      | .ok (some stream) => steps shape budget stream

/-- What a stream comes to. Its first byte is zero, and four more begin the number. -/
def stream? (shape : Shape) (octets : List UInt8) : Option Expanded :=
  match octets with
  | [] => some ⟨[], false⟩
  | 0 :: a :: b :: c :: d :: rest =>
      let code := [a, b, c, d].foldl
        (fun (code : UInt32) octet => (code <<< 8) ||| octet.toUInt32) 0
      steps shape (0x10000 * (octets.length + 1))
        { reading := { code, octets := rest, weights := shape.weights } }
  | first :: _ => if first = 0 then some ⟨[], false⟩ else none

/-- What bytes that are compressed so come to: two bytes tell nothing, two how many
more describe the stream. -/
def expand? (octets : List UInt8) : Option Expanded :=
  match octets with
  | _ :: _ :: low :: high :: rest =>
      let size := low.toNat + 256 * high.toNat
      if rest.isEmpty || rest.length ≤ size then some ⟨[], false⟩
      else do stream? (← Shape.ofOctets? (rest.take size)) (rest.drop size)
  | _ => some ⟨[], false⟩

end Sysml.Archive.Lzma
