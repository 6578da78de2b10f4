import Sysml.Archive.Bits

/-!
# Deflated bytes

Reading of bytes that are compressed as blocks: bytes as they are, or symbols in
codes of the block's own or of a fixed choice. A symbol is a byte, the end of the
block, or a length to repeat from a distance back.
-/

set_option autoImplicit false

namespace Sysml.Archive.Deflate

/-- The words of each length that are left when shorter symbols took theirs; none
if there are fewer than symbols. -/
def wordsLeft? : Nat → List Nat → Option Nat
  | left, [] => some left
  | left, count :: counts => if 2 * left < count then none else wordsLeft? (2 * left - count) counts

/-- The code of word lengths. Every word has to have a symbol, but a code for
`sparse` use may have a single word of one bit, or none. -/
def codeOf (sparse : Bool) (lengths : List Nat) : Except Stop Code :=
  let longest := max 1 (lengths.foldl max 0)
  let code := Code.ofLengths longest lengths
  match wordsLeft? 1 code.counts with
  | none => .error .corrupt
  | some left => if left = 0 || (sparse && longest = 1) then .ok code else .error .corrupt

/-- A value that a symbol begins: the least one, and how many bits tell it from the
others. -/
structure Interval where
  base : Nat
  width : Nat
  deriving Repr, Inhabited

/-- The intervals that follow each other from `base`, of these widths. -/
def intervals : Nat → List Nat → List Interval
  | _, [] => []
  | base, width :: widths => ⟨base, width⟩ :: intervals (base + Nat.pow 2 width) widths

/-- The lengths to repeat, for the symbols from 257 on. The last one is for the
greatest length alone. -/
def repeatLengths : List Interval :=
  intervals 3
      [0, 0, 0, 0, 0, 0, 0, 0, 1, 1, 1, 1, 2, 2, 2, 2, 3, 3, 3, 3, 4, 4, 4, 4, 5, 5, 5, 5] ++
    [⟨258, 0⟩]

def repeatDistances : List Interval :=
  intervals 1
    [0, 0, 0, 0, 1, 1, 2, 2, 3, 3, 4, 4, 5, 5, 6, 6, 7, 7, 8, 8, 9, 9, 10, 10, 11, 11, 12, 12,
      13, 13]

def valueOf (choices : List Interval) (symbol : Nat) (bits : Bits) : Except Stop (Nat × Bits) :=
  match choices[symbol]? with
  | none => .error .corrupt
  | some interval => do
      let (n, rest) ← bits.low interval.width
      return (interval.base + n, rest)

/-- Writes bytes again that lie a distance back, one after the other: they may be
among those written. -/
def repeated (distance : Nat) : Nat → Array UInt8 → Array UInt8
  | 0, written => written
  | count + 1, written =>
      repeated distance count (written.push (written[written.size - distance]?.getD 0))

/-- What a symbol with its value says. -/
inductive Token where
  | octet (octet : UInt8)
  | endOfBlock
  | copy (count distance : Nat)
  deriving DecidableEq, Repr, Inhabited

def token (lengths distances : Code) (bits : Bits) : Except Stop (Token × Bits) := do
  let (symbol, rest) ← lengths.symbol bits
  if symbol < 256 then return (.octet (.ofNat symbol), rest)
  if symbol = 256 then return (.endOfBlock, rest)
  let (count, rest) ← valueOf repeatLengths (symbol - 257) rest
  let (place, rest) ← distances.symbol rest
  let (distance, rest) ← valueOf repeatDistances place rest
  return (.copy count distance, rest)

/-- What was written so far, and the bits after the block unless they ended within
it. There is nothing if the bits are corrupt. -/
abbrev Progress :=
  Option (Array UInt8 × Option Bits)

/-- The tokens up to the end of a block, at most `budget`. -/
def tokens (lengths distances : Code) : Nat → Array UInt8 → Bits → Progress
  | 0, written, _ => some (written, none)
  | budget + 1, written, bits =>
      match token lengths distances bits with
      | .error .corrupt => none
      | .error .endsEarly => some (written, none)
      | .ok (.octet octet, rest) => tokens lengths distances budget (written.push octet) rest
      | .ok (.endOfBlock, rest) => some (written, some rest)
      | .ok (.copy count distance, rest) =>
          if written.size < distance then none
          else tokens lengths distances budget (repeated distance count written) rest

def plain : Nat → Array UInt8 → Bits → Progress
  | 0, written, bits => some (written, some bits)
  | count + 1, written, bits =>
      match bits.low 8 with
      | .ok (octet, rest) => plain count (written.push (.ofNat octet)) rest
      | .error _ => some (written, none)

/-- The word lengths of a block that has no code of its own. -/
def fixedLengths : List Nat :=
  .replicate 144 8 ++ .replicate 112 9 ++ .replicate 24 7 ++ .replicate 8 8

/-- The order in which a block gives the word lengths of the code that its codes are
written in. -/
def lengthOrder : List Nat :=
  [16, 17, 18, 0, 8, 7, 9, 6, 10, 5, 11, 4, 12, 3, 13, 2, 14, 1, 15]

def numbers (width : Nat) : Nat → Bits → Except Stop (List Nat × Bits)
  | 0, bits => .ok ([], bits)
  | count + 1, bits => do
      let (n, rest) ← bits.low width
      let (others, rest) ← numbers width count rest
      return (n :: others, rest)

/-- Word lengths in a code, up to `wanted` of them: symbols beyond fifteen repeat the
last one or zero. At most `budget` symbols. -/
def writtenLengths (code : Code) (wanted : Nat) :
    Nat → List Nat → Bits → Except Stop (List Nat × Bits)
  | 0, _, _ => .error .endsEarly
  | budget + 1, lengths, bits =>
      if lengths.length = wanted then .ok (lengths, bits)
      else if wanted < lengths.length then .error .corrupt
      else do
        let (symbol, rest) ← code.symbol bits
        if symbol < 16 then writtenLengths code wanted budget (lengths ++ [symbol]) rest
        else
          let width := if symbol = 16 then 2 else if symbol = 17 then 3 else 7
          let least := if symbol = 18 then 11 else 3
          let (more, rest) ← rest.low width
          match if symbol = 16 then lengths.getLast? else some 0 with
          | none => .error .corrupt
          | some last =>
              writtenLengths code wanted budget (lengths ++ .replicate (least + more) last) rest

/-- The codes that a block begins with, for lengths and for distances. -/
def ownCodes (bits : Bits) : Except Stop (Code × Code × Bits) := do
  let (more, rest) ← bits.low 5
  let (places, rest) ← rest.low 5
  let (listed, rest) ← rest.low 4
  let lengthCount := 257 + more
  let placeCount := 1 + places
  if 286 < lengthCount || 30 < placeCount then .error .corrupt
  let (given, rest) ← numbers 3 (listed + 4) rest
  let widths := lengthOrder.zip given
  let code ← codeOf false ((List.range 19).map fun n => (widths.lookup n).getD 0)
  let (all, rest) ← writtenLengths code (lengthCount + placeCount) (bits.length + 1) [] rest
  let (lengths, places) := all.splitAt lengthCount
  if lengths[256]? == some 0 then .error .corrupt
  return (← codeOf true lengths, ← codeOf true places, rest)

inductive Block where
  | plain (count : Nat)
  | coded (lengths distances : Code)
  deriving Repr, Inhabited

/-- The opening of a block: whether the block is the last one, what it holds, and the
bits after the opening. Bytes that are kept as they are begin where a whole number of
bytes is still to be read. -/
def opening (bits : Bits) : Except Stop (Bool × Block × Bits) := do
  let (last, rest) ← bits.low 1
  let (kind, rest) ← rest.low 2
  match kind with
  | 0 =>
      let (_, rest) ← rest.low (rest.length % 8)
      let (count, rest) ← rest.low 16
      let (inverse, rest) ← rest.low 16
      if count + inverse = 0xffff then return (last == 1, .plain count, rest) else .error .corrupt
  | 1 =>
      let lengths ← codeOf true fixedLengths
      let distances ← codeOf true (.replicate 32 5)
      return (last == 1, .coded lengths distances, rest)
  | 2 =>
      let (lengths, distances, rest) ← ownCodes rest
      return (last == 1, .coded lengths distances, rest)
  | _ => .error .corrupt

/-- The blocks up to the last one, at most `budget`. -/
def blocks : Nat → Array UInt8 → Bits → Option Expanded
  | 0, written, _ => some ⟨written.toList, false⟩
  | budget + 1, written, bits =>
      match opening bits with
      | .error .corrupt => none
      | .error .endsEarly => some ⟨written.toList, false⟩
      | .ok (isLast, block, rest) => do
          let (written, rest?) ←
            match block with
            | .plain count => plain count written rest
            | .coded lengths distances => tokens lengths distances (rest.length + 1) written rest
          match rest? with
          | none => return ⟨written.toList, false⟩
          | some rest =>
              if isLast then return ⟨written.toList, true⟩ else blocks budget written rest

def inflate? (octets : List UInt8) : Option Expanded :=
  let bits := Bits.ofLow octets
  blocks (bits.length + 1) #[] bits

end Sysml.Archive.Deflate
