/-!
# Bits

Compressed bytes as bits, the numbers in them, and codes whose words have lengths
of their own. Reading stops for one of two reasons, which are kept apart: bytes
that end early may have been good until then.
-/

set_option autoImplicit false

namespace Sysml.Archive

/-- Why no more can be read from compressed bytes. -/
inductive Stop where
  | endsEarly
  /-- The bytes cannot have come from compressing. -/
  | corrupt
  deriving DecidableEq, Repr, Inhabited

/-- What compressed bytes come to, as far as they go. -/
structure Expanded where
  octets : List UInt8
  /-- The compressed bytes tell that there is no more. -/
  isComplete : Bool
  deriving DecidableEq, Repr, Inhabited

abbrev Bits :=
  List Bool

namespace Bits

/-- The bits of bytes, from the least significant of each. -/
def ofLow (octets : List UInt8) : Bits :=
  octets.flatMap fun octet => (List.range 8).map octet.toNat.testBit

/-- The bits of bytes, from the most significant of each. -/
def ofHigh (octets : List UInt8) : Bits :=
  octets.flatMap fun octet => ((List.range 8).map octet.toNat.testBit).reverse

def split : Nat → Bits → Except Stop (List Bool × Bits)
  | 0, bits => .ok ([], bits)
  | _ + 1, [] => .error .endsEarly
  | width + 1, bit :: bits => do
      let (others, rest) ← split width bits
      return (bit :: others, rest)

/-- The number in the next bits, the least significant first. -/
def low (width : Nat) (bits : Bits) : Except Stop (Nat × Bits) := do
  let (digits, rest) ← split width bits
  return (digits.foldr (fun bit n => bit.toNat + 2 * n) 0, rest)

/-- The number in the next bits, the most significant first. -/
def high (width : Nat) (bits : Bits) : Except Stop (Nat × Bits) := do
  let (digits, rest) ← split width bits
  return (digits.foldl (fun n bit => 2 * n + bit.toNat) 0, rest)

end Bits

/-- A code: how many words it has of each length from one up, and its symbols in
the order of their words. -/
structure Code where
  counts : List Nat
  symbols : Array Nat
  deriving Repr, Inhabited

namespace Code

/-- The code in which each symbol has a word of its length, the longest of which
is `longest`. Length zero is for symbols that do not occur. -/
def ofLengths (longest : Nat) (lengths : List Nat) : Code :=
  let wordLengths := List.range' 1 longest
  let symbolsOf (length : Nat) := (lengths.zipIdx.filter (·.1 == length)).map (·.2)
  ⟨wordLengths.map lengths.count, (wordLengths.flatMap symbolsOf).toArray⟩

/-- The next symbol, with `word` the bits read so far, `first` the first word of
this length and `index` the place of its symbol. -/
def symbolFrom (symbols : Array Nat) :
    List Nat → Nat → Nat → Nat → Bits → Except Stop (Nat × Bits)
  | [], _, _, _, _ => .error .corrupt
  | _ :: _, _, _, _, [] => .error .endsEarly
  | count :: counts, word, first, index, bit :: rest =>
      let word := word + bit.toNat
      if word < first + count then
        match symbols[index + (word - first)]? with
        | some symbol => .ok (symbol, rest)
        | none => .error .corrupt
      else symbolFrom symbols counts (2 * word) (2 * (first + count)) (index + count) rest

def symbol (code : Code) (bits : Bits) : Except Stop (Nat × Bits) :=
  symbolFrom code.symbols code.counts 0 0 0 bits

end Code

end Sysml.Archive
