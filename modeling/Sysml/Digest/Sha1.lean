/-!
# SHA-1

The 160-bit digest of a byte string: padding to whole blocks of sixty-four
bytes, a schedule of eighty words for each block, and eighty rounds over a
chain of five words.
-/

set_option autoImplicit false

namespace Sysml.Digest.Sha1

structure Chain where
  a : UInt32
  b : UInt32
  c : UInt32
  d : UInt32
  e : UInt32
  deriving DecidableEq, Repr

/-- The chain before the first block. -/
def Chain.initial : Chain :=
  ⟨0x67452301, 0xefcdab89, 0x98badcfe, 0x10325476, 0xc3d2e1f0⟩

def rotate (x : UInt32) (by' : UInt32) : UInt32 :=
  (x <<< by') ||| (x >>> (32 - by'))

/-- A number as `count` bytes, most significant first. -/
def bigEndian (count n : Nat) : List UInt8 :=
  match count with
  | 0 => []
  | count + 1 => UInt8.ofNat (n / Nat.pow 256 count % 256) :: bigEndian count n

/-- The message with a one bit, zeros and its length in bits appended. -/
def pad (message : List UInt8) : List UInt8 :=
  let length := message.length
  let zeros := (119 - length % 64) % 64
  message ++ 0x80 :: List.replicate zeros 0 ++ bigEndian 8 (8 * length)

/-- The bytes as words of four, most significant byte first. -/
def words : List UInt8 → List UInt32
  | a :: b :: c :: d :: rest =>
      ((a.toUInt32 <<< 24) ||| (b.toUInt32 <<< 16) ||| (c.toUInt32 <<< 8) ||| d.toUInt32) ::
        words rest
  | _ => []

/-- `count` further schedule words; `recent` holds those already made, latest first. -/
def extendSchedule : Nat → List UInt32 → List UInt32
  | 0, recent => recent
  | count + 1, recent =>
      let at' (i : Nat) : UInt32 := recent[i]?.getD 0
      let next := rotate (at' 2 ^^^ at' 7 ^^^ at' 13 ^^^ at' 15) 1
      extendSchedule count (next :: recent)

def schedule (block : List UInt32) : List UInt32 :=
  (extendSchedule 64 block.reverse).reverse

def roundMix (round : Nat) (b c d : UInt32) : UInt32 × UInt32 :=
  if round < 20 then ((b &&& c) ||| ((~~~b) &&& d), 0x5a827999)
  else if round < 40 then (b ^^^ c ^^^ d, 0x6ed9eba1)
  else if round < 60 then ((b &&& c) ||| (b &&& d) ||| (c &&& d), 0x8f1bbcdc)
  else (b ^^^ c ^^^ d, 0xca62c1d6)

def step (chain : Chain) (round : Nat) (word : UInt32) : Chain :=
  let (mixed, constant) := roundMix round chain.b chain.c chain.d
  ⟨rotate chain.a 5 + mixed + chain.e + constant + word,
    chain.a, rotate chain.b 30, chain.c, chain.d⟩

def rounds : Nat → Chain → List UInt32 → Chain
  | _, chain, [] => chain
  | round, chain, word :: rest => rounds (round + 1) (step chain round word) rest

def compress (chain : Chain) (block : List UInt32) : Chain :=
  let mixed := rounds 0 chain (schedule block)
  ⟨chain.a + mixed.a, chain.b + mixed.b, chain.c + mixed.c, chain.d + mixed.d, chain.e + mixed.e⟩

def compressAll (chain : Chain) (blocks : List UInt32) : Chain :=
  if 16 ≤ blocks.length then compressAll (compress chain (blocks.take 16)) (blocks.drop 16)
  else chain
termination_by blocks.length
decreasing_by simp only [List.length_drop]; omega

def digest (message : List UInt8) : List UInt8 :=
  let chain := compressAll Chain.initial (words (pad message))
  [chain.a, chain.b, chain.c, chain.d, chain.e].flatMap fun word => bigEndian 4 word.toNat

theorem bigEndian_length (count n : Nat) : (bigEndian count n).length = count := by
  induction count with
  | zero => rfl
  | succ count ih => simp [bigEndian, ih]

/-- A digest has twenty bytes. -/
theorem digest_length (message : List UInt8) : (digest message).length = 20 := by
  simp [digest, bigEndian_length]

end Sysml.Digest.Sha1
