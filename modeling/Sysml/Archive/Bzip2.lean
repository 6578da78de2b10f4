import Sysml.Archive.Bits

/-!
# Sorted blocks

Reading of bytes that are compressed block by block. The bytes of a block were
shortened where one repeats, put in the order of what follows each of them, told by
how lately each was used, and written in codes. Every block has a checksum.
-/

set_option autoImplicit false

namespace Sysml.Archive.Bzip2

/-- The register of the checksum after `count` zero bits have been shifted in. -/
def checkShift : Nat → UInt32 → UInt32
  | 0, register => register
  | count + 1, register =>
      checkShift count
        (if register >>> 31 = 1 then (register <<< 1) ^^^ 0x04c11db7 else register <<< 1)

def checksum (octets : List UInt8) : UInt32 :=
  let step (register : UInt32) (octet : UInt8) : UInt32 :=
    checkShift 8 (register ^^^ (octet.toUInt32 <<< 24))
  ~~~(octets.foldl step 0xffffffff)

def expect : List Nat → Bits → Except Stop Bits
  | [], bits => .ok bits
  | octet :: octets, bits => do
      let (found, rest) ← bits.high 8
      if found = octet then expect octets rest else .error .corrupt

/-- The bytes that occur in a block: first which sixteens have some, then which of
each sixteen do. -/
def alphabet (bits : Bits) : Except Stop (List UInt8 × Bits) := do
  let (sixteens, rest) ← bits.split 16
  let members (found : List UInt8 × Bits) (sixteen : Nat) : Except Stop (List UInt8 × Bits) := do
    let (flags, rest) ← found.2.split 16
    let used := (List.range 16).filter fun n => flags[n]?.getD false
    return (found.1 ++ used.map (fun n => .ofNat (16 * sixteen + n)), rest)
  ((List.range 16).filter fun n => sixteens[n]?.getD false).foldlM members ([], rest)

/-- How many bits are set before one that is not, at most `limit`. -/
def unary : Nat → Bits → Except Stop (Nat × Bits)
  | _, [] => .error .endsEarly
  | _, false :: rest => .ok (0, rest)
  | 0, true :: _ => .error .corrupt
  | limit + 1, true :: rest => do
      let (n, rest) ← unary limit rest
      return (n + 1, rest)

def toFront {α : Type} (place : Nat) (members : List α) : List α :=
  (members[place]?).toList ++ members.eraseIdx place

/-- Which code each part of a block is in: a number tells how lately the code was
used. -/
def selectors : Nat → List Nat → Bits → Except Stop (List Nat × Bits)
  | 0, _, bits => .ok ([], bits)
  | count + 1, recent, bits => do
      let (place, rest) ← unary (recent.length - 1) bits
      let recent := toFront place recent
      let (others, rest) ← selectors count recent rest
      return (recent.take 1 ++ others, rest)

def longestWord : Nat :=
  20

/-- The length of a word, by steps from the last one. -/
def wordLength : Nat → Nat → Bits → Except Stop (Nat × Bits)
  | 0, _, _ => .error .endsEarly
  | budget + 1, length, bits =>
      if length < 1 || longestWord < length then .error .corrupt
      else
        match bits with
        | [] => .error .endsEarly
        | false :: rest => .ok (length, rest)
        | [true] => .error .endsEarly
        | true :: false :: rest => wordLength budget (length + 1) rest
        | true :: true :: rest => wordLength budget (length - 1) rest

def wordLengths : Nat → Nat → Bits → Except Stop (List Nat × Bits)
  | 0, _, bits => .ok ([], bits)
  | count + 1, length, bits => do
      let (length, rest) ← wordLength (bits.length + 1) length bits
      let (others, rest) ← wordLengths count length rest
      return (length :: others, rest)

def codes (size : Nat) : Nat → Bits → Except Stop (List Code × Bits)
  | 0, bits => .ok ([], bits)
  | count + 1, bits => do
      let (first, rest) ← bits.high 5
      let (lengths, rest) ← wordLengths size first rest
      let (others, rest) ← codes size count rest
      return (Code.ofLengths longestWord lengths :: others, rest)

/-- How the sorted bytes of a block are being read. -/
structure Reading where
  /-- The codes of the parts to come. -/
  parts : List Code
  code : Code
  /-- The symbols that are left in this part. -/
  left : Nat := 0
  /-- How often the byte used last is still to be written. -/
  pending : Nat := 0
  /-- What the next digit of that number counts. -/
  weight : Nat := 1
  /-- The bytes of the block, those used last first. -/
  recent : List UInt8
  written : Array UInt8 := #[]
  deriving Inhabited

/-- The next symbol: a code counts for fifty. -/
def Reading.symbol (reading : Reading) (bits : Bits) : Except Stop (Nat × Reading × Bits) := do
  let (code, parts, left) ←
    match reading.left, reading.parts with
    | 0, [] => .error .corrupt
    | 0, code :: parts => pure (code, parts, 49)
    | left + 1, parts => pure (reading.code, parts, left)
  let (symbol, rest) ← code.symbol bits
  return (symbol, { reading with code, parts, left }, rest)

/-- The sorted bytes of a block, at most `limit`. The first two symbols are digits of
a number, the last one ends the block. -/
def sorted (limit size : Nat) : Nat → Reading → Bits → Except Stop (Array UInt8 × Bits)
  | 0, _, _ => .error .endsEarly
  | budget + 1, reading, bits => do
      let (symbol, reading, rest) ← reading.symbol bits
      if symbol < 2 then
        if 2097152 ≤ reading.weight then .error .corrupt
        let pending := reading.pending + (symbol + 1) * reading.weight
        sorted limit size budget { reading with pending, weight := 2 * reading.weight } rest
      else
        if limit < reading.written.size + reading.pending then .error .corrupt
        let written := reading.written ++
          Array.replicate reading.pending (reading.recent.headD 0)
        if symbol = size + 1 then return (written, rest)
        if limit ≤ written.size then .error .corrupt
        let recent := toFront (symbol - 1) reading.recent
        let written := written.push (recent.headD 0)
        sorted limit size budget { reading with pending := 0, weight := 1, recent, written } rest

/-- The place of each byte when the bytes are in order; equal ones stay as they
are. -/
def ranks (octets : Array UInt8) : Array Nat :=
  let counts := octets.foldl (fun counts octet => counts.modify octet.toNat (· + 1))
    (Array.replicate 256 0)
  let starts := counts.foldl (fun (starts, total) count => (starts.push total, total + count))
    ((#[] : Array Nat), 0)
  let step (found : Array Nat × Array Nat) (octet : UInt8) : Array Nat × Array Nat :=
    (found.1.push (found.2[octet.toNat]?.getD 0), found.2.modify octet.toNat (· + 1))
  (octets.foldl step (#[], starts.1)).1

/-- The bytes as they were before they were sorted; `origin` is the place of the one
that begins them. -/
def unsorted (octets : Array UInt8) (origin : Nat) : List UInt8 :=
  let places := ranks octets
  let next := (List.range octets.size).foldl
    (fun next place => next.setIfInBounds (places[place]?.getD 0) place)
    (Array.replicate octets.size 0)
  let step (found : Array UInt8 × Nat) (_ : Nat) : Array UInt8 × Nat :=
    (found.1.push (octets[found.2]?.getD 0), next[found.2]?.getD 0)
  ((List.range octets.size).foldl step (#[], next[origin]?.getD 0)).1.toList

/-- The bytes with repeated ones in full: after four equal ones a number tells how
many more there are. `last` is the byte before and how often it stood there. -/
def unshortened (last : UInt8 × Nat) (written : Array UInt8) : List UInt8 → Option (Array UInt8)
  | [] => if last.2 = 4 then none else some written
  | octet :: rest =>
      if last.2 = 4 then
        unshortened (last.1, 0) (written ++ Array.replicate octet.toNat last.1) rest
      else if octet = last.1 then unshortened (octet, last.2 + 1) (written.push octet) rest
      else unshortened (octet, 1) (written.push octet) rest

def mixedRuns : List Nat :=
  [
    619, 720, 127, 481, 931, 816, 813, 233, 566, 247, 985, 724, 205, 454, 863, 491, 741, 242,
    949, 214, 733, 859, 335, 708, 621, 574, 73, 654, 730, 472, 419, 436, 278, 496, 867, 210, 399,
    680, 480, 51, 878, 465, 811, 169, 869, 675, 611, 697, 867, 561, 862, 687, 507, 283, 482, 129,
    807, 591, 733, 623, 150, 238, 59, 379, 684, 877, 625, 169, 643, 105, 170, 607, 520, 932, 727,
    476, 693, 425, 174, 647, 73, 122, 335, 530, 442, 853, 695, 249, 445, 515, 909, 545, 703, 919,
    874, 474, 882, 500, 594, 612, 641, 801, 220, 162, 819, 984, 589, 513, 495, 799, 161, 604,
    958, 533, 221, 400, 386, 867, 600, 782, 382, 596, 414, 171, 516, 375, 682, 485, 911, 276, 98,
    553, 163, 354, 666, 933, 424, 341, 533, 870, 227, 730, 475, 186, 263, 647, 537, 686, 600,
    224, 469, 68, 770, 919, 190, 373, 294, 822, 808, 206, 184, 943, 795, 384, 383, 461, 404, 758,
    839, 887, 715, 67, 618, 276, 204, 918, 873, 777, 604, 560, 951, 160, 578, 722, 79, 804, 96,
    409, 713, 940, 652, 934, 970, 447, 318, 353, 859, 672, 112, 785, 645, 863, 803, 350, 139, 93,
    354, 99, 820, 908, 609, 772, 154, 274, 580, 184, 79, 626, 630, 742, 653, 282, 762, 623, 680,
    81, 927, 626, 789, 125, 411, 521, 938, 300, 821, 78, 343, 175, 128, 250, 170, 774, 972, 275,
    999, 639, 495, 78, 352, 126, 857, 956, 358, 619, 580, 124, 737, 594, 701, 612, 669, 112, 134,
    694, 363, 992, 809, 743, 168, 974, 944, 375, 748, 52, 600, 747, 642, 182, 862, 81, 344, 805,
    988, 739, 511, 655, 814, 334, 249, 515, 897, 955, 664, 981, 649, 113, 974, 459, 893, 228,
    433, 837, 553, 268, 926, 240, 102, 654, 459, 51, 686, 754, 806, 760, 493, 403, 415, 394, 687,
    700, 946, 670, 656, 610, 738, 392, 760, 799, 887, 653, 978, 321, 576, 617, 626, 502, 894,
    679, 243, 440, 680, 879, 194, 572, 640, 724, 926, 56, 204, 700, 707, 151, 457, 449, 797, 195,
    791, 558, 945, 679, 297, 59, 87, 824, 713, 663, 412, 693, 342, 606, 134, 108, 571, 364, 631,
    212, 174, 643, 304, 329, 343, 97, 430, 751, 497, 314, 983, 374, 822, 928, 140, 206, 73, 263,
    980, 736, 876, 478, 430, 305, 170, 514, 364, 692, 829, 82, 855, 953, 676, 246, 369, 970, 294,
    750, 807, 827, 150, 790, 288, 923, 804, 378, 215, 828, 592, 281, 565, 555, 710, 82, 896, 831,
    547, 261, 524, 462, 293, 465, 502, 56, 661, 821, 976, 991, 658, 869, 905, 758, 745, 193, 768,
    550, 608, 933, 378, 286, 215, 979, 792, 961, 61, 688, 793, 644, 986, 403, 106, 366, 905, 644,
    372, 567, 466, 434, 645, 210, 389, 550, 919, 135, 780, 773, 635, 389, 707, 100, 626, 958,
    165, 504, 920, 176, 193, 713, 857, 265, 203, 50, 668, 108, 645, 990, 626, 197, 510, 357, 358,
    850, 858, 364, 936, 638
  ]

/-- The bytes of a mixed block as they were: the lowest bit of the last byte but one of
each run was changed. `left` are the bytes left of this run and `runs` the lengths of
those to come, which start over after the last one. -/
def unmixed (left : Nat) (runs : List Nat) : List UInt8 → List UInt8
  | [] => []
  | octet :: rest =>
      let (left, runs) : Nat × List Nat :=
        match left, runs with
        | left + 1, runs => (left, runs)
        | 0, length :: runs => (length - 1, runs)
        | 0, [] => (mixedRuns.headD 1 - 1, mixedRuns.tail)
      (if left = 1 then octet ^^^ 1 else octet) :: unmixed left runs rest

/-- A block of which the opening was passed: its checksum, its bytes, and the bits
after it. -/
def block (limit : Nat) (bits : Bits) : Except Stop (UInt32 × List UInt8 × Bits) := do
  let (check, rest) ← bits.high 32
  let (isMixed, rest) ← rest.high 1
  let (origin, rest) ← rest.high 24
  if limit + 10 < origin then .error .corrupt
  let (used, rest) ← alphabet rest
  if used.isEmpty then .error .corrupt
  let (groups, rest) ← rest.high 3
  if groups < 2 || 6 < groups then .error .corrupt
  let (count, rest) ← rest.high 15
  if count = 0 then .error .corrupt
  let (chosen, rest) ← selectors count (List.range groups) rest
  let (codes, rest) ← codes (used.length + 2) groups rest
  let parts := (chosen.take 18002).map fun place => codes[place]?.getD default
  let reading : Reading := { parts, code := default, recent := used }
  let (octets, rest) ← sorted limit used.length (rest.length + 1) reading rest
  if octets.size ≤ origin then .error .corrupt
  let octets := unsorted octets origin
  match unshortened (0, 0) #[] (if isMixed = 1 then unmixed 0 [] octets else octets) with
  | none => .error .corrupt
  | some octets =>
      let octets := octets.toList
      if checksum octets = .ofNat check then return (.ofNat check, octets, rest)
      else .error .corrupt

def blockOrEnd (limit : Nat) (bits : Bits) :
    Except Stop (UInt32 × Option (List UInt8 × Bits)) := do
  match ← bits.high 8 with
  | (0x31, rest) =>
      let (check, octets, rest) ← block limit (← expect [0x41, 0x59, 0x26, 0x53, 0x59] rest)
      return (check, some (octets, rest))
  | (0x17, rest) =>
      let (check, _) ← (← expect [0x72, 0x45, 0x38, 0x50, 0x90] rest).high 32
      return (.ofNat check, none)
  | _ => .error .corrupt

/-- The blocks up to the end, at most `budget`; `check` is the checksum of those
before. -/
def blocks (limit : Nat) : Nat → UInt32 → List UInt8 → Bits → Option Expanded
  | 0, _, written, _ => some ⟨written, false⟩
  | budget + 1, check, written, bits =>
      match blockOrEnd limit bits with
      | .error .corrupt => none
      | .error .endsEarly => some ⟨written, false⟩
      | .ok (found, none) => if found = check then some ⟨written, true⟩ else none
      | .ok (found, some (octets, rest)) =>
          let check := ((check <<< 1) ||| (check >>> 31)) ^^^ found
          blocks limit budget check (written ++ octets) rest

/-- The size of blocks that the first bytes tell, and the bits after them. -/
def heading (bits : Bits) : Except Stop (Nat × Bits) := do
  let rest ← expect [0x42, 0x5a, 0x68] bits
  let (digit, rest) ← rest.high 8
  if 0x31 ≤ digit && digit ≤ 0x39 then return (100000 * (digit - 0x30), rest)
  else .error .corrupt

def expand? (octets : List UInt8) : Option Expanded :=
  let bits := Bits.ofHigh octets
  match heading bits with
  | .error .corrupt => none
  | .error .endsEarly => some ⟨[], false⟩
  | .ok (limit, rest) => blocks limit (bits.length + 1) 0 [] rest

end Sysml.Archive.Bzip2
