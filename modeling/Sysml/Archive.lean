import Sysml.Digest.Crc32

/-!
# Archives

ZIP archives as they are written. Each entry has a header of its own and one in the
directory at the end; both give its name, its lengths and its checksum. The bytes of
an entry stand in the archive as they are.
-/

set_option autoImplicit false

namespace Sysml

structure ArchiveEntry where
  name : String
  octets : List UInt8
  deriving DecidableEq, Repr, Inhabited

namespace Archive

def littleEndian : Nat → Nat → List UInt8
  | 0, _ => []
  | width + 1, n => UInt8.ofNat n :: littleEndian width (n / 256)

/-- The number that bytes hold, the least significant first. -/
def number : List UInt8 → Nat
  | [] => 0
  | octet :: rest => octet.toNat + 256 * number rest

theorem length_littleEndian (width n : Nat) : (littleEndian width n).length = width := by
  induction width generalizing n <;> simp [littleEndian, *]

theorem number_littleEndian (width n : Nat) (fits : n < Nat.pow 256 width) :
    number (littleEndian width n) = n := by
  induction width generalizing n with
  | zero =>
    have zero : n = 0 := Nat.lt_one_iff.mp fits
    simp [zero, littleEndian, number]
  | succ width ih =>
    have smaller : n / 256 < Nat.pow 256 width :=
      (Nat.div_lt_iff_lt_mul (by decide : 0 < 256)).2 fits
    simp only [littleEndian, number, UInt8.toNat_ofNat', ih _ smaller]
    omega

def nameOctets (name : String) : List UInt8 :=
  name.toUTF8.toList

/-- The first of January 1980, the earliest day that an archive knows. -/
def firstDay : Nat :=
  0x21

def nameFlag (name : String) : Nat :=
  if name.toList.all (·.toNat < 128) then 0 else 0x800

/-- What both headers of an entry say: flags, method, time, day, checksum and
lengths. -/
def facts (entry : ArchiveEntry) : List UInt8 :=
  littleEndian 2 (nameFlag entry.name) ++ littleEndian 2 0 ++ littleEndian 2 0 ++
    littleEndian 2 firstDay ++ littleEndian 4 (Digest.crc32 entry.octets).toNat ++
    littleEndian 4 entry.octets.length ++ littleEndian 4 entry.octets.length ++
    littleEndian 2 (nameOctets entry.name).length

def localRecord (entry : ArchiveEntry) : List UInt8 :=
  [0x50, 0x4b, 3, 4] ++ littleEndian 2 20 ++ facts entry ++ littleEndian 2 0 ++
    nameOctets entry.name ++ entry.octets

/-- The header in the directory of an entry whose record begins at `offset`. -/
def centralRecord (offset : Nat) (entry : ArchiveEntry) : List UInt8 :=
  [0x50, 0x4b, 1, 2] ++ littleEndian 2 0x314 ++ littleEndian 2 20 ++ facts entry ++
    littleEndian 2 0 ++ littleEndian 2 0 ++ littleEndian 2 0 ++ littleEndian 2 0 ++
    littleEndian 4 (0o600 * 65536) ++ littleEndian 4 offset ++ nameOctets entry.name

/-- The directory of entries whose records begin at `offset`. -/
def directory (offset : Nat) : List ArchiveEntry → List UInt8
  | [] => []
  | entry :: rest =>
      centralRecord offset entry ++ directory (offset + (localRecord entry).length) rest

/-- The record at the end: how many entries, and where the directory is. -/
def endRecord (count size offset : Nat) : List UInt8 :=
  [0x50, 0x4b, 5, 6] ++ littleEndian 2 0 ++ littleEndian 2 0 ++ littleEndian 2 count ++
    littleEndian 2 count ++ littleEndian 4 size ++ littleEndian 4 offset ++ littleEndian 2 0

def write (entries : List ArchiveEntry) : List UInt8 :=
  let records := entries.flatMap localRecord
  let central := directory 0 entries
  records ++ central ++ endRecord entries.length central.length records.length

end Archive

end Sysml
