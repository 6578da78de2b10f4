/-!
# CRC-32

The checksum of archive entries: the reflected polynomial `0xedb88320`, the
register starting and ending inverted.
-/

set_option autoImplicit false

namespace Sysml.Digest

/-- The register after `count` zero bits have been shifted in. -/
def crcShift : Nat → UInt32 → UInt32
  | 0, register => register
  | count + 1, register =>
      crcShift count
        (if register &&& 1 = 1 then (register >>> 1) ^^^ 0xedb88320 else register >>> 1)

def crc32 (bytes : List UInt8) : UInt32 :=
  ~~~(bytes.foldl (fun register byte => crcShift 8 (register ^^^ byte.toUInt32)) 0xffffffff)

end Sysml.Digest
