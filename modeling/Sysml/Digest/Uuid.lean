import Sysml.Digest.Sha1
import Sysml.Text.Quoted

/-!
# Name-based identifiers

Universally unique identifiers of version 5: the first sixteen bytes of the
SHA-1 digest of a namespace followed by a name, with the version and variant
bits set, written as five groups of hexadecimal digits.
-/

set_option autoImplicit false

namespace Sysml.Digest

/-- The bytes with the version (5) and variant bits of an identifier set. -/
def stampVersion (bytes : List UInt8) : List UInt8 :=
  bytes.mapIdx fun i byte =>
    if i = 6 then (byte &&& 0x0f) ||| 0x50 else if i = 8 then (byte &&& 0x3f) ||| 0x80 else byte

def groupStarts : List Nat :=
  [4, 6, 8, 10]

def uuidText (bytes : List UInt8) : String :=
  String.ofList (bytes.mapIdx (fun i byte =>
    (if groupStarts.contains i then ['-'] else []) ++ Text.hexDigits 2 byte.toNat)).flatten

def uuid5 (space : List UInt8) (name : String) : String :=
  uuidText (stampVersion ((Sha1.digest (space ++ name.toUTF8.toList)).take 16))

end Sysml.Digest
