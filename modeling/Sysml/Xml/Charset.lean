import Sysml.Text.CodePage
import Sysml.Text.Lower
import Sysml.Xml.NameClass
import Sysml.Xml.Tree

/-!
# Characters of XML

The text of a document's bytes, by the byte order mark, by the first bytes or by
the declared encoding, white space, and the characters that a document may hold.
-/

set_option autoImplicit false

namespace Sysml.Xml

/-- White space, once line ends are line feeds. -/
def isSpace (c : Char) : Bool :=
  c == ' ' || c == '\t' || c == '\n' || c == '\r'

def isAllowed (c : Char) : Bool :=
  isSpace c || (0x20 ≤ c.toNat && c.toNat != 0xfffe && c.toNat != 0xffff)

def ofUnits : List Nat → Option (List Char)
  | [] => some []
  | high :: rest =>
      if 0xd800 ≤ high ∧ high < 0xdc00 then
        match rest with
        | low :: rest =>
            if 0xdc00 ≤ low ∧ low < 0xe000 then
              (ofUnits rest).map
                (Char.ofNat (0x10000 + (high - 0xd800) * 0x400 + (low - 0xdc00)) :: ·)
            else none
        | [] => none
      else if 0xdc00 ≤ high ∧ high < 0xe000 then none
      else (ofUnits rest).map (Char.ofNat high :: ·)

/-- The sixteen-bit units of bytes; a last byte without another is left out. -/
def units (bigEndian : Bool) : List UInt8 → List Nat
  | a :: b :: rest =>
      (if bigEndian then a.toNat * 256 + b.toNat else b.toNat * 256 + a.toNat) ::
        units bigEndian rest
  | _ => []

inductive Encoding where
  | utf8
  | utf16 (bigEndian : Bool)
  | page (chart : Text.CodePage)
  deriving DecidableEq, Repr, Inhabited

namespace Encoding

def decode (encoding : Encoding) (octets : List UInt8) : Option (List Char) :=
  match encoding with
  | .utf8 => (String.fromUTF8? ⟨octets.toArray⟩).map String.toList
  | .utf16 bigEndian => if octets.length % 2 = 0 then ofUnits (units bigEndian octets) else none
  | .page chart => chart.decode octets

/-- What the bytes look like as far as they are characters of ASCII. -/
def glance (encoding : Encoding) (octets : List UInt8) : List Char :=
  match encoding with
  | .utf16 bigEndian => (units bigEndian octets).map Char.ofNat
  | _ => octets.map fun octet => Char.ofNat octet.toNat

/-- The encoding that the first bytes show, whether they show it for sure, and
the bytes after a byte order mark. -/
def detect (octets : List UInt8) : Encoding × List UInt8 :=
  match octets with
  | 0xef :: 0xbb :: 0xbf :: rest => (.utf8, rest)
  | 0xfe :: 0xff :: rest => (.utf16 true, rest)
  | 0xff :: 0xfe :: rest => (.utf16 false, rest)
  | 0x00 :: 0x3c :: _ => (.utf16 true, octets)
  | 0x3c :: 0x00 :: _ => (.utf16 false, octets)
  | _ => (.utf8, octets)

/-- The encodings that every reader knows, by their names in lower case. -/
def standardNames : List (String × Encoding) :=
  [("utf-8", .utf8), ("us-ascii", .page .ascii), ("iso-8859-1", .page .latin)]

/-- The encoding of a declared name, for a text that was found to be in `found`. -/
def ofName (found : Encoding) (name : String) : Except Fault Encoding :=
  let lower := Text.lower name
  let wide : Bool :=
    match found with
    | .utf16 _ => true
    | _ => false
  if lower = "utf-16" then (if wide then .ok found else .error .malformed)
  else if lower = "utf-16be" then (if found = .utf16 true then .ok found else .error .malformed)
  else if lower = "utf-16le" then (if found = .utf16 false then .ok found else .error .malformed)
  else
    let set : Except Fault Encoding :=
      match standardNames.lookup lower with
      | some encoding => .ok encoding
      | none =>
          match Text.CharacterSet.ofName? name with
          | some (.page chart) => .ok (.page chart)
          | some .wide => .error .wideEncoding
          | some .foreign => .error .malformed
          | some .strict => .error .strictEncoding
          | some .whole => .error .wholeEncoding
          | none => .error .unknownEncoding
    match set with
    | .ok encoding => if wide then .error .malformed else .ok encoding
    | .error fault => .error fault

end Encoding

end Sysml.Xml
