import Sysml.Text.Quoted

/-!
# UTF-8

Reading bytes as UTF-8. A fault names the bytes that cannot be read: a byte that
begins no character, a character that the next byte does not continue, or one
that the text ends in.
-/

set_option autoImplicit false

namespace Sysml.Text.Utf8

inductive Reason where
  | start
  | continuation
  | truncated
  deriving DecidableEq, Repr, Inhabited

def Reason.text : Reason → String
  | .start => "invalid start byte"
  | .continuation => "invalid continuation byte"
  | .truncated => "unexpected end of data"

/-- Bytes that cannot be read: where they begin, the bytes themselves, and why. -/
structure Fault where
  position : Nat
  octets : List UInt8
  reason : Reason
  deriving DecidableEq, Repr, Inhabited

def Fault.message (fault : Fault) : String :=
  let place :=
    match fault.octets with
    | [octet] =>
        " byte 0x" ++ String.ofList (hexDigits 2 octet.toNat) ++ " in position " ++
          toString fault.position
    | octets =>
        " bytes in position " ++ toString fault.position ++ "-" ++
          toString (fault.position + octets.length - 1)
  "'utf-8' codec can't decode" ++ place ++ ": " ++ fault.reason.text

/-- A fault in the bytes after `n` others. -/
def Fault.after (n : Nat) (fault : Fault) : Fault :=
  { fault with position := fault.position + n }

/-- The bytes that may follow the first byte of a character, the next one first.
A byte that begins no character has none; the first range keeps out characters
that have a shorter form, surrogates, and what lies beyond the last character. -/
def ranges? (first : Nat) : Option (List (Nat × Nat)) :=
  let tail := (0x80, 0xbf)
  if first < 0x80 then some []
  else if first < 0xc2 then none
  else if first < 0xe0 then some [tail]
  else if first = 0xe0 then some [(0xa0, 0xbf), tail]
  else if first = 0xed then some [(0x80, 0x9f), tail]
  else if first < 0xf0 then some [tail, tail]
  else if first = 0xf0 then some [(0x90, 0xbf), tail, tail]
  else if first < 0xf4 then some [tail, tail, tail]
  else if first = 0xf4 then some [(0x80, 0x8f), tail, tail]
  else none

/-- The bits that the first byte of a character gives, by how many bytes follow. -/
def leadBits (first following : Nat) : Nat :=
  match following with
  | 0 => first
  | 1 => first % 0x20
  | 2 => first % 0x10
  | _ => first % 0x08

/-- Takes the bytes that the ranges ask for. `taken` holds the bytes of the
character so far, last first, and `bits` what they say. -/
def follow (taken : List UInt8) (bits : Nat) :
    List (Nat × Nat) → List UInt8 → Except Fault (Nat × List UInt8)
  | [], rest => .ok (bits, rest)
  | _ :: _, [] => .error ⟨0, taken.reverse, .truncated⟩
  | (low, high) :: ranges, octet :: rest =>
      if low ≤ octet.toNat ∧ octet.toNat ≤ high then
        follow (octet :: taken) (bits * 0x40 + octet.toNat % 0x40) ranges rest
      else .error ⟨0, taken.reverse, .continuation⟩

/-- The characters of some bytes, `position` bytes into the text. Each character
uses up one byte at least, so `fuel` need not exceed their number. -/
def decodeFrom : Nat → Nat → List Char → List UInt8 → Except Fault (List Char)
  | 0, _, read, _ => .ok read.reverse
  | _ + 1, _, read, [] => .ok read.reverse
  | fuel + 1, position, read, first :: rest =>
      match ranges? first.toNat with
      | none => .error ⟨position, [first], .start⟩
      | some ranges =>
          match follow [first] (leadBits first.toNat ranges.length) ranges rest with
          | .error fault => .error (fault.after position)
          | .ok (bits, rest) =>
              decodeFrom fuel (position + 1 + ranges.length) (Char.ofNat bits :: read) rest

def decode (octets : List UInt8) : Except Fault (List Char) :=
  decodeFrom octets.length 0 [] octets

/-! ## Texts as bytes -/

theorem fromUTF8?_toUTF8 (text : String) : String.fromUTF8? text.toUTF8 = some text :=
  dif_pos text.isValidUTF8

theorem toList_loop (octets : ByteArray) (place : Nat) (before : List UInt8) :
    ByteArray.toList.loop octets place before =
      before.reverse ++ octets.data.toList.drop place := by
  unfold ByteArray.toList.loop
  split
  · next inside =>
    have found : octets.data.toList.drop place =
        octets.get! place :: octets.data.toList.drop (place + 1) := by
      rw [List.drop_eq_getElem_cons (by simpa using inside)]
      congr 1
      simp [ByteArray.get!, inside]
    rw [toList_loop, found]
    simp
  · next outside => rw [List.drop_eq_nil_of_le (by simpa using outside), List.append_nil]
termination_by octets.size - place

theorem toList_data (octets : ByteArray) : octets.toList = octets.data.toList := by
  rw [ByteArray.toList, toList_loop]
  rfl

/-- Bytes are those of their list. -/
theorem toArray_toList (octets : ByteArray) : (⟨octets.toList.toArray⟩ : ByteArray) = octets := by
  rw [toList_data]

end Sysml.Text.Utf8
