/-!
# Base64

Bytes as text of sixty-four characters. Writing breaks lines after 76
characters; reading passes over whatever is outside of the alphabet and stops
at the padding that completes a group.
-/

set_option autoImplicit false

namespace Sysml.Text.Base64

def char (n : Nat) : Char :=
  if n < 26 then Char.ofNat (65 + n)
  else if n < 52 then Char.ofNat (71 + n)
  else if n < 62 then Char.ofNat (n - 4)
  else if n = 62 then '+'
  else '/'

def value? (c : Char) : Option Nat :=
  if 'A' ≤ c && c ≤ 'Z' then some (c.toNat - 65)
  else if 'a' ≤ c && c ≤ 'z' then some (c.toNat - 71)
  else if '0' ≤ c && c ≤ '9' then some (c.toNat + 4)
  else if c = '+' then some 62
  else if c = '/' then some 63
  else none

def encode : List UInt8 → List Char
  | [] => []
  | [a] => [char (a.toNat / 4), char (a.toNat % 4 * 16), '=', '=']
  | [a, b] =>
      [char (a.toNat / 4), char (a.toNat % 4 * 16 + b.toNat / 16), char (b.toNat % 16 * 4), '=']
  | a :: b :: c :: rest =>
      char (a.toNat / 4) :: char (a.toNat % 4 * 16 + b.toNat / 16) ::
        char (b.toNat % 16 * 4 + c.toNat / 64) :: char (c.toNat % 64) :: encode rest

/-- Lines of a width, each with a line feed. `room` is what is left of the line
under way. -/
def wrap (width : Nat) (room : Nat) : List Char → List Char
  | [] => if room < width then ['\n'] else []
  | c :: rest =>
      if room = 0 then '\n' :: c :: wrap width (width - 1) rest else c :: wrap width (room - 1) rest

def encodeLines (octets : List UInt8) : String :=
  String.ofList (wrap 76 76 (encode octets))

/-- The bytes of a text. `group` counts the characters of the group under way,
`bits` holds those not yet part of a byte and `pads` counts the padding. -/
def decodeFrom (group bits pads : Nat) : List Char → Option (List UInt8)
  | [] => if group = 0 then some [] else none
  | c :: rest =>
      if c = '=' then
        if 2 ≤ group then
          if 4 ≤ group + pads + 1 then some [] else decodeFrom group bits (pads + 1) rest
        else decodeFrom group bits pads rest
      else
        match value? c, group with
        | none, _ => decodeFrom group bits pads rest
        | some n, 0 => decodeFrom 1 n 0 rest
        | some n, 1 => (decodeFrom 2 (n % 16) 0 rest).map (UInt8.ofNat (bits * 4 + n / 16) :: ·)
        | some n, 2 => (decodeFrom 3 (n % 4) 0 rest).map (UInt8.ofNat (bits * 16 + n / 4) :: ·)
        | some n, _ => (decodeFrom 0 0 0 rest).map (UInt8.ofNat (bits * 64 + n) :: ·)

/-- The bytes of a text, unless its last group is incomplete. -/
def decode? (text : String) : Option (List UInt8) :=
  decodeFrom 0 0 0 text.toList

end Sysml.Text.Base64
