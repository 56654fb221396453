import StagedLoad.Text.Bytes

/-!
# Percent encoding

A byte can stand in a URL as a percent sign and two hexadecimal digits.  Which characters
have to be written like that depends on the part of the URL.

## Main definitions

* `Percent.EncodeSet` — the characters that are encoded in a part of a URL.
* `Percent.encode`, `Percent.decode` — the operations on text and bytes.
-/

namespace StagedLoad.Percent

/-- A set of characters that are encoded in some part of a URL. -/
abbrev EncodeSet := Char → Bool

/-- Controls and what is not ASCII. -/
def controls : EncodeSet := fun c => c.toNat < 0x20 || 0x7E < c.toNat

/-- What is encoded in fragments. -/
def fragmentSet : EncodeSet := fun c => controls c || [' ', '"', '<', '>', '\x60'].contains c

/-- What is encoded in queries. -/
def querySet : EncodeSet := fun c => controls c || [' ', '"', '#', '<', '>'].contains c

/-- What is encoded in queries of web URLs. -/
def specialQuerySet : EncodeSet := fun c => querySet c || c == '\''

/-- What is encoded in paths. -/
def pathSet : EncodeSet := fun c =>
  querySet c || ['?', '^', '\x60', '\x7b', '\x7d'].contains c

/-- What is encoded in names and passwords. -/
def userinfoSet : EncodeSet := fun c =>
  pathSet c || ['/', ':', ';', '=', '@', '[', '\\', ']', '|'].contains c

/-- A hexadecimal digit in upper case. -/
def hexDigit (n : Nat) : Char := if n < 10 then Char.ofNat (48 + n) else Char.ofNat (55 + n)

/-- A byte as a percent sign and two digits. -/
def encodeByte (b : UInt8) : List Char :=
  ['%', hexDigit (b.toNat / 16), hexDigit (b.toNat % 16)]

/-- A character, encoded if it is in the set. -/
def encodeChar (set : EncodeSet) (c : Char) : List Char :=
  if set c then (Bytes.ofString (String.singleton c)).flatMap encodeByte else [c]

/-- A text in which the characters of a set are encoded. -/
def encode (set : EncodeSet) (cs : List Char) : List Char := cs.flatMap (encodeChar set)

/-- The value of a hexadecimal digit. -/
def hexValue? (b : UInt8) : Option Nat :=
  if 48 ≤ b ∧ b ≤ 57 then some (b.toNat - 48)
  else if 97 ≤ b ∧ b ≤ 102 then some (b.toNat - 87)
  else if 65 ≤ b ∧ b ≤ 70 then some (b.toNat - 55)
  else none

/-- The bytes that an encoded text stands for; a percent sign without two digits stands for
itself. -/
def decode : Bytes → Bytes
  | 37 :: a :: b :: rest =>
    match hexValue? a, hexValue? b with
    | some x, some y => UInt8.ofNat (x * 16 + y) :: decode rest
    | _, _ => 37 :: decode (a :: b :: rest)
  | b :: rest => b :: decode rest
  | [] => []

end StagedLoad.Percent
