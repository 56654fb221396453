/-!
# Bytes

Byte sequences, and the texts whose UTF-8 form they are.

## Main definitions

* `Bytes` — byte sequences.
* `Bytes.ofString`, `Bytes.toString?` — the UTF-8 form of a text, and back.
* `Bytes.toStringLossy` — a text for every byte sequence, with U+FFFD for what is
  not UTF-8.
-/

namespace StagedLoad

/-- A byte sequence. -/
abbrev Bytes := List UInt8

namespace Bytes

/-- The UTF-8 form of a text. -/
def ofString (s : String) : Bytes := s.toUTF8.data.toList

/-- The text whose UTF-8 form the bytes are, if they are one. -/
def toString? (b : Bytes) : Option String := String.fromUTF8? ⟨b.toArray⟩

/-- What a first byte of a character promises: how many bytes follow, and between which
bounds the first of them lies. -/
def lead? (b : UInt8) : Option (Nat × UInt8 × UInt8) :=
  if b < 0x80 then some (0, 0x80, 0xBF)
  else if b < 0xC2 then none
  else if b < 0xE0 then some (1, 0x80, 0xBF)
  else if b = 0xE0 then some (2, 0xA0, 0xBF)
  else if b = 0xED then some (2, 0x80, 0x9F)
  else if b < 0xF0 then some (2, 0x80, 0xBF)
  else if b = 0xF0 then some (3, 0x90, 0xBF)
  else if b < 0xF4 then some (3, 0x80, 0xBF)
  else if b = 0xF4 then some (3, 0x80, 0x8F)
  else none

/-- At most `n` following bytes, of which the first lies between the bounds; and the rest. -/
def tails : Nat → UInt8 → UInt8 → Bytes → Bytes × Bytes
  | 0, _, _, rest => ([], rest)
  | _ + 1, _, _, [] => ([], [])
  | n + 1, low, high, b :: rest =>
    if low ≤ b ∧ b ≤ high then
      let (taken, rest') := tails n 0x80 0xBF rest
      (b :: taken, rest')
    else ([], b :: rest)

theorem length_tails_snd_le (n : Nat) (low high : UInt8) (l : Bytes) :
    (tails n low high l).2.length ≤ l.length := by
  induction n generalizing low high l with
  | zero => simp [tails]
  | succ n ih =>
    cases l with
    | nil => simp [tails]
    | cons b rest =>
      unfold tails
      split
      · exact Nat.le_trans (ih 0x80 0xBF rest) (Nat.le_succ _)
      · exact Nat.le_refl _

/-- The payload of a first byte, by the number of bytes that follow. -/
def payload (b : UInt8) (n : Nat) : Nat :=
  if n = 0 then b.toNat else b.toNat % Nat.pow 2 (6 - n)

/-- The code point of a first byte and its following bytes. -/
def codePoint (b : UInt8) (taken : Bytes) : Nat :=
  taken.foldl (fun acc t => acc * 64 + t.toNat % 64) (payload b taken.length)

/-- The characters of a byte sequence; each longest part that no character continues is one
U+FFFD. -/
def lossyChars : Bytes → List Char
  | [] => []
  | b :: rest =>
    match lead? b with
    | none => '\uFFFD' :: lossyChars rest
    | some (n, low, high) =>
      let t := tails n low high rest
      (if t.1.length = n then Char.ofNat (codePoint b t.1) else '\uFFFD') :: lossyChars t.2
  termination_by l => l.length
  decreasing_by
    · simp
    · exact Nat.lt_succ_of_le (length_tails_snd_le _ _ _ _)

/-- The text of a byte sequence, with U+FFFD for what is not UTF-8. -/
def toStringLossy (b : Bytes) : String := String.ofList (lossyChars b)

end Bytes

end StagedLoad
