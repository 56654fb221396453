/-!
# Doubles as integers times powers of two

A finite double is `± m · 2 ^ q` for naturals `m < 2 ^ 53` and integers `q`.  The
functions here decode that form from the bits and compute whole parts and
roundings of it in exact integer arithmetic, so that no rounding of the
processor's enters.

## Main definitions

* `Binary64.decode` — the value that the bits of a double stand for.
* `Binary64.scaled` — `m · 2 ^ q` as a quotient of two naturals.
* `roundDiv` — a quotient rounded to the nearest natural, by a rule for ties.
* `Binary64.round`, `Binary64.toNatSaturating` — rounding and cutting to naturals.
-/

namespace StagedLoad

/-- What becomes of a quotient that lies half way between two naturals. -/
inductive Tie
  /-- It goes to the even one of the two. -/
  | toEven
  /-- It goes to the greater of the two. -/
  | away
  deriving DecidableEq, Repr

/-- `num / den` rounded to the nearest natural. -/
def roundDiv (num den : Nat) (tie : Tie) : Nat :=
  let q := num / den
  let r := num % den
  if 2 * r < den then q
  else if den < 2 * r then q + 1
  else match tie with
    | .toEven => if q % 2 = 0 then q else q + 1
    | .away => q + 1

/-- The rounded quotient is at most half a unit below the quotient. -/
theorem two_mul_le_roundDiv (num : Nat) {den : Nat} (hden : 0 < den) (tie : Tie) :
    2 * num ≤ (2 * roundDiv num den tie + 1) * den := by
  have hsplit : den * (num / den) + num % den = num := Nat.div_add_mod num den
  have hlt : num % den < den := Nat.mod_lt _ hden
  unfold roundDiv
  simp only
  generalize num / den = q at *
  generalize num % den = r at *
  subst hsplit
  have hq : (2 * q + 1) * den = 2 * (den * q) + den := by
    rw [Nat.add_mul, Nat.one_mul, Nat.mul_assoc, Nat.mul_comm q]
  have hq' : (2 * (q + 1) + 1) * den = 2 * (den * q) + 3 * den := by
    rw [Nat.add_mul, Nat.mul_add, Nat.add_mul, Nat.mul_assoc, Nat.mul_comm q]; omega
  split
  · rw [hq]; omega
  · split
    · rw [hq']; omega
    · split
      · split
        · rw [hq]; omega
        · rw [hq']; omega
      · rw [hq']; omega

/-- The rounded quotient is at most half a unit above the quotient. -/
theorem roundDiv_le_two_mul (num den : Nat) (tie : Tie) :
    2 * roundDiv num den tie * den ≤ 2 * num + den := by
  have hsplit : den * (num / den) + num % den = num := Nat.div_add_mod num den
  unfold roundDiv
  simp only
  generalize num / den = q at *
  generalize num % den = r at *
  subst hsplit
  have hq : 2 * q * den = 2 * (den * q) := by rw [Nat.mul_assoc, Nat.mul_comm q]
  have hq' : 2 * (q + 1) * den = 2 * (den * q) + 2 * den := by
    rw [Nat.mul_add, Nat.add_mul, Nat.mul_assoc, Nat.mul_comm q]
  split
  · rw [hq]; omega
  · split
    · rw [hq']; omega
    · split
      · split
        · rw [hq]; omega
        · rw [hq']; omega
      · rw [hq']; omega

namespace Binary64

/-- The value that a double stands for. -/
inductive Value
  /-- Not a number. -/
  | nan
  /-- One of the two infinities. -/
  | infinite (negative : Bool)
  /-- The number `± mantissa · 2 ^ exponent`; zero keeps its sign. -/
  | finite (negative : Bool) (mantissa : Nat) (exponent : Int)
  deriving DecidableEq, Repr

/-- The weight of the sign bit in the word of a double, `2 ^ 63`. -/
def signWeight : Nat := 9223372036854775808

/-- The weight of the lowest bit of the exponent field, `2 ^ 52`; the fraction field is below
it. -/
def fractionWeight : Nat := 4503599627370496

/-- Reads a value off the three fields of the 64 bits. -/
def decodeBits (bits : Nat) : Value :=
  let negative : Bool := bits / signWeight == 1
  let field : Nat := bits / fractionWeight % 2048
  let fraction : Nat := bits % fractionWeight
  if field = 2047 then
    if fraction = 0 then .infinite negative else .nan
  else if field = 0 then .finite negative fraction (-1074)
  else .finite negative (fractionWeight + fraction) ((field : Int) - 1075)

/-- The value of a double. -/
def decode (x : Float) : Value := decodeBits x.toBits.toNat

/-- `mantissa · 2 ^ exponent` as numerator and denominator. -/
def scaled (mantissa : Nat) (exponent : Int) : Nat × Nat :=
  if 0 ≤ exponent then (mantissa * Nat.pow 2 exponent.toNat, 1)
  else (mantissa, Nat.pow 2 (-exponent).toNat)

theorem scaled_snd_pos (m : Nat) (q : Int) : 0 < (scaled m q).2 := by
  unfold scaled
  split
  · exact Nat.one_pos
  · exact Nat.pow_pos (by decide)

/-- Neither an infinity nor a NaN. -/
def isFinite (x : Float) : Bool :=
  match decode x with
  | .finite .. => true
  | _ => false

/-- The whole part of a non-negative double; `0` for negative ones and for what is
not finite. -/
def floorNat (x : Float) : Nat :=
  match decode x with
  | .finite false m q => (scaled m q).1 / (scaled m q).2
  | _ => 0

/-- The least natural that a non-negative double does not exceed; `0` for negative
ones and for what is not finite. -/
def ceilNat (x : Float) : Nat :=
  match decode x with
  | .finite false m q => ((scaled m q).1 + (scaled m q).2 - 1) / (scaled m q).2
  | _ => 0

/-- The nearest integer to a finite double, halves going away from zero. -/
def round (x : Float) : Int :=
  match decode x with
  | .finite negative m q =>
    let n : Int := roundDiv (scaled m q).1 (scaled m q).2 .away
    if negative then -n else n
  | _ => 0

/-- The greatest 64-bit word. -/
def maxWord : Nat := 18446744073709551615

/-- A natural cut down to the range of 64-bit words. -/
def clampWord (n : Nat) : Nat := min n maxWord

/-- The 64-bit word nearest to a double, halves going up: what lies beyond the range goes to
the near end of it, and what is not a number to zero. -/
def nearestWord (x : Float) : Nat :=
  match decode x with
  | .infinite false => maxWord
  | _ => clampWord (round x).toNat

/-- The double nearest to a natural. -/
def ofNat (n : Nat) : Float := if n ≤ maxWord then (UInt64.ofNat n).toFloat else Float.ofNat n

/-- Orders doubles totally by their bits: `-NaN`, then the numbers in ascending order
with `-0` before `0`, then `NaN`. -/
def totalKey (x : Float) : Int :=
  let bits := x.toBits.toNat
  if bits < signWeight then (bits : Int) else (signWeight : Int) - 1 - (bits : Int)

/-- The order of `totalKey`. -/
def totalLE (x y : Float) : Bool := totalKey x ≤ totalKey y

end Binary64

end StagedLoad
