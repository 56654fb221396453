import StagedLoad.Decimal.Binary64

/-!
# Numbers of statistics

Statistics are computed in doubles.  What is true of them up to rounding is said of
the same computations in exact numbers, so both are instances of one class and the
statistics are written once for the class.

## Main definitions

* `Scalar` — the operations that statistics need.
* the instances for `Float`, which a run uses, and for `Rat`, which is exact.
-/

namespace StagedLoad

/-- Numbers that statistics are computed in. -/
class Scalar (α : Type) extends Add α, Sub α, Mul α, Div α where
  /-- A natural as a number. -/
  ofNat : Nat → α
  /-- Strictly below. -/
  lt : α → α → Bool
  /-- The order that sorts observations; it tells all numbers apart. -/
  le : α → α → Bool
  /-- Neither infinite nor undefined. -/
  isFinite : α → Bool
  /-- The whole part of a number that is not negative. -/
  floor : α → Nat
  /-- The least natural not below a number. -/
  ceil : α → Nat
  /-- The nearest natural, halves going up; zero for what is below. -/
  nearest : α → Nat

instance : Scalar Float where
  ofNat := Binary64.ofNat
  lt x y := x < y
  le := Binary64.totalLE
  isFinite := Binary64.isFinite
  floor := Binary64.floorNat
  ceil := Binary64.ceilNat
  nearest := Binary64.nearestWord

instance : Scalar Rat where
  ofNat n := n
  lt x y := decide (x < y)
  le x y := decide (x ≤ y)
  isFinite _ := true
  floor x := x.floor.toNat
  ceil x := x.ceil.toNat
  nearest x := (x + 1 / 2).floor.toNat

end StagedLoad
