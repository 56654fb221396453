import StagedLoad.Decimal.Reader

/-!
# Numbers of JSON

A number in a JSON text is a literal.  Literals without a point and an exponent that fit
64 bits are integers; all others are doubles, and those beyond the doubles are no numbers.

A double is computed in two roundings: the digits are read into a 64-bit word for as long
as they fit, and the word is multiplied with or divided by the power of ten that is left.

## Main definitions

* `Json.Literal` — a number as it is written.
* `Json.Number`, `Json.Literal.value?` — what it stands for.
* `Json.Number.same` — when two numbers are equal.
-/

namespace StagedLoad.Json

/-- A number as it is written. -/
structure Literal where
  /-- Whether it starts with a minus. -/
  negative : Bool
  /-- The digits before the point. -/
  whole : List Char
  /-- The digits after the point, if there is one. -/
  fraction : Option (List Char)
  /-- The exponent, if there is one. -/
  exponent : Option Int
  deriving DecidableEq, Repr, Inhabited

/-- A number of JSON. -/
inductive Number
  /-- An integer of 64 bits, with or without a sign. -/
  | integer (n : Int)
  /-- A double. -/
  | double (x : Float)
  deriving DecidableEq, Repr, Inhabited

/-- Integers equal integers and doubles equal doubles, never one the other. -/
def Number.same : Number → Number → Bool
  | integer a, integer b => a == b
  | double x, double y => x == y
  | _, _ => false

/-- A natural as a number. -/
def Number.ofNat (n : Nat) : Number := integer n

namespace Literal

/-- Reads digits behind a word for as long as the result fits 64 bits; the second part is
how many digits are left over. -/
def absorb : Nat → List Char → Nat × Nat
  | acc, [] => (acc, 0)
  | acc, c :: cs =>
    let next := StagedLoad.Literal.digitValue c + 10 * acc
    if next ≤ Binary64.maxWord then absorb next cs else (acc, cs.length + 1)

/-- A power of ten, rounded once. -/
def powerOfTen (e : Nat) : Float := Float.ofScientific 1 false e

/-- The greatest exponent of a power of ten among the doubles. -/
def greatestPower : Nat := 308

/-- A double divided by a power of ten, in steps of at most `greatestPower` places. -/
def scaleDown (x : Float) (e : Nat) : Float :=
  if e ≤ greatestPower then x / powerOfTen e
  else if x == 0 then x
  else scaleDown (x / powerOfTen greatestPower) (e - greatestPower)
  termination_by e
  decreasing_by
    have : 0 < greatestPower := by decide
    omega

/-- A double multiplied with a power of ten, if the result is finite. -/
def scaleUp? (x : Float) (e : Nat) : Option Float :=
  if e ≤ greatestPower then
    let y := x * powerOfTen e
    if Binary64.isFinite y then some y else none
  else if x == 0 then some x
  else none

/-- A word times a power of ten as a double, if there is one. -/
def scale? (word : Nat) (e : Int) : Option Float :=
  let x := Binary64.ofNat word
  if 0 ≤ e then scaleUp? x e.toNat else some (scaleDown x (-e).toNat)

/-- The double that a literal stands for. -/
def double? (l : Literal) : Option Float :=
  -- digits that do not fit the word count as zeros before the point and not at all behind it
  let (word, left) := absorb 0 l.whole
  let places := l.fraction.getD []
  let (word, leftPlaces) := absorb word places
  let e := (left : Int) - ((places.length - leftPlaces : Nat) : Int) + l.exponent.getD 0
  (scale? word e).map fun x => if l.negative then -x else x

/-- The integer that a literal stands for.  There is no negative zero among the integers. -/
def integer? (l : Literal) : Option Int :=
  if l.fraction.isSome || l.exponent.isSome then none
  else
    let n := StagedLoad.Literal.natOfDigits 0 l.whole
    if l.negative then (if 0 < n ∧ n ≤ 9223372036854775808 then some (-n) else none)
    else if n ≤ Binary64.maxWord then some n else none

/-- The number that a literal stands for, if it is not beyond the doubles. -/
def value? (l : Literal) : Option Number :=
  match l.integer? with
  | some n => some (.integer n)
  | none => l.double?.map .double

end Literal

end StagedLoad.Json
