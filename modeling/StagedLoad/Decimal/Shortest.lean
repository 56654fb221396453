import StagedLoad.Decimal.Binary64

/-!
# Shortest decimals

The decimal that stands for a double in texts: among the decimals that read back
as the double, one with the fewest digits, and of those the nearest to it.

A decimal reads back as `m · 2 ^ q` when it lies in the interval half way to the
two neighbouring doubles, whose ends belong to it when `m` is even.  The decimals
with `n` digits form a grid, and if any point of the grid lies in the interval, so
does one of the two that enclose the double.  The search walks through the grids
from one digit up.

## Main definitions

* `Decimal` — digits and a decimal exponent.
* `Interval` — the numbers that read back as a double, as integers over a common
  denominator.
* `Binary64.shortest` — the search.
-/

namespace StagedLoad

/-- The decimal `digits · 10 ^ exponent`. -/
structure Decimal where
  /-- The significant digits, as one natural. -/
  digits : Nat
  /-- The power of ten that the last digit counts. -/
  exponent : Int
  deriving DecidableEq, Repr, Inhabited

namespace Decimal

/-- The digits of a natural, most significant first. -/
def digitChars (n : Nat) : List Char := Nat.toDigits 10 n

/-- How many digits a natural has. -/
def width (n : Nat) : Nat := (digitChars n).length

/-- A decimal without zeros at the end of its digits, fuel bounding their number. -/
def dropZeros : Nat → Decimal → Decimal
  | 0, d => d
  | fuel + 1, d =>
    if d.digits ≠ 0 ∧ d.digits % 10 = 0 then dropZeros fuel ⟨d.digits / 10, d.exponent + 1⟩ else d

/-- A decimal without zeros at the end of its digits. -/
def normalize (d : Decimal) : Decimal := dropZeros (width d.digits) d

/-- The decimal exponent of the first digit: `d.ddd · 10 ^ leading`. -/
def leading (d : Decimal) : Int := d.exponent + (width d.digits : Int) - 1

end Decimal

/-- The numbers from `low / den` to `high / den` around `value / den`. -/
structure Interval where
  /-- Numerator of the lower end. -/
  low : Nat
  /-- Numerator of the number in the middle. -/
  value : Nat
  /-- Numerator of the upper end. -/
  high : Nat
  /-- The common denominator. -/
  den : Nat
  /-- Whether the two ends belong to the interval. -/
  closed : Bool
  deriving Repr

namespace Interval

/-- Whether `n · unitNum / unitDen` lies in the interval. -/
def contains (i : Interval) (n unitNum unitDen : Nat) : Bool :=
  let x := n * unitNum * i.den
  if i.closed then i.low * unitDen ≤ x && x ≤ i.high * unitDen
  else i.low * unitDen < x && x < i.high * unitDen

/-- Numerator and denominator of the unit `10 ^ e`. -/
def gridUnit (e : Int) : Nat × Nat :=
  if 0 ≤ e then (Nat.pow 10 e.toNat, 1) else (1, Nat.pow 10 (-e).toNat)

/-- The point of the grid with unit `10 ^ e` that lies in the interval and is nearest
to its middle; of two equally near ones the even one. -/
def gridPoint? (i : Interval) (e : Int) : Option Nat :=
  let (un, ud) := gridUnit e
  let below := i.value * ud / (un * i.den)
  let above := below + 1
  let toBelow := i.value * ud - below * un * i.den
  let toAbove := above * un * i.den - i.value * ud
  let belowIn := 0 < below && i.contains below un ud
  let aboveIn := i.contains above un ud
  match belowIn, aboveIn with
  -- both enclosing points read back: the nearer one stands for the double
  | true, true =>
    if toBelow < toAbove then some below
    else if toAbove < toBelow then some above
    else if below % 2 = 0 then some below else some above
  | true, false => some below
  | false, true => some above
  | false, false => none

/-- Walks the grids with `n, n + 1, …` digits; the first with a point in the interval wins. -/
def search (i : Interval) (leading : Int) : Nat → Nat → Option Decimal
  | 0, _ => none
  | fuel + 1, n =>
    let e := leading - (n : Int) + 1
    match i.gridPoint? e with
    | some d => some ⟨d, e⟩
    | none => search i leading fuel (n + 1)

end Interval

namespace Binary64

/-- The numbers that read back as `m · 2 ^ q`, with `m` positive: up to half way to the
neighbours, of which the lower one is nearer at a power of two. -/
def interval (m : Nat) (q : Int) : Interval :=
  -- everything is counted in quarters of the last place
  let lower := if m = fractionWeight ∧ q ≠ -1074 then 1 else 2
  let (factor, den) := scaled 1 (q - 2)
  { low := (4 * m - lower) * factor
    value := 4 * m * factor
    high := (4 * m + 2) * factor
    den := den
    closed := m % 2 = 0 }

/-- The decimal exponent of the first digit of `num / den`, both positive. -/
def leadingExponent (num den : Nat) : Int :=
  if den ≤ num then (Decimal.width (num / den) : Int) - 1
  else
    let k := Decimal.width (den / num)
    if den ≤ num * Nat.pow 10 (k - 1) then -((k : Int) - 1) else -(k : Int)

/-- The shortest decimal that reads back as `m · 2 ^ q`, with `m` positive. -/
def shortest (m : Nat) (q : Int) : Decimal :=
  let i := interval m q
  ((i.search (leadingExponent i.value i.den) 20 1).getD ⟨m, 0⟩).normalize

end Binary64

end StagedLoad
