import StagedLoad.Decimal.Shortest

/-!
# Doubles as text

Two ways to write a double: with the fewest digits that read back, laid out by a
`Layout`, or with a fixed number of decimal places.

## Main definitions

* `Layout` — where positional notation ends, how exponents look, how the special
  values are spelled.
* `Binary64.render` — a double in a layout.
* `Binary64.fixed` — a double with a fixed number of places, the exact value rounded
  with ties to even.
-/

namespace StagedLoad

/-- How a format writes the shortest decimal of a double. -/
structure Layout where
  /-- The least and the greatest exponent of the first digit that positional notation is
  used for; `none` when there is no other notation. -/
  positional : Option (Int × Int)
  /-- Whether whole numbers in positional notation end in `.0`. -/
  pointZero : Bool
  /-- Whether an exponent above zero carries a plus sign. -/
  plus : Bool
  /-- The text of what is not a number. -/
  nan : String
  /-- The text of positive infinity. -/
  infinity : String
  /-- The text of negative infinity. -/
  negativeInfinity : String
  deriving Repr

namespace Decimal

/-- Positional notation: `digits · 10 ^ exponent` without an exponent mark. -/
def positional (d : Decimal) (pointZero : Bool) : List Char :=
  let ds := digitChars d.digits
  if 0 ≤ d.exponent then
    ds ++ List.replicate d.exponent.toNat '0' ++ if pointZero then ['.', '0'] else []
  else
    let places := (-d.exponent).toNat
    let padded := List.replicate (places + 1 - ds.length) '0' ++ ds
    padded.take (padded.length - places) ++ '.' :: padded.drop (padded.length - places)

/-- Scientific notation: one digit before the point, none after it if there is no other. -/
def scientific (d : Decimal) (plus : Bool) : List Char :=
  let mantissa := match digitChars d.digits with
    | [] => []
    | [c] => [c]
    | c :: rest => c :: '.' :: rest
  let e := d.leading
  let mark := if e < 0 then ['e', '-'] else if plus then ['e', '+'] else ['e']
  mantissa ++ mark ++ digitChars e.natAbs

/-- A decimal in a layout. -/
def render (d : Decimal) (l : Layout) : List Char :=
  match l.positional with
  | none => d.positional l.pointZero
  | some (least, greatest) =>
    if least ≤ d.leading ∧ d.leading ≤ greatest then d.positional l.pointZero
    else d.scientific l.plus

end Decimal

namespace Binary64

/-- The minus sign of a negative number. -/
def sign (negative : Bool) : List Char := if negative then ['-'] else []

/-- The characters of a double in a layout. -/
def renderChars (x : Float) (l : Layout) : List Char :=
  match decode x with
  | .nan => l.nan.toList
  | .infinite false => l.infinity.toList
  | .infinite true => l.negativeInfinity.toList
  | .finite negative 0 _ => sign negative ++ Decimal.render ⟨0, 0⟩ l
  | .finite negative m q => sign negative ++ (shortest m q).render l

/-- A double in a layout. -/
def render (x : Float) (l : Layout) : String := String.ofList (renderChars x l)

/-- `m · 2 ^ q` with the given number of decimal places, ties going to even. -/
def fixedChars (m : Nat) (q : Int) (places : Nat) : List Char :=
  let (num, den) := scaled m q
  let n := roundDiv (num * Nat.pow 10 places) den .toEven
  if places = 0 then Decimal.digitChars n
  else Decimal.positional ⟨n, -(places : Int)⟩ false

/-- A double with a fixed number of decimal places; what is not finite is spelled out. -/
def fixed (x : Float) (places : Nat) : String :=
  String.ofList <| match decode x with
    | .nan => ['N', 'a', 'N']
    | .infinite negative => sign negative ++ ['i', 'n', 'f']
    | .finite negative m q => sign negative ++ fixedChars m q places

/-- Plain numbers in messages: never an exponent, no point in whole numbers. -/
def plain : Layout where
  positional := none
  pointZero := false
  plus := false
  nan := "NaN"
  infinity := "inf"
  negativeInfinity := "-inf"

end Binary64

end StagedLoad
