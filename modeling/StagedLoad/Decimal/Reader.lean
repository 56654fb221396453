import StagedLoad.Decimal.Binary64

/-!
# Reading decimals

The grammar of decimal numbers in texts: an optional sign, then `inf`, `infinity` or
`nan` in any letter case, or digits with an optional point among or around them and
an optional exponent.  No blanks, no separators.

A literal keeps its exact value; `Literal.toFloat` rounds it to the nearest double.

## Main definitions

* `Literal` — what the grammar reads, exactly.
* `Literal.ofChars?` — the reader.
* `Literal.toFloat` — the nearest double.
-/

namespace StagedLoad

/-- A number as it stands in a text. -/
inductive Literal
  /-- Not a number. -/
  | nan
  /-- One of the two infinities. -/
  | infinity (negative : Bool)
  /-- The number `± mantissa · 10 ^ exponent`. -/
  | number (negative : Bool) (mantissa : Nat) (exponent : Int)
  deriving DecidableEq, Repr

namespace Literal

/-- The value of a digit. -/
def digitValue (c : Char) : Nat := c.toNat - 48

/-- The number that a list of digits is written for, after `acc`. -/
def natOfDigits : Nat → List Char → Nat
  | acc, [] => acc
  | acc, c :: cs => natOfDigits (digitValue c + 10 * acc) cs

@[simp] theorem natOfDigits_nil (acc : Nat) : natOfDigits acc [] = acc := by rw [natOfDigits]

@[simp] theorem natOfDigits_cons (acc : Nat) (c : Char) (cs : List Char) :
    natOfDigits acc (c :: cs) = natOfDigits (digitValue c + 10 * acc) cs := by rw [natOfDigits]

/-- Splits a leading sign off; the flag says that it was a minus. -/
def splitSign : List Char → Bool × List Char
  | '-' :: cs => (true, cs)
  | '+' :: cs => (false, cs)
  | cs => (false, cs)

/-- The exponent part: nothing, or a mark, an optional sign and at least one digit. -/
def exponent? : List Char → Option Int
  | [] => some 0
  | c :: cs =>
    if c = 'e' ∨ c = 'E' then
      let (negative, ds) := splitSign cs
      if ds.isEmpty || !ds.all Char.isDigit then none
      else
        let n : Int := natOfDigits 0 ds
        some (if negative then -n else n)
    else none

/-- Digits, a point, digits; at least one digit in all. -/
def unsigned? (negative : Bool) (cs : List Char) : Option Literal :=
  let whole := cs.takeWhile Char.isDigit
  let rest := cs.dropWhile Char.isDigit
  let (places, tail) := match rest with
    | '.' :: more => (more.takeWhile Char.isDigit, more.dropWhile Char.isDigit)
    | other => ([], other)
  if whole.isEmpty && places.isEmpty then none
  else (exponent? tail).map fun e =>
    .number negative (natOfDigits (natOfDigits 0 whole) places) (e - (places.length : Int))

/-- Reads a literal off the whole of a text. -/
def ofChars? (cs : List Char) : Option Literal :=
  let (negative, body) := splitSign cs
  let lower := body.map Char.toLower
  if lower = ['n', 'a', 'n'] then some .nan
  else if lower = ['i', 'n', 'f'] ∨ lower = ['i', 'n', 'f', 'i', 'n', 'i', 't', 'y'] then
    some (.infinity negative)
  else unsigned? negative body

/-- Positive infinity. -/
def infinite : Float := Float.ofBits 0x7FF0000000000000

/-- The double nearest to `mantissa · 10 ^ exponent`. -/
def magnitude (mantissa : Nat) (exponent : Int) : Float :=
  if 0 ≤ exponent then Float.ofScientific mantissa false exponent.toNat
  else Float.ofScientific mantissa true (-exponent).toNat

/-- The double nearest to a literal. -/
def toFloat : Literal → Float
  | .nan => 0 / 0
  | .infinity negative => if negative then -infinite else infinite
  | .number negative m e => if negative then -magnitude m e else magnitude m e

end Literal

/-- The double that a text is written for. -/
def Binary64.ofChars? (cs : List Char) : Option Float := (Literal.ofChars? cs).map Literal.toFloat

end StagedLoad
