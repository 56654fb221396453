import StagedLoad.Decimal.Printer
import StagedLoad.Decimal.Reader
import StagedLoad.Table
import StagedLoad.Text.Blank

/-!
# Percentiles

Percentiles are counted in hundredths of a percent, so that `p(99.9)` is exact.

## Main definitions

* `Percentile` — one to ten thousand hundredths of a percent.
* `Percentile.ofPercent` — the percentile of a double, if it is near enough to one.
* `Percentile.parse` — the percentile that a text is written for.
* `Percentile.render` — the name of a percentile, such as `p(99.9)`.
-/

namespace StagedLoad

/-- A percentile above 0 and up to 100, with at most two decimals. -/
structure Percentile where
  /-- Hundredths of a percent. -/
  hundredths : Nat
  /-- More than nothing. -/
  pos : 1 ≤ hundredths
  /-- At most all. -/
  le : hundredths ≤ 10000
  deriving DecidableEq, Repr

namespace Percentile

@[ext] theorem ext {p q : Percentile} (h : p.hundredths = q.hundredths) : p = q := by
  cases p; cases q; cases h; rfl

instance : TableKey Percentile := .comap hundredths Percentile.ext

/-- A number or text that is no percentile. -/
structure Invalid where
  /-- The number or text, as it is shown. -/
  text : String
  deriving DecidableEq, Repr

/-- The wording of the error. -/
def Invalid.message (e : Invalid) : String :=
  "invalid percentile `" ++ e.text ++
    "` (expected a number in (0, 100] with at most two decimals)"

/-- The median. -/
def median : Percentile := ⟨5000, by decide, by decide⟩

/-- The percentiles that are reported unless others are asked for. -/
def defaults : List Percentile :=
  [median, ⟨9000, by decide, by decide⟩, ⟨9500, by decide, by decide⟩, ⟨9900, by decide, by decide⟩]

/-- How far from a whole number of hundredths a double may lie. -/
def tolerance : Float := 1e-6

/-- The hundredths of a percent nearest to a double, if they are near enough and in range. -/
def ofPercent? (percent : Float) : Option Percentile :=
  let scaled := percent * 100
  if !Binary64.isFinite scaled then none
  else
    let n := (Binary64.round scaled).toNat
    if h : 1 ≤ n ∧ n ≤ 10000 then
      let off := scaled - Binary64.ofNat n
      if off > tolerance || -off > tolerance then none else some ⟨n, h.1, h.2⟩
    else none

/-- The percentile of a double. -/
def ofPercent (percent : Float) : Except Invalid Percentile :=
  match ofPercent? percent with
  | some p => .ok p
  | none => .error ⟨Binary64.render percent Binary64.plain⟩

/-- The percentile that a text is written for; blanks around it do not count. -/
def parse (text : String) : Except Invalid Percentile :=
  match Binary64.ofChars? (Blank.trim text).toList with
  | some x => ofPercent x
  | none => .error ⟨text⟩

/-- The percentile as a number of percent. -/
def percent (p : Percentile) : Float := Binary64.ofNat p.hundredths / 100

/-- The percentile as a fraction of one. -/
def quantile (p : Percentile) : Float := Binary64.ofNat p.hundredths / 10000

/-- The name of a percentile: no decimals, one or two, as many as it needs. -/
def render (p : Percentile) : String :=
  let whole := (p.hundredths / 100).repr
  let rest := p.hundredths % 100
  let decimals :=
    if rest = 0 then ""
    else if rest % 10 = 0 then "." ++ (rest / 10).repr
    else if rest < 10 then ".0" ++ rest.repr
    else "." ++ rest.repr
  "p(" ++ whole ++ decimals ++ ")"

end Percentile

end StagedLoad
