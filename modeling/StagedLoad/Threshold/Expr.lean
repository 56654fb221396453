import StagedLoad.Metric.Percentile

/-!
# Threshold expressions

A threshold compares one statistic of a series with a limit, as in `p(95)<500ms`.

## Main definitions

* `Threshold.Selector` — which statistic is meant.
* `Threshold.Comparison` — how it is compared.
* `Threshold.Unit` — what the limit is counted in.
* `Threshold.Expr` — the expression, its limit scaled to the unit of the series.
-/

namespace StagedLoad.Threshold

/-- A statistic of a series. -/
inductive Selector
  /-- The mean. -/
  | avg
  /-- The least value. -/
  | min
  /-- The greatest value. -/
  | max
  /-- The median. -/
  | med
  /-- The number of observations. -/
  | count
  /-- The share of observations that hold, or the number of events per second. -/
  | rate
  /-- A percentile. -/
  | percentile (p : Percentile)
  deriving DecidableEq, Repr

/-- The name of a statistic. -/
def Selector.name : Selector → String
  | avg => "avg"
  | min => "min"
  | max => "max"
  | med => "med"
  | count => "count"
  | rate => "rate"
  | percentile p => p.render

/-- The statistics that are selected by a plain word. -/
def Selector.words : List Selector := [avg, min, max, med, count, rate]

/-- How a statistic is compared with a limit. -/
inductive Comparison
  /-- Below the limit. -/
  | lt
  /-- Not above the limit. -/
  | le
  /-- Above the limit. -/
  | gt
  /-- Not below the limit. -/
  | ge
  /-- Equal to the limit. -/
  | eq
  deriving DecidableEq, Repr

/-- The symbol of a comparison. -/
def Comparison.symbol : Comparison → String
  | lt => "<"
  | le => "<="
  | gt => ">"
  | ge => ">="
  | eq => "=="

/-- The comparisons in the order in which their symbols are looked for: longer ones first. -/
def Comparison.searchOrder : List Comparison := [le, ge, eq, lt, gt]

/-- Whether a comparison holds of two doubles; no comparison holds of a NaN. -/
def Comparison.holds (c : Comparison) (observed limit : Float) : Bool :=
  match c with
  | lt => observed < limit
  | le => observed ≤ limit
  | gt => observed > limit
  | ge => observed ≥ limit
  | eq => observed == limit

/-- What a limit is counted in. -/
inductive Unit
  /-- Nanoseconds. -/
  | nanoseconds
  /-- Microseconds. -/
  | microseconds
  /-- Milliseconds. -/
  | milliseconds
  /-- Seconds. -/
  | seconds
  /-- Minutes. -/
  | minutes
  /-- Hours. -/
  | hours
  /-- Hundredths. -/
  | percent
  deriving DecidableEq, Repr

namespace Unit

/-- The symbol of a unit. -/
def symbol : Unit → String
  | nanoseconds => "ns"
  | microseconds => "us"
  | milliseconds => "ms"
  | seconds => "s"
  | minutes => "m"
  | hours => "h"
  | percent => "%"

/-- Whether a unit measures time. -/
def isTime : Unit → Bool
  | percent => false
  | _ => true

/-- A limit in the unit of the series: milliseconds for times, a fraction for percent. -/
def scale (u : Unit) (x : Float) : Float :=
  match u with
  | nanoseconds => x / 1000000
  | microseconds => x / 1000
  | milliseconds => x
  | seconds => x * 1000
  | minutes => x * 60000
  | hours => x * 3600000
  | percent => x / 100

end Unit

/-- A comparison of a statistic with a limit. -/
structure Expr where
  /-- The statistic. -/
  selector : Selector
  /-- The comparison. -/
  comparison : Comparison
  /-- The limit, in the unit of the series. -/
  limit : Float
  /-- The unit that the limit was written in. -/
  unit : Option Unit
  deriving DecidableEq, Repr

end StagedLoad.Threshold
