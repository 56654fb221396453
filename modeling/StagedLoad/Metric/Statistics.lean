import StagedLoad.Metric.Name
import StagedLoad.Metric.Trend

/-!
# Statistics of a series

What is reported of a series: a trend's statistics, the share of a rate, or the
number and frequency of a counter.

## Main definitions

* `Rate`, `Counter` — the smaller statistics.
* `Statistics` — the statistics of one series.
-/

namespace StagedLoad

/-- How many observations of a series hold. -/
structure Rate where
  /-- How many observations there were. -/
  total : Nat
  /-- How many of them hold. -/
  passes : Nat
  deriving DecidableEq, Repr, Inhabited

namespace Rate

/-- The share of the observations that hold; there is none without observations. -/
def share (r : Rate) : Option Float :=
  if 0 < r.total then some (Binary64.ofNat r.passes / Binary64.ofNat r.total) else none

/-- How many observations do not hold. -/
def fails (r : Rate) : Nat := r.total - r.passes

/-- The rate of some observations. -/
def ofList (l : List Bool) : Rate := ⟨l.length, l.count true⟩

end Rate

/-- A number of events. -/
structure Counter where
  /-- How many there were. -/
  count : Nat
  /-- How many there were per second, if time passed. -/
  perSecond : Option Float
  deriving DecidableEq, Repr, Inhabited

/-- The statistics of one series. -/
inductive Statistics
  /-- Of a trend. -/
  | trend (t : TrendSummary Float)
  /-- Of a rate. -/
  | rate (r : Rate)
  /-- Of a counter. -/
  | counter (c : Counter)
  deriving Inhabited

/-- The kind of a series. -/
def Statistics.kind : Statistics → Metric.Kind
  | trend _ => .trend
  | rate _ => .rate
  | counter _ => .counter

end StagedLoad
