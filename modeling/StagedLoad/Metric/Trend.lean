import StagedLoad.Metric.Histogram

/-!
# Trends

The statistics of a numeric series: how many observations, their mean, least and
greatest value, median and percentiles.  Observations that are not finite do not count.

Percentiles come exact, interpolated between the two nearest ranks of the sorted
observations, or approximate, from a histogram.

## Main definitions

* `Running` — count, mean and extremes, kept up to date observation by observation.
* `percentileOfSorted` — the interpolated percentile of a sorted list.
* `PercentileMode` — exact or approximate percentiles.
* `TrendSummary`, `TrendSummary.ofValues` — the statistics, and how they are made.
-/

namespace StagedLoad

/-- How percentiles are computed. -/
inductive PercentileMode
  /-- From all observations, sorted. -/
  | exact
  /-- From a histogram with three significant digits. -/
  | approximate
  deriving DecidableEq, Repr, Inhabited

namespace PercentileMode

/-- The name of a mode. -/
def name : PercentileMode → String
  | exact => "exact"
  | approximate => "approximate"

/-- The mode with a name. -/
def named? (s : String) : Option PercentileMode := [exact, approximate].find? fun m => m.name == s

end PercentileMode

/-- The statistics of a series that are kept up to date observation by observation. -/
structure Running (α : Type) where
  /-- How many observations there were. -/
  count : Nat
  /-- Their mean. -/
  mean : α
  /-- The least of them. -/
  min : α
  /-- The greatest of them. -/
  max : α

namespace Running

variable {α : Type} [Scalar α]

/-- The mean of `n` numbers, from the mean of the first `n - 1` and the last one. -/
def nextMean (mean x : α) (n : Nat) : α := mean + (x - mean) / Scalar.ofNat n

/-- The statistics of one observation. -/
def first (x : α) : Running α := ⟨1, nextMean (Scalar.ofNat 0) x 1, x, x⟩

/-- The statistics with one more observation. -/
def push (r : Running α) (x : α) : Running α where
  count := r.count + 1
  mean := nextMean r.mean x (r.count + 1)
  min := if Scalar.lt x r.min then x else r.min
  max := if Scalar.lt r.max x then x else r.max

/-- The statistics of some observations, if there are any. -/
def ofList : List α → Option (Running α)
  | [] => none
  | x :: xs => some (xs.foldl push (first x))

end Running

/-- The percentile of an ascending list, linearly interpolated between the nearest ranks. -/
def percentileOfSorted {α : Type} [Scalar α] (sorted : Array α) (p : Percentile) : Option α :=
  if sorted.isEmpty then none
  else
    let share : α := Scalar.ofNat p.hundredths / Scalar.ofNat 10000
    let rank := share * Scalar.ofNat (sorted.size - 1)
    let low := Scalar.floor rank
    match sorted[low]?, sorted[Scalar.ceil rank]? with
    | some a, some b => some (a + (b - a) * (rank - Scalar.ofNat low))
    | _, _ => none

/-- The statistics of a series; without observations there are no values. -/
structure TrendSummary (α : Type) where
  /-- How many observations there were. -/
  count : Nat
  /-- The mean. -/
  avg : Option α
  /-- The least observation. -/
  min : Option α
  /-- The greatest observation. -/
  max : Option α
  /-- The median. -/
  med : Option α
  /-- The percentiles that were asked for. -/
  percentiles : Table Percentile α

namespace TrendSummary

variable {α : Type} [Scalar α]

/-- The statistics of a series without observations. -/
def empty : TrendSummary α := ⟨0, none, none, none, none, Table.empty⟩

instance : Inhabited (TrendSummary α) := ⟨empty⟩

/-- Milliseconds as microseconds, at least one. -/
def micros (x : α) : Nat := Nat.max 1 (Scalar.nearest (x * Scalar.ofNat 1000))

/-- The percentile of some finite observations, as a function of the percentile. -/
def quantiles (mode : PercentileMode) (xs : List α) : Percentile → Option α :=
  match mode with
  | .exact =>
    let sorted := (xs.mergeSort Scalar.le).toArray
    percentileOfSorted sorted
  | .approximate =>
    let h := xs.foldl (fun h x => h.record (micros x)) Histogram.empty
    fun p =>
      let share : α := Scalar.ofNat p.hundredths / Scalar.ofNat 10000
      some (Scalar.ofNat (h.valueAt share) / Scalar.ofNat 1000)

/-- Puts the percentiles that exist into a table. -/
def tabulate (f : Percentile → Option α) (ps : List Percentile) : Table Percentile α :=
  Table.ofList (ps.filterMap fun p => (f p).map fun x => (p, x))

/-- The statistics of the finite ones among some observations. -/
def ofValues (mode : PercentileMode) (ps : List Percentile) (values : List α) : TrendSummary α :=
  let xs := values.filter Scalar.isFinite
  match Running.ofList xs with
  | none => empty
  | some r =>
    let f := quantiles mode xs
    { count := r.count
      avg := some r.mean
      min := some r.min
      max := some r.max
      med := f Percentile.median
      percentiles := tabulate f ps }

end TrendSummary

end StagedLoad
