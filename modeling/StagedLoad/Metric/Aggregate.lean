import StagedLoad.Metric.Sample
import StagedLoad.Metric.Statistics

/-!
# Aggregation

The statistics of every series of a snapshot.  A series is described by the
observations that one sample adds to it; its statistics are those of the
observations of all samples, in the order of the samples.

## Main definitions

* `AggregateOptions` — what to compute.
* `trendValues`, `trendNames`, `checkResults`, `checkNames` — the series of a snapshot.
* `aggregate` — the statistics of all series by name.
-/

namespace StagedLoad

/-- What to compute of a snapshot. -/
structure AggregateOptions where
  /-- The percentiles of trends. -/
  percentiles : List Percentile := Percentile.defaults
  /-- How percentiles are computed. -/
  mode : PercentileMode := .exact
  /-- How long the run took, for frequencies. -/
  elapsed : Option Duration := none
  /-- Checks that have a series even without observations. -/
  checks : List String := []
  /-- Trends that have a series even without observations. -/
  trends : List String := []
  deriving DecidableEq, Repr, Inhabited

/-- The observations of a sample under a name that its workload chose. -/
def Sample.customValues (s : Sample) (name : String) : List Float :=
  (s.values.filter fun v => v.1 == name).map Prod.snd

/-- The observations that a sample adds to a trend: those that every run has, then those of
the workload. -/
def Sample.trendValues (s : Sample) (name : String) : List Float :=
  (if name = Metric.requestDuration then s.countedRequests.map (·.latency.toMillis) else []) ++
  (if name = Metric.iterationDuration then [s.iterationDuration.toMillis] else []) ++
  s.customValues name

/-- The results of a check in a sample. -/
def Sample.checkResults (s : Sample) (check : String) : List Bool :=
  (s.checks.filter fun c => c.1 == check).map Prod.snd

/-- The trends that a run has whatever its workload declares. -/
def builtinTrends : List String := [Metric.requestDuration, Metric.iterationDuration]

/-- The trends of a snapshot; names may repeat. -/
def trendNames (samples : List Sample) (o : AggregateOptions) : List String :=
  builtinTrends ++ o.trends ++ samples.flatMap fun s => s.values.map Prod.fst

/-- The checks of a snapshot; names may repeat. -/
def checkNames (samples : List Sample) (o : AggregateOptions) : List String :=
  o.checks ++ samples.flatMap fun s => s.checks.map Prod.fst

/-- Each name of a list once, in the order in which the names ascend. -/
def distinct (names : List String) : List String :=
  (Table.ofList (names.map fun n => (n, ()))).keys

/-- The statistics of a trend. -/
def trendStatistics (samples : List Sample) (o : AggregateOptions) (name : String) : Statistics :=
  .trend (TrendSummary.ofValues o.mode o.percentiles (samples.flatMap fun s => s.trendValues name))

/-- The statistics of a check. -/
def checkStatistics (samples : List Sample) (check : String) : Statistics :=
  .rate (Rate.ofList (samples.flatMap fun s => s.checkResults check))

/-- Which requests failed. -/
def failedStatistics (samples : List Sample) : Statistics :=
  .rate (Rate.ofList (samples.flatMap fun s => s.countedRequests.map RequestTiming.failed))

/-- Which checks passed. -/
def allChecksStatistics (samples : List Sample) : Statistics :=
  .rate (Rate.ofList (samples.flatMap fun s => s.checks.map Prod.snd))

/-- How many iterations there were, and how many per second. -/
def iterationStatistics (samples : List Sample) (elapsed : Option Duration) : Statistics :=
  .counter
    { count := samples.length
      perSecond := (elapsed.filter fun d => !d.isZero).map fun d =>
        Binary64.ofNat samples.length / d.toSeconds }

/-- The statistics of every series of a snapshot.  Where names coincide, rates hide trends
and the counter hides both. -/
def aggregate (samples : List Sample) (o : AggregateOptions) : Table String Statistics :=
  let trends := (distinct (trendNames samples o)).map fun n => (n, trendStatistics samples o n)
  let checks := (distinct (checkNames samples o)).map fun c =>
    (Metric.checkSeries c, checkStatistics samples c)
  -- of two entries with one name the later one stays
  let rates := [(Metric.requestFailed, failedStatistics samples),
    (Metric.checks, allChecksStatistics samples)]
  Table.ofList <| trends ++ rates ++ checks ++
    [(Metric.iterations, iterationStatistics samples o.elapsed)]

end StagedLoad
