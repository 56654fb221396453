import StagedLoad.Metric.Aggregate
import StagedLoad.Schedule
import StagedLoad.Threshold.Rule

/-!
# Configurations

What a run is configured with, and the plan that a valid configuration becomes.

## Main definitions

* `RunConfig` — a configuration as it was written.
* `ConfigFault` — what can be wrong with it.
* `RunPlan`, `RunConfig.validate` — what a valid one becomes.
-/

namespace StagedLoad

/-- A configuration of a run. -/
structure RunConfig where
  /-- How many virtual users there are at the start. -/
  startUsers : UInt64 := 0
  /-- The stages of the schedule. -/
  stages : List Stage := []
  /-- The thresholds. -/
  thresholds : List Threshold.DeclarationSet := []
  /-- How often the number of users is brought in line with the schedule. -/
  pollInterval : Duration := Duration.ofMillis 100
  /-- How long a user pauses between iterations, unless the workload says otherwise. -/
  thinkTime : Duration := Duration.seconds 1
  /-- How often progress is reported. -/
  progressInterval : Duration := Duration.seconds 1
  /-- How often thresholds are judged during the run, if at all. -/
  evaluationInterval : Option Duration := none
  /-- How percentiles are computed. -/
  percentileMode : PercentileMode := .exact
  /-- The percentiles that are reported. -/
  percentiles : List Percentile := Percentile.defaults
  /-- Whether rules without anything to judge count as failed. -/
  failOnUndetermined : Bool := false
  deriving Inhabited

/-- The intervals that must not be zero. -/
inductive IntervalName
  /-- `pollInterval`. -/
  | poll
  /-- `progressInterval`. -/
  | progress
  /-- `evaluationInterval`. -/
  | evaluation
  deriving DecidableEq, Repr

/-- The name of an interval in messages. -/
def IntervalName.name : IntervalName → String
  | poll => "poll_interval"
  | progress => "progress_interval"
  | evaluation => "evaluation_interval"

/-- What can be wrong with a configuration. -/
inductive ConfigFault
  /-- The stages are no schedule. -/
  | schedule (fault : Schedule.Fault)
  /-- There is never a virtual user. -/
  | noUsers
  /-- An interval is zero. -/
  | zeroInterval (interval : IntervalName)
  /-- A threshold cannot be judged. -/
  | threshold (fault : Threshold.Rule.Fault)
  deriving DecidableEq, Repr

/-- The wording of a fault. -/
def ConfigFault.message : ConfigFault → String
  | schedule fault => fault.message
  | noUsers => "stages never schedule a virtual user (every target is 0)"
  | zeroInterval interval => "`" ++ interval.name ++ "` must be a positive duration"
  | threshold fault => fault.message

/-- A valid configuration. -/
structure RunPlan where
  /-- The schedule. -/
  schedule : Schedule
  /-- The rules. -/
  rules : List Threshold.Rule
  /-- How often the number of users is brought in line with the schedule. -/
  pollInterval : Duration
  /-- How long a user pauses between iterations, unless the workload says otherwise. -/
  thinkTime : Duration
  /-- How often progress is reported. -/
  progressInterval : Duration
  /-- How often thresholds are judged during the run, if at all. -/
  evaluationInterval : Option Duration
  /-- What is computed of the samples. -/
  aggregate : AggregateOptions
  /-- Whether rules without anything to judge count as failed. -/
  failOnUndetermined : Bool

namespace RunConfig

/-- Each percentile that is reported or looked at by a rule once, in ascending order. -/
def allPercentiles (c : RunConfig) (rules : List Threshold.Rule) : List Percentile :=
  (Table.ofList ((c.percentiles ++ rules.filterMap Threshold.Rule.percentile?).map
    fun p => (p, ()))).keys

/-- The intervals that are zero, in the order in which they are complained about. -/
def zeroIntervals (c : RunConfig) : List IntervalName :=
  (if c.pollInterval.isZero then [.poll] else []) ++
  (if c.progressInterval.isZero then [.progress] else []) ++
  (if c.evaluationInterval.any Duration.isZero then [.evaluation] else [])

/-- The plan of a configuration, given what the workload declares. -/
def validate (c : RunConfig) (declared : DeclaredMetrics) : Except ConfigFault RunPlan := do
  let schedule ← (Schedule.ofStages c.startUsers c.stages).mapError ConfigFault.schedule
  if schedule.peak = 0 then throw .noUsers
  if let i :: _ := c.zeroIntervals then throw (.zeroInterval i)
  let rules ← (Threshold.compile declared c.thresholds).mapError ConfigFault.threshold
  return {
    schedule
    rules
    pollInterval := c.pollInterval
    thinkTime := c.thinkTime
    progressInterval := c.progressInterval
    evaluationInterval := c.evaluationInterval
    aggregate := {
      percentiles := c.allPercentiles rules
      mode := c.percentileMode
      elapsed := none
      checks := declared.checks
      trends := declared.trends }
    failOnUndetermined := c.failOnUndetermined }

end RunConfig

end StagedLoad
