import StagedLoad.Config
import StagedLoad.Pool.Basic
import StagedLoad.Threshold.Evaluation

/-!
# Reports of a run

What a run tells while it goes on, and what it tells in the end.

## Main definitions

* `Phase`, `StopReason` — where a run is, and why it stopped.
* `ProgressUpdate` — what is told while it goes on.
* `RunReport` — what is told in the end.
* `RunFault` — why there is no report.
-/

namespace StagedLoad

/-- Where a run is. -/
inductive Phase
  /-- It has not begun. -/
  | idle
  /-- It follows its schedule. -/
  | running
  /-- It waits for its users to leave. -/
  | draining
  /-- It has a report. -/
  | completed
  /-- A fault stopped it, and there is no report. -/
  | faulted
  deriving DecidableEq, Repr, Inhabited

/-- The name of a phase. -/
def Phase.name : Phase → String
  | idle => "Idle"
  | running => "Running"
  | draining => "Draining"
  | completed => "Completed"
  | faulted => "Faulted"

/-- The phase with a name. -/
def Phase.named? (s : String) : Option Phase :=
  [idle, running, draining, completed, faulted].find? fun p => p.name == s

/-- Why a run stopped. -/
inductive StopReason
  /-- The last stage is over. -/
  | scheduleCompleted
  /-- It was asked to stop. -/
  | aborted
  /-- A rule failed whose failure stops the run. -/
  | thresholdAbort
  deriving DecidableEq, Repr, Inhabited

/-- The name of a reason. -/
def StopReason.name : StopReason → String
  | scheduleCompleted => "schedule-completed"
  | aborted => "aborted"
  | thresholdAbort => "threshold-abort"

/-- The reason with a name. -/
def StopReason.named? (s : String) : Option StopReason :=
  [scheduleCompleted, aborted, thresholdAbort].find? fun r => r.name == s

/-- What is told while a run goes on. -/
structure ProgressUpdate where
  /-- How many updates there have been, with this one. -/
  tick : Nat
  /-- How long the run has lasted. -/
  elapsed : Duration
  /-- How long its schedule is. -/
  total : Duration
  /-- Where it is. -/
  phase : Phase
  /-- Where its schedule is. -/
  stage : StageSnapshot
  /-- How many users are alive. -/
  live : Nat
  /-- How many iterations were recorded. -/
  iterations : Nat
  /-- How many of them failed. -/
  failed : Nat
  /-- How many there were per second since the update before. -/
  perSecond : Float
  deriving Repr, Inhabited

/-- What is told in the end. -/
structure RunReport where
  /-- The verdict on each rule and on all of them. -/
  evaluation : Threshold.Evaluation
  /-- The statistics of every series. -/
  perMetric : Table String Statistics
  /-- Why the run stopped. -/
  stopReason : StopReason
  /-- How long it lasted. -/
  duration : Duration
  /-- How many iterations were recorded. -/
  iterations : Nat
  /-- The greatest number of live users. -/
  peak : Nat
  /-- How often each error ended an iteration. -/
  errors : Table String Nat

/-- Why there is no report. -/
inductive RunFault
  /-- The configuration is not valid. -/
  | config (fault : ConfigFault)
  /-- The pool of users is at fault. -/
  | pool (fault : PoolFault)
  deriving DecidableEq, Repr

/-- The wording of a fault. -/
def RunFault.message : RunFault → String
  | config fault => "invalid configuration: " ++ fault.message
  | pool fault => fault.message

/-- How often each text occurs in a list. -/
def occurrences (texts : List String) : Table String Nat :=
  texts.foldl (fun t s => t.update s fun n => n.getD 0 + 1) Table.empty

/-- The errors of some samples. -/
def errorCounts (samples : List Sample) : Table String Nat :=
  occurrences (samples.filterMap Sample.error)

/-- What is computed of the samples of a plan when a run has lasted some time. -/
def RunPlan.statistics (plan : RunPlan) (samples : List Sample) (elapsed : Duration) :
    Table String Statistics :=
  StagedLoad.aggregate samples { plan.aggregate with elapsed := some elapsed }

/-- The judgement of the rules of a plan on statistics. -/
def RunPlan.judge (plan : RunPlan) (statistics : Table String Statistics) :
    Threshold.Evaluation :=
  Threshold.evaluate plan.rules statistics plan.failOnUndetermined

/-- The report of a run that lasted some time. -/
def RunReport.ofSamples (plan : RunPlan) (samples : List Sample) (reason : StopReason)
    (duration : Duration) (peak : Nat) : RunReport :=
  let perMetric := plan.statistics samples duration
  { evaluation := plan.judge perMetric
    perMetric
    stopReason := reason
    duration
    iterations := samples.length
    peak
    errors := errorCounts samples }

end StagedLoad
