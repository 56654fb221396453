import StagedLoad.Pool.Clock
import StagedLoad.Run.Report

/-!
# Runs

A run brings the number of virtual users in line with its schedule, tells of its progress,
and judges its thresholds, each at fixed intervals.  It stops when the schedule is over, when
it is asked to, or when a failing rule says so; then it waits until every user has left.

A run moves in steps: one thing that a user does, or one thing that the run itself does.
Within a millisecond the run goes first.

## Main definitions

* `Run`, `Run.Mode` — a run and what it is about to do.
* `Run.step` — one step.
* `Run.execute?` — all steps up to the end.
-/

namespace StagedLoad

/-- What a run is about to do. -/
inductive Run.Mode
  /-- To begin. -/
  | idle
  /-- To follow its schedule. -/
  | running
  /-- To wait for its users, after a fault or for a reason. -/
  | draining (cause : Except PoolFault StopReason)
  /-- Nothing more. -/
  | ended (result : Except PoolFault RunReport)

/-- A run whose workload has a state of type `σ`. -/
structure Run (σ : Type) where
  /-- What the run follows. -/
  plan : RunPlan
  /-- Its users. -/
  pool : Pool σ
  /-- Whether it tells of its progress. -/
  reporting : Bool
  /-- The times at which it will be asked to stop. -/
  aborts : List Nat
  /-- How often it has brought its users in line with the schedule. -/
  polls : Nat := 0
  /-- How often it has told of its progress. -/
  ticks : Nat := 0
  /-- How often it has judged its thresholds. -/
  evaluations : Nat := 0
  /-- When it last told of its progress, and how many iterations had been recorded. -/
  lastTick : Nat × Nat := (0, 0)
  /-- What it has told, the latest update last. -/
  updates : Array ProgressUpdate := #[]
  /-- What it is about to do. -/
  mode : Run.Mode := .idle

namespace Run

variable {σ : Type}

/-- Where a run is. -/
def phase (r : Run σ) : Phase :=
  match r.mode with
  | .idle => .idle
  | .running => .running
  | .draining _ => .draining
  | .ended (.ok _) => .completed
  | .ended (.error _) => .faulted

/-- How long a run has lasted. -/
def elapsed (r : Run σ) : Duration := Duration.ofMillis r.pool.now

/-- Whether a run has been asked to stop. -/
def isAborted (r : Run σ) : Bool := r.aborts.any (· ≤ r.pool.now)

/-! ### What the run does -/

/-- The things that a run does at set times. -/
inductive Task
  /-- It brings its users in line with the schedule. -/
  | poll
  /-- It tells of its progress. -/
  | tell
  /-- It judges its thresholds. -/
  | judge
  /-- It obeys a request to stop. -/
  | obey
  deriving DecidableEq, Repr

/-- The millisecond in which the end of `n` intervals lies. -/
def intervalEnd (n : Nat) (interval : Duration) : Nat :=
  (n * interval.nanos + (Duration.nanosPerMilli - 1)) / Duration.nanosPerMilli

/-- When a run does what next. -/
def agenda (r : Run σ) : List (Nat × Task) :=
  [(intervalEnd r.polls r.plan.pollInterval, .poll)] ++
  (if r.reporting then [(intervalEnd (r.ticks + 1) r.plan.progressInterval, .tell)] else []) ++
  (r.plan.evaluationInterval.elim [] fun e => [(intervalEnd (r.evaluations + 1) e, .judge)]) ++
  r.aborts.map fun t => (t, .obey)

/-- The first of the earliest entries of an agenda. -/
def earliest (first : Nat × Task) (rest : List (Nat × Task)) : Nat × Task :=
  rest.foldl (fun best e => if e.1 < best.1 then e else best) first

/-- What a run does next, and when. -/
def nextTask (r : Run σ) : Nat × Task :=
  match r.agenda with
  | [] => (0, .poll)
  | first :: rest => earliest first rest

/-- The run stops. -/
def stopFor (r : Run σ) (cause : Except PoolFault StopReason) : Run σ :=
  { r with pool := r.pool.abandon, mode := .draining cause }

/-- The run brings its users in line with the schedule; the first time they may begin. -/
def poll (r : Run σ) : Run σ :=
  match (r.plan.schedule.targetAt r.elapsed).users? with
  | none => r.stopFor (.ok .scheduleCompleted)
  | some target =>
    match r.pool.reconcile target.toNat with
    | (pool, some fault) => { r with pool }.stopFor (.error fault)
    | (pool, none) =>
      { r with pool := if r.polls = 0 then pool.start else pool, polls := r.polls + 1 }

/-- The time between two ticks in seconds, for a frequency. -/
def tickSeconds (before now : Nat) : Float :=
  let s := (Duration.ofMillis (now - before)).toSeconds
  if s < 1e-9 then 1e-9 else s

/-- What a run tells of its progress. -/
def update (r : Run σ) : ProgressUpdate where
  tick := r.ticks + 1
  elapsed := r.elapsed
  total := r.plan.schedule.total
  phase := r.phase
  stage := r.plan.schedule.snapshotAt r.elapsed
  live := r.pool.live.length
  iterations := r.pool.recorder.recorded
  failed := r.pool.recorder.failed
  perSecond := Binary64.ofNat (r.pool.recorder.recorded - r.lastTick.2) /
    tickSeconds r.lastTick.1 r.pool.now

/-- The run tells of its progress. -/
def tell (r : Run σ) : Run σ :=
  { r with
    ticks := r.ticks + 1
    lastTick := (r.pool.now, r.pool.recorder.recorded)
    updates := r.updates.push r.update }

/-- The judgement of what has been recorded so far. -/
def evaluation (r : Run σ) : Threshold.Evaluation :=
  r.plan.judge (r.plan.statistics r.pool.recorder.snapshot r.elapsed)

/-- The run judges its thresholds. -/
def judge (r : Run σ) : Run σ :=
  if r.evaluation.shouldAbort then r.stopFor (.ok .thresholdAbort)
  else { r with evaluations := r.evaluations + 1 }

/-- The run does what is due. -/
def perform (r : Run σ) : Task → Run σ
  | .poll => r.poll
  | .tell => r.tell
  | .judge => r.judge
  | .obey => r.stopFor (.ok .aborted)

/-- The run ends: everyone has left. -/
def finish (r : Run σ) (cause : Except PoolFault StopReason) : Run σ :=
  let (pool, fault) := r.pool.settle
  -- the fault that stopped the run counts, not those that showed afterwards
  let result := match cause, fault with
    | .error f, _ => .error f
    | .ok _, some f => .error f
    | .ok reason, none =>
      .ok (RunReport.ofSamples r.plan pool.recorder.snapshot reason r.elapsed pool.peak)
  { r with pool, mode := .ended result }

/-! ### Steps -/

/-- The run does what is due at a time. -/
def performAt (r : Run σ) (time : Nat) (task : Task) : Run σ :=
  { r with pool := { r.pool with now := max r.pool.now time } }.perform task

/-- A step of a run that follows its schedule: users act before the next task of the run. -/
def stepRunning (r : Run σ) : Run σ :=
  let (time, task) := r.nextTask
  match r.pool.next? with
  -- users act strictly before the run does, so that the run goes first in a millisecond
  | some (t, u) => if t < time then { r with pool := r.pool.actAt t u } else r.performAt time task
  | none => r.performAt time task

/-- One step. -/
def step (r : Run σ) : Run σ :=
  match r.mode with
  | .idle => { r with mode := .running }
  | .running => r.stepRunning
  | .draining cause =>
    match r.pool.step? with
    | some pool => { r with pool }
    | none => r.finish cause
  | .ended _ => r

/-- The run at its end, unless that takes more than `fuel` steps. -/
def execute? : (fuel : Nat) → Run σ → Option (Run σ × Except PoolFault RunReport)
  | 0, _ => none
  | fuel + 1, r =>
    match r.mode with
    | .ended result => some (r, result)
    | _ => execute? fuel r.step

/-- A run of a configuration and a workload. -/
def prepare (config : RunConfig) (workload : Workload σ) (state : σ) (reporting : Bool)
    (aborts : List Nat) : Except ConfigFault (Run σ) :=
  (config.validate workload.declared).map fun plan =>
    { plan, pool := { workload, state, thinkTime := plan.thinkTime }, reporting, aborts }

end Run

end StagedLoad
