import StagedLoad.Duration.Instant
import StagedLoad.Run.Controller

/-!
# Launching a run

A run reads the clock when it begins, and computes when it will tell of its progress and when it
will judge its thresholds for the first time, whether anyone is told or not.  If the clock does
not get there, the run crashes: it is following its schedule by then, but nobody has come.

## Main definitions

* `Run.firstDue` — when a run tells and judges for the first time.
* `Run.launch?` — a run from the beginning to the end.
-/

namespace StagedLoad.Run

variable {σ : Type}

/-- When a run that begins at an instant tells of its progress and, if it does at all, judges its
thresholds for the first time. -/
def firstDue (start : Instant) (r : Run σ) : Except Instant.Crash (Instant × Option Instant) := do
  let tell ← start.add r.plan.progressInterval
  let judge ← r.plan.evaluationInterval.mapM start.add
  return (tell, judge)

/-- A run that begins at an instant, at its end, unless that takes more than `fuel` steps. -/
def launch? (start : Instant) (fuel : Nat) (r : Run σ) :
    Option (Run σ × Except Instant.Crash (Except PoolFault RunReport)) :=
  match r.firstDue start with
  | .error crash => some (r.step, .error crash)
  | .ok _ => (r.execute? fuel).map fun (r', result) => (r', .ok result)

end StagedLoad.Run
