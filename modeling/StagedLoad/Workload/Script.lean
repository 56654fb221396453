import StagedLoad.Workload

/-!
# Scripted workloads

A workload that follows a script: a list of steps, of which every iteration takes the one
that the numbers of the user and of the iteration select.

## Main definitions

* `ScriptStep`, `Script` — the scripts.
* `Script.workload` — the workload that follows one.
-/

namespace StagedLoad

/-- One step of a script. -/
structure ScriptStep where
  /-- How long it takes. -/
  sleep : Duration
  /-- How it ends. -/
  ending : Ending
  deriving Inhabited

/-- A script. -/
structure Script where
  /-- The steps. -/
  steps : List ScriptStep
  /-- How many steps the next user is ahead. -/
  byUser : Nat := 0
  /-- How many steps the next iteration is ahead. -/
  byIteration : Nat := 1
  /-- The series that the steps observe. -/
  declared : DeclaredMetrics := {}

namespace Script

/-- The step of an iteration. -/
def stepAt (s : Script) (c : IterationContext) : ScriptStep :=
  (s.steps[(c.user * s.byUser + c.iteration * s.byIteration) % s.steps.length]?).getD
    ⟨Duration.zero, .outcome {}⟩

/-- The workload that follows a script. -/
def workload (s : Script) : Workload PUnit where
  declared := s.declared
  invoke c state :=
    let step := s.stepAt c
    (⟨step.sleep.startedMillis, step.ending⟩, state)

end Script

end StagedLoad
