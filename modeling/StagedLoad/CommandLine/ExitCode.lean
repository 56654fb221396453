import StagedLoad.Threshold.Evaluation

/-!
# Exit codes

How the program tells its caller what came of a run.

## Main definitions

* `ExitCode` — the outcomes, and their numbers.
* `ExitCode.ofVerdict` — the outcome of a run that has a report.
-/

namespace StagedLoad

/-- What came of a call of the program. -/
inductive ExitCode
  /-- All went well. -/
  | success
  /-- The run is over, and a threshold failed. -/
  | thresholdsFailed
  /-- The arguments or the profile are not valid. -/
  | invalidInput
  /-- The run broke off. -/
  | runtimeFault
  deriving DecidableEq, Repr, Inhabited

namespace ExitCode

/-- The number that the caller sees. -/
def code : ExitCode → UInt8
  | success => 0
  | thresholdsFailed => 11
  | invalidInput => 30
  | runtimeFault => 40

/-- The outcome of a run with a verdict. -/
def ofVerdict : Threshold.Verdict → ExitCode
  | .pass => success
  | .fail => thresholdsFailed

end ExitCode

end StagedLoad
