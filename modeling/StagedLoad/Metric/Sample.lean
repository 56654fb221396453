import StagedLoad.Duration.Basic

/-!
# Samples

What a virtual user records of one iteration.

## Main definitions

* `RequestTiming` — one request of an iteration.
* `Sample` — one iteration.
-/

namespace StagedLoad

/-- One request of an iteration. -/
structure RequestTiming where
  /-- How long it took. -/
  latency : Duration
  /-- Whether it failed. -/
  failed : Bool
  deriving DecidableEq, Repr, Inhabited

/-- One iteration of a virtual user. -/
structure Sample where
  /-- When the iteration started, since the start of the run. -/
  timestamp : Duration := Duration.zero
  /-- Which virtual user it was. -/
  user : Nat := 0
  /-- The latency that the workload reported. -/
  latency : Duration := Duration.zero
  /-- How long the iteration took. -/
  iterationDuration : Duration := Duration.zero
  /-- Whether it succeeded. -/
  success : Bool := false
  /-- The checks that were made, and which of them passed. -/
  checks : List (String × Bool) := []
  /-- Observations of further trends. -/
  values : List (String × Float) := []
  /-- The requests that were issued; none means one request with `latency` and `success`. -/
  requests : List RequestTiming := []
  /-- The error that ended the iteration. -/
  error : Option String := none
  deriving DecidableEq, Repr, Inhabited

/-- The requests that an iteration counts for, of which there is at least one. -/
def Sample.countedRequests (s : Sample) : List RequestTiming :=
  if s.requests.isEmpty then [⟨s.latency, !s.success⟩] else s.requests

theorem Sample.length_countedRequests (s : Sample) :
    s.countedRequests.length = max 1 s.requests.length := by
  unfold countedRequests
  cases h : s.requests with
  | nil => simp
  | cons r rest => simp

end StagedLoad
