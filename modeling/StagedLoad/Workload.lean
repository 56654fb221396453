import StagedLoad.Metric.Name
import StagedLoad.Metric.Sample

/-!
# Workloads

What virtual users do over and over.  A workload tells of every invocation how long it
takes and how it ends; it may keep a state, which invocations change in the order in which
they start.

Time is counted in milliseconds.

## Main definitions

* `IterationContext` — what an invocation is told.
* `Outcome`, `Ending`, `Invocation` — what it amounts to.
* `Workload` — the workloads.
* `Sample.ofInvocation?` — what is recorded of an invocation.
-/

namespace StagedLoad

/-- What an invocation is told. -/
structure IterationContext where
  /-- The virtual user, counted from one. -/
  user : Nat
  /-- How many iterations the user has done before. -/
  iteration : Nat
  /-- How many milliseconds after the start of the run the iteration starts. -/
  elapsed : Nat
  deriving DecidableEq, Repr, Inhabited

/-- What an invocation observed. -/
structure Outcome where
  /-- The latency that counts for the iteration. -/
  latency : Duration := Duration.zero
  /-- Whether the iteration failed. -/
  failed : Bool := false
  /-- The checks that were made, and which of them passed. -/
  checks : List (String × Bool) := []
  /-- Observations of further trends. -/
  values : List (String × Float) := []
  /-- The requests that were issued, if there was more than one or none. -/
  requests : List RequestTiming := []
  /-- How long the user pauses afterwards; otherwise as configured. -/
  thinkTime : Option Duration := none
  deriving DecidableEq, Repr, Inhabited

/-- How an invocation ends. -/
inductive Ending
  /-- It observed something. -/
  | outcome (o : Outcome)
  /-- It could not observe anything. -/
  | error (message : String)
  /-- It brings its virtual user down, and this is said of it. -/
  | crash (cause : String)
  deriving DecidableEq, Repr, Inhabited

/-- One invocation of a workload. -/
structure Invocation where
  /-- How many milliseconds it takes. -/
  takes : Nat
  /-- How it ends. -/
  ending : Ending
  deriving DecidableEq, Repr, Inhabited

/-- What virtual users do, with a state of type `σ`. -/
structure Workload (σ : Type) where
  /-- The series that invocations observe. -/
  declared : DeclaredMetrics
  /-- One invocation. -/
  invoke : IterationContext → σ → Invocation × σ

/-- The pause after an invocation that did not crash. -/
def Ending.thinkTime (configured : Duration) : Ending → Duration
  | outcome o => o.thinkTime.getD configured
  | error _ => configured
  | crash _ => configured

/-- What brought the virtual user down, if the invocation did. -/
def Ending.cause? : Ending → Option String
  | outcome _ => none
  | error _ => none
  | crash cause => some cause

@[simp] theorem Ending.cause?_eq_some_iff {e : Ending} {cause : String} :
    e.cause? = some cause ↔ e = .crash cause := by
  cases e <;> simp [cause?]

/-- What is recorded of an invocation that started in a context and took some milliseconds:
nothing if it crashed. -/
def Sample.ofInvocation? (c : IterationContext) (i : Invocation) : Option Sample :=
  match i.ending with
  | .outcome o => some {
      timestamp := Duration.ofMillis c.elapsed
      user := c.user
      latency := o.latency
      iterationDuration := Duration.ofMillis i.takes
      success := !o.failed
      checks := o.checks
      values := o.values
      requests := o.requests }
  | .error message => some {
      timestamp := Duration.ofMillis c.elapsed
      user := c.user
      latency := Duration.ofMillis i.takes
      iterationDuration := Duration.ofMillis i.takes
      success := false
      error := some message }
  | .crash _ => none

theorem Sample.ofInvocation?_eq_none_iff {c : IterationContext} {i : Invocation} :
    Sample.ofInvocation? c i = none ↔ ∃ cause, i.ending = .crash cause := by
  unfold ofInvocation?
  split <;> simp_all

theorem Sample.ofInvocation?_ne_none_iff {c : IterationContext} {i : Invocation} :
    Sample.ofInvocation? c i ≠ none ↔ i.ending.cause? = none := by
  unfold ofInvocation?
  split <;> simp_all [Ending.cause?]

end StagedLoad
