import StagedLoad.Proofs.Run.Steps
import StagedLoad.Run.Launch

/-!
# Runs and the clock

A run that begins crashes exactly if one of its intervals leads beyond the last instant that the
clock can show.  Then nobody has come, and nothing has been recorded.  Otherwise it is what its
steps make of it.

## Main definitions

* `Run.IntervalsFit` — the clock gets to the end of the first interval of each kind.
* `Run.Waits`, `Run.ClockLasts` — the clock gets to the end of whatever a run waits for, until it
  has found its schedule to be over.

## Main results

* `launch?_eq_ok_iff`, `launch?_eq_error_iff` — a run that fits the clock is executed, and a run
  that does not fit crashes.
-/

namespace StagedLoad.Run

variable {σ : Type} {r r' : Run σ} {start : Instant} {fuel : Nat}

/-- The clock gets to the end of the first interval between two updates and, if there is one, of
the first interval between two judgements. -/
structure IntervalsFit (start : Instant) (r : Run σ) : Prop where
  tell : start.nanos + r.plan.progressInterval.nanos < Instant.limit
  judge : ∀ interval, r.plan.evaluationInterval = some interval →
    start.nanos + interval.nanos < Instant.limit

/-- A run that does not judge its thresholds before its end has one interval to fit. -/
theorem intervalsFit_of_evaluationInterval_eq_none (hnone : r.plan.evaluationInterval = none)
    (h : start.nanos + r.plan.progressInterval.nanos < Instant.limit) : r.IntervalsFit start where
  tell := h
  judge interval hinterval := by
    rw [hnone] at hinterval
    cases hinterval

/-- An interval that is longer than the clock can show fits at no start. -/
theorem not_intervalsFit_of_progressInterval
    (h : Instant.limit ≤ r.plan.progressInterval.nanos) : ¬ r.IntervalsFit start := by
  intro hfits
  have htell := hfits.tell
  omega

theorem not_intervalsFit_of_evaluationInterval {interval : Duration}
    (hinterval : r.plan.evaluationInterval = some interval)
    (h : Instant.limit ≤ interval.nanos) : ¬ r.IntervalsFit start := by
  intro hfits
  have hjudge := hfits.judge interval hinterval
  omega

/-- If its intervals fit, a run tells and judges for the first time at the instants at which they
end. -/
theorem IntervalsFit.firstDue (h : r.IntervalsFit start) : ∃ tell judge,
    r.firstDue start = .ok (tell, judge) ∧
      tell.nanos = start.nanos + r.plan.progressInterval.nanos ∧
      judge.map Instant.nanos =
        r.plan.evaluationInterval.map fun interval => start.nanos + interval.nanos := by
  have hadd : ∀ d : Duration, start.nanos + d.nanos < Instant.limit →
      ∃ t : Instant, start.add d = .ok t ∧ t.nanos = start.nanos + d.nanos :=
    fun d hd => ⟨⟨_, hd⟩, Instant.add_eq_ok_iff.2 rfl, rfl⟩
  obtain ⟨tell, htell, hnanos⟩ := hadd _ h.tell
  cases hinterval : r.plan.evaluationInterval with
  | none =>
    refine ⟨tell, none, ?_, hnanos, rfl⟩
    simp only [Run.firstDue, htell, hinterval]
    rfl
  | some interval =>
    obtain ⟨judge, hjudge, hend⟩ := hadd _ (h.judge interval hinterval)
    refine ⟨tell, some judge, ?_, hnanos, congrArg some hend⟩
    simp only [Run.firstDue, htell, hinterval, Option.mapM_some, hjudge]
    rfl

/-- A run that knows when it tells and judges for the first time has intervals that fit. -/
theorem intervalsFit_of_firstDue {due : Instant × Option Instant}
    (h : r.firstDue start = .ok due) : r.IntervalsFit start := by
  have hfits : ∀ {d : Duration} {t : Instant}, start.add d = .ok t →
      start.nanos + d.nanos < Instant.limit :=
    fun hadd => Instant.add_eq_ok_iff.1 hadd ▸ Instant.nanos_lt _
  cases htell : start.add r.plan.progressInterval with
  | error crash =>
    simp only [Run.firstDue, htell] at h
    cases h
  | ok tell =>
    refine ⟨hfits htell, fun interval hinterval => ?_⟩
    cases hjudge : start.add interval with
    | error crash =>
      simp only [Run.firstDue, htell, hinterval, Option.mapM_some, hjudge] at h
      cases h
    | ok judge => exact hfits hjudge

/-- If its intervals do not fit, a run that begins crashes. -/
theorem firstDue_of_not_fit (h : ¬ r.IntervalsFit start) : r.firstDue start = .error .overflow := by
  cases hdue : r.firstDue start with
  | error crash => cases crash; rfl
  | ok due => exact absurd (intervalsFit_of_firstDue hdue) h

theorem launch?_of_fit (h : r.IntervalsFit start) (fuel : Nat) :
    r.launch? start fuel = (r.execute? fuel).map fun (r', result) => (r', .ok result) := by
  obtain ⟨_, _, hdue, -, -⟩ := h.firstDue
  rw [launch?, hdue]

/-- A run that crashes is following its schedule, but it has not done anything. -/
theorem launch?_of_not_fit (h : ¬ r.IntervalsFit start) (fuel : Nat) :
    r.launch? start fuel = some (r.step, .error .overflow) := by
  rw [launch?, firstDue_of_not_fit h]

/-- What fits the clock is executed. -/
theorem launch?_eq_ok_iff {result : Except PoolFault RunReport} :
    r.launch? start fuel = some (r', .ok result) ↔
      r.IntervalsFit start ∧ r.execute? fuel = some (r', result) := by
  by_cases h : r.IntervalsFit start
  · rw [launch?_of_fit h, Option.map_eq_some_iff]
    constructor
    · rintro ⟨⟨s, result⟩, hexecute, heq⟩
      cases heq
      exact ⟨h, hexecute⟩
    · rintro ⟨-, hexecute⟩
      exact ⟨_, hexecute, rfl⟩
  · rw [launch?_of_not_fit h]
    exact ⟨fun heq => (by cases heq), fun hfit => absurd hfit.1 h⟩

/-- What does not fit the clock crashes, and nothing else does. -/
theorem launch?_eq_error_iff {crash : Instant.Crash} :
    r.launch? start fuel = some (r', .error crash) ↔ ¬ r.IntervalsFit start ∧ r' = r.step := by
  by_cases h : r.IntervalsFit start
  · rw [launch?_of_fit h, Option.map_eq_some_iff]
    exact ⟨fun ⟨_, _, heq⟩ => (by cases heq), fun hnot => absurd h hnot.1⟩
  · rw [launch?_of_not_fit h]
    cases crash
    exact ⟨fun heq => (by cases heq; exact ⟨h, rfl⟩), fun hstep => (by rw [hstep.2])⟩

/-! ### A clock that lasts -/

/-- What a run waits for: the end of an interval, or of a pause of a user. -/
inductive Waits (r : Run σ) : Duration → Prop
  | poll : Waits r r.plan.pollInterval
  | tell : Waits r r.plan.progressInterval
  | judge {interval : Duration} (evaluated : r.plan.evaluationInterval = some interval) :
      Waits r interval
  | pause (c : IterationContext) (s : σ) :
      Waits r ((r.pool.workload.invoke c s).1.ending.thinkTime r.pool.thinkTime)

/-- The clock gets to the end of whatever a run waits for while it follows its schedule: it finds
that to be over one interval between two polls after the end of it at the latest. -/
def ClockLasts (start : Instant) (r : Run σ) : Prop :=
  ∀ d, r.Waits d → start.nanos + r.plan.schedule.total.nanos + r.plan.pollInterval.nanos +
    d.nanos < Instant.limit

theorem ClockLasts.intervalsFit (h : r.ClockLasts start) : r.IntervalsFit start where
  tell := by
    have hlong := h _ .tell
    omega
  judge interval hinterval := by
    have hlong := h _ (.judge hinterval)
    omega

end StagedLoad.Run
