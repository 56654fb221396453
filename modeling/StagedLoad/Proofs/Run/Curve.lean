import StagedLoad.Proofs.Pool.Resize
import StagedLoad.Proofs.Run.Agenda
import StagedLoad.Proofs.Schedule.Curve

/-!
# A run on its curve

From each poll to the next one a run keeps as many live users as its schedule asked for at the
poll, whatever its users do meanwhile, and the peak is the greatest of these numbers.

## Main definitions

* `Run.usersAt` — how many users the schedule asks for at a millisecond.
* `Run.OnCurve` — a run that follows its schedule.

## Main results

* `OnCurve.user`, `OnCurve.whenDue`, `OnCurve.adjust` — a run stays on its curve.
-/

namespace StagedLoad.Run

variable {σ : Type} {r : Run σ} {p : Nat}

/-- How many users the schedule of a run asks for at a millisecond, unless it is over. -/
def usersAt (r : Run σ) (t : Nat) : Option Nat :=
  (r.plan.schedule.targetAt (Duration.ofMillis t)).users?.map UInt64.toNat

/-- The schedule asks for users as long as not more than its total has passed. -/
theorem usersAt_eq_none {t : Nat} :
    r.usersAt t = none ↔ r.plan.schedule.total < Duration.ofMillis t := by
  rw [← Schedule.targetAt_eq_completed, usersAt]
  cases r.plan.schedule.targetAt (Duration.ofMillis t) <;> simp [ScheduleTarget.users?]

/-- The greatest number of users that the schedule asked for at the first polls. -/
def peakAfter (r : Run σ) (p polls : Nat) : Nat :=
  ((List.range polls).map fun k => (r.usersAt (k * p)).getD 0).foldl max 0

theorem peakAfter_succ (r : Run σ) (p polls : Nat) :
    r.peakAfter p (polls + 1) = max (r.peakAfter p polls) ((r.usersAt (polls * p)).getD 0) := by
  simp [peakAfter, List.range_succ]

/-- A run that polls every `p` milliseconds follows its schedule. -/
structure OnCurve (r : Run σ) (p : Nat) : Prop where
  /-- Before the first poll nobody is alive, and no time has passed. -/
  waiting : r.polls = 0 → r.pool.now = 0 ∧ r.pool.live = []
  /-- After a poll there are as many live users as the schedule asked for. -/
  live : ∀ k, r.polls = k + 1 →
    k * p ≤ r.pool.now ∧ r.usersAt (k * p) = some r.pool.live.length
  /-- The next poll has not been missed. -/
  next : r.pool.now ≤ r.polls * p
  /-- The schedule was not over at any poll. -/
  going : ∀ k < r.polls, r.usersAt (k * p) ≠ none
  /-- The peak is the greatest number that the schedule asked for at a poll. -/
  peak : r.pool.peak = r.peakAfter p r.polls

/-- A run stays on its curve while time passes up to the next poll and nobody is told to live
or to retire. -/
theorem OnCurve.of_frame {r' : Run σ} (h : r.OnCurve p) (hplan : r'.plan = r.plan)
    (hpolls : r'.polls = r.polls) (hlive : r'.pool.live = r.pool.live)
    (hpeak : r'.pool.peak = r.pool.peak) (hnow : r.pool.now ≤ r'.pool.now)
    (hnext : r'.pool.now ≤ r.polls * p) : r'.OnCurve p := by
  have husers : ∀ t, r'.usersAt t = r.usersAt t := by
    intro t
    rw [usersAt, usersAt, hplan]
  refine ⟨?_, ?_, ?_, ?_, ?_⟩
  · intro hzero
    rw [hpolls] at hzero
    have := (h.waiting hzero).2
    rw [hzero, Nat.zero_mul] at hnext
    exact ⟨Nat.le_zero.1 hnext, hlive.trans this⟩
  · intro k hk
    rw [hpolls] at hk
    obtain ⟨hsince, hcount⟩ := h.live k hk
    exact ⟨Nat.le_trans hsince hnow, by rw [husers, hlive, hcount]⟩
  · rw [hpolls]
    exact hnext
  · intro k hk
    rw [husers]
    exact h.going k (hpolls ▸ hk)
  · rw [hpeak, h.peak, hpolls]
    simp only [peakAfter, husers]

section Poll

variable (hpoll : r.plan.pollInterval.nanos = p * Duration.nanosPerMilli)

include hpoll

/-- The next task is not later than the next poll. -/
theorem nextTask_le_poll : r.nextTask.1 ≤ r.polls * p := by
  have hle := nextTask_le (mem_agenda.2 (.inl rfl) :
    (intervalEnd r.polls r.plan.pollInterval, Task.poll) ∈ r.agenda)
  rwa [intervalEnd_of_millis hpoll] at hle

/-- A run stays on its curve when a user acts before the next task. -/
theorem OnCurve.user {t : Nat} {u : VirtualUser} (h : r.OnCurve p) (hbefore : t < r.nextTask.1) :
    OnCurve { r with pool := r.pool.actAt t u } p := by
  have hnext := nextTask_le_poll hpoll
  refine h.of_frame rfl rfl (Pool.live_act _ _) (Pool.peak_act _ _) ?_ ?_
  · rw [Pool.actAt, Pool.now_act]
    exact Nat.le_max_left _ _
  · rw [Pool.actAt, Pool.now_act]
    exact Nat.max_le.2 ⟨h.next, by omega⟩

/-- A run is on its curve when its next task is due. -/
theorem OnCurve.whenDue (h : r.OnCurve p) : r.whenDue.OnCurve p :=
  h.of_frame rfl rfl rfl rfl (Nat.le_max_left _ _)
    (Nat.max_le.2 ⟨h.next, nextTask_le_poll hpoll⟩)

end Poll

/-- A run stays on its curve when it brings its users in line with the schedule at the time of
its next poll. -/
theorem OnCurve.adjust {pool : Pool σ} {target : UInt64} {l : List Departure} (h : r.OnCurve p)
    (hnow : r.pool.now = r.polls * p)
    (htarget : r.plan.schedule.targetAt r.elapsed = .active target)
    (hpool : pool = ({ r.pool with departures := l } : Pool σ).resize target.toNat) :
    OnCurve { r with
      pool := if r.polls = 0 then pool.start else pool, polls := r.polls + 1 } p := by
  obtain ⟨recorder, users, live, nextId, hresize, -, hlength⟩ :=
    Pool.resize_spec ({ r.pool with departures := l } : Pool σ) target.toNat
  have hframe : ∀ q : Pool σ, q = (if r.polls = 0 then pool.start else pool) →
      q.now = r.pool.now ∧ q.live = live ∧ q.peak = max r.pool.peak target.toNat := by
    rintro q rfl
    rw [hpool, hresize]
    split <;> exact ⟨rfl, rfl, rfl⟩
  -- whether it is started or not, the pool has the same clock, live users and peak
  obtain ⟨hqnow, hqlive, hqpeak⟩ := hframe _ rfl
  have husers : r.usersAt (r.polls * p) = some target.toNat := by
    rw [usersAt, ← hnow, ← elapsed, htarget]
    rfl
  refine ⟨fun hzero => absurd hzero (Nat.succ_ne_zero _), ?_, ?_, ?_, ?_⟩
  · intro k hk
    have hkp : k = r.polls := (Nat.succ.inj hk).symm
    subst hkp
    dsimp only at hqnow hqlive ⊢
    rw [hqnow, hqlive, hlength]
    exact ⟨Nat.le_of_eq hnow.symm, husers⟩
  · dsimp only at hqnow ⊢
    rw [hqnow, hnow]
    exact Nat.mul_le_mul_right p (Nat.le_succ _)
  · intro k hk
    rcases Nat.lt_or_eq_of_le (Nat.le_of_lt_succ hk) with hlt | rfl
    · exact h.going k hlt
    · intro hnone
      have := husers.symm.trans hnone
      cases this
  · have hpeak := peakAfter_succ r p r.polls
    rw [husers, Option.getD_some, ← h.peak] at hpeak
    dsimp only at hqpeak ⊢
    exact hqpeak.trans hpeak.symm

end StagedLoad.Run
