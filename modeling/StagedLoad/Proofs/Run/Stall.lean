import Mathlib.Order.WellFounded
import StagedLoad.Proofs.Pool.Pending
import StagedLoad.Proofs.Run.Events

/-!
# Runs that stall

If users can go on for ever without taking time, the clock of a run can stand still.  If every
invocation takes time or is followed by a pause, only so much can happen within a millisecond,
and the clock goes on until the run stops.

## Main definitions

* `Run.StallsBefore` — from some step on the run follows its schedule and its clock stands
  still before a time.
* `Run.counted` — how often the run has done something, up to a bound.

## Main results

* `exists_quiet`, `exists_now_ne` — up to a time a run can do only so much, and its clock does not
  stand still when only users act.
* `Healthy.leaves_or_stalls` — with an event ahead a run stops unless it stalls.
* `Healthy.not_stalls` — a run whose invocations take time does not stall.
-/

namespace StagedLoad.Run

variable {σ : Type} {r : Run σ} {p n t : Nat} {reason : StopReason}

/-- From some step on a run follows its schedule for ever while its clock stands still, and
never gets to a time. -/
def StallsBefore (r : Run σ) (t : Nat) : Prop :=
  ∃ n, (r.after n).pool.now < t ∧
    ∀ m, n ≤ m → (r.after m).mode = .running ∧ (r.after m).pool.now = (r.after n).pool.now

/-- A sequence that never falls and stays below a bound is constant from somewhere on. -/
theorem exists_constant {f : Nat → Nat} {bound start : Nat}
    (hmono : ∀ n, start ≤ n → f n ≤ f (n + 1)) (hbound : ∀ n, start ≤ n → f n ≤ bound) :
    ∃ n, start ≤ n ∧ ∀ m, n ≤ m → f m = f n := by
  have hle : ∀ n, start ≤ n → ∀ m, n ≤ m → f n ≤ f m := by
    intro n hn m hm
    induction hm with
    | refl => exact Nat.le_refl _
    | @step m hm ih => exact Nat.le_trans ih (hmono m (Nat.le_trans hn hm))
  -- the induction is on how much is left up to the bound
  generalize hgap : bound - f start = gap
  induction gap using Nat.strong_induction_on generalizing start with
  | _ gap ih =>
    by_cases hconst : ∀ m, start ≤ m → f m = f start
    · exact ⟨start, Nat.le_refl _, hconst⟩
    · simp only [not_forall] at hconst
      obtain ⟨m, hm, hne⟩ := hconst
      have hrise := hle start (Nat.le_refl _) m hm
      have hroom := hbound m hm
      obtain ⟨n, hn, hrest⟩ := ih (bound - f m) (by omega)
        (fun n hn => hmono n (Nat.le_trans hm hn)) (fun n hn => hbound n (Nat.le_trans hm hn))
        (fun n hn => hle n (Nat.le_trans hm hn)) rfl
      exact ⟨n, Nat.le_trans hm hn, hrest⟩

/-! ### What a run does while its clock stands still -/

/-- How often a run has done something, each kind of thing counting up to a bound. -/
def counted (bound : Nat) (r : Run σ) : Nat :=
  min r.polls bound + min r.ticks bound + min r.evaluations bound

theorem counted_le (bound : Nat) (r : Run σ) : r.counted bound ≤ 3 * bound := by
  unfold counted
  omega

/-- Of a run that goes on after a task, one number has increased. -/
theorem counters_perform (task : Task)
    (hstays : (r.perform task).mode = .running) :
    (task = .poll ∧ (r.perform task).polls = r.polls + 1 ∧ (r.perform task).ticks = r.ticks ∧
      (r.perform task).evaluations = r.evaluations) ∨
    (task = .tell ∧ (r.perform task).polls = r.polls ∧ (r.perform task).ticks = r.ticks + 1 ∧
      (r.perform task).evaluations = r.evaluations) ∨
    (task = .judge ∧ (r.perform task).polls = r.polls ∧ (r.perform task).ticks = r.ticks ∧
      (r.perform task).evaluations = r.evaluations + 1) := by
  have hdoes := does_perform r task
  generalize r.perform task = r' at hdoes hstays ⊢
  cases hdoes with
  | complete | fail | abort | obey => cases hstays
  | adjust => exact .inl ⟨rfl, rfl, rfl, rfl⟩
  | tell => exact .inr (.inl ⟨rfl, rfl, rfl, rfl⟩)
  | judge => exact .inr (.inr ⟨rfl, rfl, rfl, rfl⟩)

/-- A task that a run does and goes on counts, if the bound is large enough for its time. -/
theorem counted_perform_lt (hintervals : r.plan.pollInterval.isZero = false ∧
      r.plan.progressInterval.isZero = false ∧
      ∀ interval, r.plan.evaluationInterval = some interval → interval.isZero = false)
    (hstays : (r.whenDue.perform r.nextTask.2).mode = .running) {bound : Nat}
    (hbound : r.nextTask.1 * Duration.nanosPerMilli < bound) :
    r.counted bound < (r.whenDue.perform r.nextTask.2).counted bound := by
  have htime := time_of_nextTask r
  rcases counters_perform _ hstays with
    ⟨htask, hpolls, hticks, hevaluations⟩ | ⟨htask, hpolls, hticks, hevaluations⟩ |
    ⟨htask, hpolls, hticks, hevaluations⟩
  · rw [htask] at htime
    have hle := le_intervalEnd hintervals.1 r.polls
    rw [← show r.nextTask.1 = _ from htime] at hle
    simp only [counted, hpolls, hticks, hevaluations, polls_whenDue, ticks_whenDue,
      evaluations_whenDue]
    omega
  · rw [htask] at htime
    have hle := le_intervalEnd hintervals.2.1 (r.ticks + 1)
    rw [← show r.nextTask.1 = _ from htime] at hle
    simp only [counted, hpolls, hticks, hevaluations, polls_whenDue, ticks_whenDue,
      evaluations_whenDue]
    omega
  · rw [htask] at htime
    obtain ⟨interval, hinterval, htime⟩ := htime
    have hle := le_intervalEnd (hintervals.2.2 interval hinterval) (r.evaluations + 1)
    rw [← htime] at hle
    simp only [counted, hpolls, hticks, hevaluations, polls_whenDue, ticks_whenDue,
      evaluations_whenDue]
    omega

/-- Up to any time a run can do only so much; afterwards only users act. -/
theorem exists_quiet (hintervals : r.plan.pollInterval.isZero = false ∧
      r.plan.progressInterval.isZero = false ∧
      ∀ interval, r.plan.evaluationInterval = some interval → interval.isZero = false)
    {start last : Nat} (hmode : ∀ n, start ≤ n → (r.after n).mode = .running)
    (hlast : ∀ n, start ≤ n → r.Performs n → (r.after n).nextTask.1 ≤ last) :
    ∃ quiet, start ≤ quiet ∧ ∀ n, quiet ≤ n → ¬ r.Performs n := by
  obtain ⟨bound, hbound⟩ : ∃ bound, last * Duration.nanosPerMilli < bound :=
    ⟨_, Nat.lt_succ_self _⟩
  have hcounted : ∀ n, start ≤ n → r.Performs n →
      (r.after n).counted bound < (r.after (n + 1)).counted bound := by
    intro n hn hperform
    have hstays := hmode (n + 1) (by omega)
    rw [hperform.step] at hstays ⊢
    refine counted_perform_lt (by rwa [plan_after]) hstays ?_
    exact Nat.lt_of_le_of_lt (Nat.mul_le_mul_right _ (hlast n hn hperform)) hbound
  have hmono : ∀ n, start ≤ n →
      (r.after n).counted bound ≤ (r.after (n + 1)).counted bound := by
    intro n hn
    rcases user_or_performs (hmode n hn) with ⟨t, u, -, -, hstep⟩ | hperform
    · rw [hstep]
      exact Nat.le_refl _
    · exact Nat.le_of_lt (hcounted n hn hperform)
  obtain ⟨quiet, hquiet, hconst⟩ :=
    exists_constant hmono fun n _ => counted_le bound (r.after n)
  refine ⟨quiet, hquiet, ?_⟩
  intro n hn hperform
  have hlt := hcounted n (Nat.le_trans hquiet hn) hperform
  rw [hconst n hn, hconst (n + 1) (by omega)] at hlt
  exact Nat.lt_irrefl _ hlt

/-- What users can do without any time passing runs out, so the clock of a run in which only
users act does not stand still. -/
theorem exists_now_ne (hgenuine : r.pool.Genuine)
    (htakes : r.pool.workload.TakesTime r.pool.thinkTime) {start : Nat}
    (hmode : ∀ n, start ≤ n → (r.after n).mode = .running)
    (hvalid : ∀ n, start ≤ n → (r.after n).pool.Valid)
    (hidle : ∀ n, start ≤ n → ¬ r.Performs n) :
    ∃ n, start ≤ n ∧ (r.after (n + 1)).pool.now ≠ (r.after n).pool.now := by
  by_contra hstill
  have hless : ∀ n, start ≤ n → (r.after (n + 1)).pool.pending < (r.after n).pool.pending := by
    intro n hn
    have hclock : (r.after (n + 1)).pool.now = (r.after n).pool.now := by
      by_contra hne
      exact hstill ⟨n, hn, hne⟩
    have hcourse := course_after r (Nat.zero_le n)
    rcases user_or_performs (hmode n hn) with ⟨t, u, hnext, -, hstep⟩ | hperform
    · rw [hstep] at hclock ⊢
      refine Pool.pending_actAt_lt (hvalid n hn) (hgenuine.course hcourse) ?_ hnext hclock
      rw [hcourse.workload.1, hcourse.workload.2]
      exact htakes
    · exact absurd hperform (hidle n hn)
  obtain ⟨k, hk⟩ :=
    WellFounded.not_rel_apply_succ (r := (· < ·)) fun k => (r.after (start + k)).pool.pending
  exact hk (hless (start + k) (Nat.le_add_right _ _))

/-- While its clock stands still a healthy run can do only so much. -/
theorem Healthy.exists_quiet (h : r.Healthy p) {start : Nat}
    (hstall : ∀ m, start ≤ m →
      (r.after m).mode = .running ∧ (r.after m).pool.now = (r.after start).pool.now) :
    ∃ quiet, start ≤ quiet ∧ ∀ n, quiet ≤ n → ¬ r.Performs n := by
  have hlast : ∀ n, start ≤ n → r.Performs n →
      (r.after n).nextTask.1 ≤ (r.after start).pool.now := by
    intro n hn hperform
    rw [← (hperform.pool (h.tracking (hstall n hn).1)).1]
    exact Nat.le_of_eq (hstall (n + 1) (by omega)).2
  exact Run.exists_quiet h.intervals (fun n hn => (hstall n hn).1) hlast

/-! ### Stopping or stalling -/

/-- As long as a healthy run follows its schedule, its clock does not go beyond an event. -/
theorem Healthy.now_le (h : r.Healthy p) (hmode : (r.after n).mode = .running)
    (hevent : r.StopEvent p t reason) : (r.after n).pool.now ≤ t := by
  have htracking := h.tracking hmode
  exact Nat.le_trans htracking.punctual.now_le_nextTask (htracking.nextTask_le h.poll hevent)

/-- A healthy run with an event ahead stops following its schedule, or it stalls before the
event. -/
theorem Healthy.leaves_or_stalls (h : r.Healthy p) (hevent : r.StopEvent p t reason) :
    (∃ n reason, r.StopsAt p n reason) ∨ r.StallsBefore t := by
  by_cases hleaves : ∃ n, (r.after n).mode = .running ∧ (r.after (n + 1)).mode ≠ .running
  · obtain ⟨n, hmode, hleaves⟩ := hleaves
    exact .inl ⟨n, h.stopsAt hmode hleaves⟩
  · have hrunning : ∀ n, 1 ≤ n → (r.after n).mode = .running := by
      intro n hn
      induction hn with
      | refl =>
        obtain ⟨plan, workload, state, think, reporting, aborts, rfl⟩ := h.fresh
        rfl
      | @step n hn ih =>
        by_contra hstop
        exact hleaves ⟨n, ih, hstop⟩
    have hmono : ∀ n, 1 ≤ n → (r.after n).pool.now ≤ (r.after (n + 1)).pool.now :=
      fun n _ => now_mono r (Nat.le_succ n)
    obtain ⟨n, hn, hconst⟩ := exists_constant hmono fun n hn => h.now_le (hrunning n hn) hevent
    have hstall : ∀ m, n ≤ m →
        (r.after m).mode = .running ∧ (r.after m).pool.now = (r.after n).pool.now :=
      fun m hm => ⟨hrunning m (Nat.le_trans hn hm), hconst m hm⟩
    -- the run does what is due before any user acts, so an event would not have to wait
    obtain ⟨quiet, hquiet, hidle⟩ := h.exists_quiet hstall
    obtain ⟨hmode, hnow⟩ := hstall quiet hquiet
    rcases user_or_performs hmode with ⟨d, u, hnext, hbefore, -⟩ | hperform
    · obtain ⟨hmem, hdue, -⟩ := Pool.next?_eq_some hnext
      have hpunctual := (h.sound hmode).1.valid.punctual u hmem d hdue
      have hle := (h.tracking hmode).nextTask_le h.poll hevent
      exact .inr ⟨n, by omega, hstall⟩
    · exact absurd hperform (hidle quiet (Nat.le_refl _))

/-! ### Not stalling -/

/-- A healthy run whose invocations take time or are followed by a pause does not stall. -/
theorem Healthy.not_stalls (h : r.Healthy p)
    (htakes : r.pool.workload.TakesTime r.pool.thinkTime) (t : Nat) : ¬ r.StallsBefore t := by
  rintro ⟨start, -, hstall⟩
  obtain ⟨quiet, hquiet, hidle⟩ := h.exists_quiet hstall
  have hgenuine : r.pool.Genuine := by
    obtain ⟨plan, workload, state, think, reporting, aborts, rfl⟩ := h.fresh
    exact Pool.genuine_of_users_eq_nil rfl
  have hmode : ∀ n, quiet ≤ n → (r.after n).mode = .running := fun n hn =>
    (hstall n (Nat.le_trans hquiet hn)).1
  obtain ⟨n, hn, hne⟩ :=
    exists_now_ne hgenuine htakes hmode (fun n hn => (h.sound (hmode n hn)).1.valid) hidle
  exact hne ((hstall (n + 1) (by omega)).2.trans (hstall n (by omega)).2.symm)

end StagedLoad.Run
