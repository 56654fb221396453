import StagedLoad.Proofs.Run.Curve
import StagedLoad.Proofs.Run.Outcome
import StagedLoad.Proofs.Threshold.Rule

/-!
# What stops a run

Three kinds of events stop a run: a poll after the end of the schedule, an evaluation of what
had been recorded so far in which a rule fails whose failure stops the run, and a request.  A
run follows its schedule up to the earliest of them.

## Main definitions

* `Run.RecordedBefore` — what had been recorded when the clock reached a time.
* `Run.StopEvent` — the events, and the reasons that they give.
* `Run.Tracking` — a run that follows its schedule and has missed no event.
* `Run.StopsAt` — a run that stops for the earliest event.
* `Run.Healthy` — a run in which nothing crashes.

## Main results

* `Tracking.nextTask_le` — no event is earlier than the next task.
* `Tracking.step` — a run goes on tracking, or it stops for the earliest event.
* `Healthy.tracking`, `Healthy.stopsAt` — so it is after any number of steps.
-/

namespace StagedLoad.Run

variable {σ : Type} {r : Run σ} {p n t : Nat} {reason : StopReason} {samples : List Sample}

/-! ### What had been recorded -/

/-- These samples had been recorded when the clock of a run reached a time. -/
def RecordedBefore (r : Run σ) (t : Nat) (samples : List Sample) : Prop :=
  ∃ m, (r.after m).pool.now < t ∧ t ≤ (r.after (m + 1)).pool.now ∧
    (r.after m).pool.recorder.snapshot = samples

theorem now_mono (r : Run σ) {m n : Nat} (h : m ≤ n) :
    (r.after m).pool.now ≤ (r.after n).pool.now :=
  (course_after r h).now_le

/-- The clock reaches a time only once. -/
theorem RecordedBefore.unique {samples' : List Sample} (h : r.RecordedBefore t samples)
    (h' : r.RecordedBefore t samples') : samples = samples' := by
  obtain ⟨m, hbefore, hafter, rfl⟩ := h
  obtain ⟨m', hbefore', hafter', rfl⟩ := h'
  rcases Nat.lt_trichotomy m m' with hlt | rfl | hlt
  · have := now_mono r (show m + 1 ≤ m' from hlt)
    omega
  · rfl
  · have := now_mono r (show m' + 1 ≤ m from hlt)
    omega

/-! ### Events -/

/-- What stops a run that polls every `p` milliseconds, when, and for which reason. -/
inductive StopEvent (r : Run σ) (p : Nat) : Nat → StopReason → Prop
  /-- At a poll more than the total of the schedule has passed. -/
  | finished {k : Nat} (passed : r.plan.schedule.total < Duration.ofMillis (k * p)) :
      StopEvent r p (k * p) .scheduleCompleted
  /-- At an evaluation the judgement of what had been recorded says so. -/
  | failed {j : Nat} {interval : Duration} {samples : List Sample}
      (evaluated : r.plan.evaluationInterval = some interval)
      (recorded : r.RecordedBefore (intervalEnd (j + 1) interval) samples)
      (abort : (r.plan.judge (r.plan.statistics samples
        (Duration.ofMillis (intervalEnd (j + 1) interval)))).shouldAbort = true) :
      StopEvent r p (intervalEnd (j + 1) interval) .thresholdAbort
  /-- The run is asked to stop. -/
  | asked {t : Nat} (request : t ∈ r.aborts) : StopEvent r p t .aborted

/-- After some steps a run is on its curve, nothing on its agenda is overdue, and it has missed
no event. -/
structure Tracking (r : Run σ) (p n : Nat) : Prop where
  /-- There are as many live users as there should be. -/
  curve : (r.after n).OnCurve p
  /-- Nothing on the agenda is overdue. -/
  punctual : (r.after n).Punctual
  /-- Whatever is due now, nothing has been recorded since the clock shows this time. -/
  settled : 0 < (r.after n).pool.now → (r.after n).pool.now = (r.after n).nextTask.1 →
    r.RecordedBefore (r.after n).pool.now (r.after n).pool.recorder.snapshot
  /-- No evaluation so far said that the run must stop. -/
  judged : ∀ j < (r.after n).evaluations, ∀ interval, r.plan.evaluationInterval = some interval →
    ∀ samples, r.RecordedBefore (intervalEnd (j + 1) interval) samples →
      (r.plan.judge (r.plan.statistics samples
        (Duration.ofMillis (intervalEnd (j + 1) interval)))).shouldAbort = false

/-- With its next step a run stops for an event, which is the earliest one.  Its peak is the
greatest number of users that its schedule asked for at the polls that there were. -/
structure StopsAt (r : Run σ) (p n : Nat) (reason : StopReason) : Prop where
  /-- The run follows its schedule. -/
  running : (r.after n).mode = .running
  /-- The next step stops it. -/
  draining : (r.after (n + 1)).mode = .draining (.ok reason)
  /-- There is an event. -/
  event : r.StopEvent p (r.after (n + 1)).pool.now reason
  /-- No event is earlier. -/
  earliest : ∀ t reason', r.StopEvent p t reason' → (r.after (n + 1)).pool.now ≤ t
  /-- The peak is that of the polls up to now. -/
  peak : ∃ polls, (∀ k, k * p < (r.after (n + 1)).pool.now → k < polls) ∧
    (∀ k < polls, k * p ≤ (r.after (n + 1)).pool.now) ∧
    (r.after (n + 1)).pool.peak = r.peakAfter p polls

theorem usersAt_after (r : Run σ) (n t : Nat) : (r.after n).usersAt t = r.usersAt t := by
  rw [usersAt, usersAt, plan_after]

theorem peakAfter_after (r : Run σ) (n p polls : Nat) :
    (r.after n).peakAfter p polls = r.peakAfter p polls := by
  simp only [peakAfter, usersAt_after]

/-! ### What a task does not change -/

/-- What a run does takes no time, and no sample comes or goes. -/
theorem pool_perform (r : Run σ) (task : Task) : (r.perform task).pool.now = r.pool.now ∧
    (r.perform task).pool.recorder.snapshot = r.pool.recorder.snapshot := by
  have hdoes := does_perform r task
  generalize r.perform task = r' at hdoes ⊢
  cases hdoes with
  | complete | tell | abort | judge | obey => exact ⟨rfl, rfl⟩
  | @fail target _ _ _ faulty =>
    have hframe := Pool.frame_reconcile r.pool target.toNat
    rw [faulty] at hframe
    exact hframe
  | @adjust target _ _ fine =>
    have hframe := Pool.frame_reconcile r.pool target.toNat
    rw [fine] at hframe
    dsimp only at hframe ⊢
    split <;> exact hframe

/-! ### No event is missed -/

/-- No event is earlier than the next task. -/
theorem Tracking.nextTask_le (h : r.Tracking p n)
    (hpoll : r.plan.pollInterval.nanos = p * Duration.nanosPerMilli)
    (hevent : r.StopEvent p t reason) : (r.after n).nextTask.1 ≤ t := by
  have hagenda : ∀ e ∈ (r.after n).agenda, (r.after n).nextTask.1 ≤ e.1 := fun _ he =>
    Run.nextTask_le he
  rw [← plan_after r n] at hpoll
  cases hevent with
  | @finished k passed =>
    have hle := nextTask_le_poll hpoll
    rcases Nat.lt_or_ge k (r.after n).polls with hlt | hge
    · have hgoing := h.curve.going k hlt
      rw [usersAt_after] at hgoing
      exact absurd (usersAt_eq_none.2 passed) hgoing
    · exact Nat.le_trans hle (Nat.mul_le_mul_right p hge)
  | @failed j interval samples evaluated recorded abort =>
    rcases Nat.lt_or_ge j (r.after n).evaluations with hlt | hge
    · rw [h.judged j hlt interval evaluated samples recorded] at abort
      cases abort
    · refine Nat.le_trans (hagenda _ (mem_agenda.2 (.inr (.inr (.inl ⟨interval, ?_, rfl⟩))))) ?_
      · rw [plan_after, evaluated]
      · exact intervalEnd_mono interval (by omega)
  | asked request =>
    refine hagenda (t, .obey) (mem_agenda.2 (.inr (.inr (.inr ⟨t, ?_, rfl⟩))))
    rw [aborts_after]
    exact request

/-- When the next task is due, nothing has been recorded since the clock shows its time. -/
theorem Tracking.recorded (h : r.Tracking p n)
    (hstep : (r.after (n + 1)).pool.now = (r.after n).nextTask.1)
    (hpos : 0 < (r.after n).nextTask.1) :
    r.RecordedBefore (r.after n).nextTask.1 (r.after n).pool.recorder.snapshot := by
  rcases Nat.lt_or_eq_of_le h.punctual.now_le_nextTask with hlt | heq
  · exact ⟨n, hlt, Nat.le_of_eq hstep.symm, rfl⟩
  · have hsettled := h.settled (by omega) heq
    rwa [heq] at hsettled

/-- A run that does its next task and goes on keeps tracking. -/
theorem Tracking.next (h : r.Tracking p n)
    (hnow : (r.after (n + 1)).pool.now = (r.after n).nextTask.1)
    (hsnapshot : (r.after (n + 1)).pool.recorder.snapshot = (r.after n).pool.recorder.snapshot)
    (hcurve : (r.after (n + 1)).OnCurve p)
    (hreporting : (r.after (n + 1)).reporting = (r.after n).reporting)
    (hpolls : (r.after n).polls ≤ (r.after (n + 1)).polls)
    (hticks : (r.after n).ticks ≤ (r.after (n + 1)).ticks)
    (hevaluations : (r.after n).evaluations ≤ (r.after (n + 1)).evaluations)
    (hjudged : ∀ j, (r.after n).evaluations ≤ j → j < (r.after (n + 1)).evaluations →
      ∀ interval, r.plan.evaluationInterval = some interval →
      ∀ samples, r.RecordedBefore (intervalEnd (j + 1) interval) samples →
        (r.plan.judge (r.plan.statistics samples
          (Duration.ofMillis (intervalEnd (j + 1) interval)))).shouldAbort = false) :
    r.Tracking p (n + 1) where
  curve := hcurve
  punctual := Punctual.next hnow (by rw [plan_after, plan_after])
    (by rw [aborts_after, aborts_after]) hreporting hpolls hticks hevaluations
  settled hpos _ := by
    rw [hsnapshot, hnow]
    exact h.recorded hnow (hnow ▸ hpos)
  judged j hj := by
    rcases Nat.lt_or_ge j (r.after n).evaluations with hlt | hge
    · exact h.judged j hlt
    · exact hjudged j hge hj

/-- A run that stops with its next task, for an event at the time of the task, stops for the
earliest event. -/
theorem Tracking.stops (h : r.Tracking p n)
    (hpoll : r.plan.pollInterval.nanos = p * Duration.nanosPerMilli)
    (hrunning : (r.after n).mode = .running)
    (hdraining : (r.after (n + 1)).mode = .draining (.ok reason))
    (hnow : (r.after (n + 1)).pool.now = (r.after n).nextTask.1)
    (hpeak : (r.after (n + 1)).pool.peak = (r.after n).pool.peak)
    (hevent : r.StopEvent p (r.after n).nextTask.1 reason) : r.StopsAt p n reason where
  running := hrunning
  draining := hdraining
  event := by rw [hnow]; exact hevent
  earliest t reason' ht := by
    rw [hnow]
    exact h.nextTask_le hpoll ht
  peak := by
    rw [hnow]
    refine ⟨(r.after n).polls, ?_, ?_, ?_⟩
    · intro k hk
      have hle := nextTask_le_poll (r := r.after n) (by rw [plan_after, hpoll])
      exact Nat.lt_of_mul_lt_mul_right (Nat.lt_of_lt_of_le hk hle)
    · intro k hk
      obtain ⟨last, hlast⟩ : ∃ last, (r.after n).polls = last + 1 :=
        ⟨(r.after n).polls - 1, by omega⟩
      have hsince := (h.curve.live last hlast).1
      have hle := Nat.mul_le_mul_right p (show k ≤ last by omega)
      have hdue := h.punctual.now_le_nextTask
      omega
    · rw [hpeak, h.curve.peak, peakAfter_after]

/-! ### Going on or stopping -/

/-- A run that polls every `p` milliseconds and in which no invocation ever crashes. -/
structure Healthy (r : Run σ) (p : Nat) : Prop where
  /-- Polls are whole milliseconds apart. -/
  poll : r.plan.pollInterval.nanos = p * Duration.nanosPerMilli
  /-- No interval is zero. -/
  intervals : r.plan.pollInterval.isZero = false ∧ r.plan.progressInterval.isZero = false ∧
    ∀ interval, r.plan.evaluationInterval = some interval → interval.isZero = false
  /-- Nothing has happened yet. -/
  fresh : ∃ plan workload state think reporting aborts,
    r = { plan, pool := { workload, state, thinkTime := think }, reporting, aborts }
  /-- The run knows about crashes. -/
  faithful : r.Faithful r.pool.Crashing
  /-- The run gives up its users when it stops. -/
  closing : r.Closing
  /-- No invocation crashes. -/
  quiet : ∀ n cause, ¬ (r.after n).pool.Crashing cause

/-- A healthy run that follows its schedule has a sound pool that nobody crashed in. -/
theorem Healthy.sound (h : r.Healthy p) (hmode : (r.after n).mode = .running) :
    (r.after n).pool.Sound ∧ ∀ cause, ¬ (r.after n).pool.Crashed cause := by
  have hknown := h.faithful.after h.closing n
  rw [Faithful, hmode] at hknown
  refine ⟨hknown.1, ?_⟩
  intro cause hcrashed
  obtain ⟨m, -, hm⟩ := (hknown.2 cause).1 (.inr hcrashed)
  exact h.quiet m cause hm

theorem Healthy.poll_after (h : r.Healthy p) (n : Nat) :
    (r.after n).plan.pollInterval.nanos = p * Duration.nanosPerMilli := by
  rw [plan_after, h.poll]

/-- A run that keeps tracking is still on its curve when its next task is due. -/
theorem Tracking.curve_whenDue (h : r.Tracking p n) (hhealthy : r.Healthy p) :
    (r.after n).whenDue.OnCurve p := h.curve.whenDue (hhealthy.poll_after n)

/-- The step in which a run does its next task. -/
structure Performs (r : Run σ) (n : Nat) : Prop where
  /-- The run does what is due. -/
  step : r.after (n + 1) = (r.after n).whenDue.perform (r.after n).nextTask.2
  /-- Nobody is due before. -/
  first : (r.after n).pool.NoneDueBefore (r.after n).nextTask.1

section Performs

variable (hhealthy : r.Healthy p) (h : r.Tracking p n) (hmode : (r.after n).mode = .running)
  (hperform : r.Performs n)

include hperform in
/-- After the next task the clock shows its time, and no sample has come or gone. -/
theorem Performs.pool (h : r.Tracking p n) :
    (r.after (n + 1)).pool.now = (r.after n).nextTask.1 ∧
      (r.after (n + 1)).pool.recorder.snapshot = (r.after n).pool.recorder.snapshot := by
  obtain ⟨hnow, hsnapshot⟩ := pool_perform (r.after n).whenDue (r.after n).nextTask.2
  rw [hperform.step]
  exact ⟨hnow.trans h.punctual.now_whenDue, hsnapshot⟩

include hperform in
theorem Performs.does :
    Does (r.after n).whenDue (r.after n).nextTask.2 (r.after (n + 1)) := by
  rw [hperform.step]
  exact does_perform _ _

include hhealthy in
/-- Polls are due at multiples of the time between them. -/
theorem nextTask_of_poll (htask : (r.after n).nextTask.2 = .poll) :
    (r.after n).nextTask.1 = (r.after n).polls * p := by
  have hspec := time_of_nextTask (r.after n)
  rw [htask] at hspec
  exact hspec.trans (intervalEnd_of_millis (hhealthy.poll_after n) _)

include hhealthy h hperform in
/-- What a run judges is what had been recorded when the clock reached the time at which it was
due to judge. -/
theorem Performs.evaluation (htask : (r.after n).nextTask.2 = .judge) : ∃ interval samples,
    r.plan.evaluationInterval = some interval ∧
    (r.after n).nextTask.1 = intervalEnd ((r.after n).evaluations + 1) interval ∧
    r.RecordedBefore (intervalEnd ((r.after n).evaluations + 1) interval) samples ∧
    (r.after n).whenDue.evaluation = r.plan.judge (r.plan.statistics samples
      (Duration.ofMillis (intervalEnd ((r.after n).evaluations + 1) interval))) := by
  obtain ⟨interval, hinterval, htime⟩ : ∃ interval,
      (r.after n).plan.evaluationInterval = some interval ∧
      (r.after n).nextTask.1 = intervalEnd ((r.after n).evaluations + 1) interval := by
    have hspec := time_of_nextTask (r.after n)
    rwa [htask] at hspec
  rw [plan_after] at hinterval
  refine ⟨interval, (r.after n).pool.recorder.snapshot, hinterval, htime, ?_, ?_⟩
  · have hpos := intervalEnd_pos (hhealthy.intervals.2.2 interval hinterval)
      (r.after n).evaluations
    rw [← htime] at hpos ⊢
    exact h.recorded (hperform.pool h).1 hpos
  · rw [Run.evaluation, elapsed, h.punctual.now_whenDue, htime]
    rw [show (r.after n).whenDue.plan = r.plan from plan_after r n]
    rfl

include hhealthy h hmode hperform

/-- A run that is due to bring its users in line with the schedule does so, or the schedule is
over. -/
theorem Performs.poll (htask : (r.after n).nextTask.2 = .poll) :
    ((r.after (n + 1)).mode = .running ∧ r.Tracking p (n + 1)) ∨
      ∃ reason, r.StopsAt p n reason := by
  obtain ⟨hnow, hsnapshot⟩ := hperform.pool h
  obtain ⟨hsound, hfine⟩ := hhealthy.sound hmode
  have htime := nextTask_of_poll hhealthy htask
  have hdue : (r.after n).whenDue.pool.Sound := hsound.pass hperform.first
  have hdoes := hperform.does
  rw [htask] at hdoes
  generalize hafter : r.after (n + 1) = r' at hdoes
  cases hdoes with
  | complete isOver =>
    refine .inr ⟨.scheduleCompleted, h.stops hhealthy.poll hmode ?_ hnow ?_ ?_⟩
    · rw [hafter]; rfl
    · rw [hafter]; rfl
    · rw [htime]
      refine .finished ?_
      rw [Schedule.targetAt_eq_completed, elapsed, h.punctual.now_whenDue, htime] at isOver
      rwa [← plan_after r n]
  | fail _ faulty =>
    -- a fault would be a crash, and in a healthy run nobody crashes
    obtain ⟨cause, -, hcrashed⟩ := Pool.reconcile_some hdue.valid hdue.accounted faulty
    exact absurd hcrashed (hfine cause)
  | @adjust target pool active fine =>
    obtain ⟨-, hpool⟩ := Pool.reconcile_none hdue.valid hdue.accounted hdue.going fine
    have hcurve := (h.curve_whenDue hhealthy).adjust (h.punctual.now_whenDue.trans htime)
      active hpool
    rw [← hafter] at hcurve
    have hfields : (r.after (n + 1)).mode = (r.after n).mode ∧
        (r.after (n + 1)).reporting = (r.after n).reporting ∧
        (r.after (n + 1)).polls = (r.after n).polls + 1 ∧
        (r.after (n + 1)).ticks = (r.after n).ticks ∧
        (r.after (n + 1)).evaluations = (r.after n).evaluations := by
      rw [hafter]
      exact ⟨rfl, rfl, rfl, rfl, rfl⟩
    obtain ⟨hmode', hreporting, hpolls, hticks, hevaluations⟩ := hfields
    refine .inl ⟨hafter ▸ hmode'.trans hmode, ?_⟩
    exact h.next hnow hsnapshot hcurve hreporting (by omega) (Nat.le_of_eq hticks.symm)
      (Nat.le_of_eq hevaluations.symm) (fun j hj hj' => by omega)

/-- A run that is due to tell of its progress does so and goes on. -/
theorem Performs.tell (htask : (r.after n).nextTask.2 = .tell) :
    (r.after (n + 1)).mode = .running ∧ r.Tracking p (n + 1) := by
  obtain ⟨hnow, hsnapshot⟩ := hperform.pool h
  have hstep : r.after (n + 1) = (r.after n).whenDue.tell := by
    rw [hperform.step, htask]
    rfl
  have hdue := h.curve_whenDue hhealthy
  have hcurve : (r.after (n + 1)).OnCurve p := by
    rw [hstep]
    exact hdue.of_frame rfl rfl rfl rfl (Nat.le_refl _) hdue.next
  refine ⟨by rw [hstep]; exact hmode, h.next hnow hsnapshot hcurve ?_ ?_ ?_ ?_ ?_⟩
  · rw [hstep]; rfl
  · rw [hstep]; exact Nat.le_refl _
  · rw [hstep]; exact Nat.le_succ _
  · rw [hstep]; exact Nat.le_refl _
  · intro j hj hj'
    rw [hstep] at hj'
    exact absurd hj' (Nat.not_lt.2 hj)

/-- A run that is due to judge its thresholds goes on, or the judgement of what has been
recorded says that it must stop. -/
theorem Performs.judge (htask : (r.after n).nextTask.2 = .judge) :
    ((r.after (n + 1)).mode = .running ∧ r.Tracking p (n + 1)) ∨
      ∃ reason, r.StopsAt p n reason := by
  obtain ⟨hnow, hsnapshot⟩ := hperform.pool h
  obtain ⟨interval, samples, hinterval, htime, hrecorded, hevaluation⟩ :=
    hperform.evaluation hhealthy h htask
  have hdoes := hperform.does
  rw [htask] at hdoes
  generalize hafter : r.after (n + 1) = r' at hdoes
  cases hdoes with
  | abort fails =>
    refine .inr ⟨.thresholdAbort, h.stops hhealthy.poll hmode ?_ hnow ?_ ?_⟩
    · rw [hafter]; rfl
    · rw [hafter]; rfl
    · rw [htime]
      rw [hevaluation] at fails
      exact .failed hinterval hrecorded fails
  | judge holds =>
    have hdue := h.curve_whenDue hhealthy
    have hcurve : (r.after (n + 1)).OnCurve p := by
      rw [hafter]
      exact hdue.of_frame rfl rfl rfl rfl (Nat.le_refl _) hdue.next
    rw [hevaluation] at holds
    refine .inl ⟨hmode, h.next hnow hsnapshot hcurve ?_ ?_ ?_ ?_ ?_⟩
    · rw [hafter]; rfl
    · rw [hafter]; exact Nat.le_refl _
    · rw [hafter]; exact Nat.le_refl _
    · rw [hafter]; exact Nat.le_succ _
    · -- the one evaluation since then did not say that the run must stop
      intro j hj hj' interval' hinterval' samples' hsamples'
      rw [hafter] at hj'
      have hlast : j = (r.after n).evaluations := Nat.le_antisymm (Nat.le_of_lt_succ hj') hj
      subst hlast
      rw [hinterval] at hinterval'
      cases hinterval'
      rw [hsamples'.unique hrecorded]
      exact holds

/-- A run that is asked to stop does so. -/
theorem Performs.obey (htask : (r.after n).nextTask.2 = .obey) :
    ∃ reason, r.StopsAt p n reason := by
  obtain ⟨hnow, hsnapshot⟩ := hperform.pool h
  have hstep : r.after (n + 1) = (r.after n).whenDue.stopFor (.ok .aborted) := by
    rw [hperform.step, htask]
    rfl
  have hrequest := time_of_nextTask (r.after n)
  rw [htask, aborts_after] at hrequest
  refine ⟨.aborted, h.stops hhealthy.poll hmode ?_ hnow ?_ (.asked hrequest)⟩
  · rw [hstep]; rfl
  · rw [hstep]; rfl

end Performs

/-- When a user acts before the next task, a run keeps tracking. -/
theorem Tracking.user (h : r.Tracking p n) (hhealthy : r.Healthy p)
    (hmode : (r.after n).mode = .running) {u : VirtualUser}
    (hnext : (r.after n).pool.next? = some (t, u)) (hbefore : t < (r.after n).nextTask.1)
    (hstep : r.after (n + 1) = { r.after n with pool := (r.after n).pool.actAt t u }) :
    r.Tracking p (n + 1) := by
  obtain ⟨hmem, hdue, -⟩ := Pool.next?_eq_some hnext
  have hlate : (r.after n).pool.now ≤ t := (hhealthy.sound hmode).1.valid.punctual u hmem t hdue
  refine ⟨?_, ?_, ?_, ?_⟩
  · rw [hstep]
    exact h.curve.user (hhealthy.poll_after n) hbefore
  · rw [hstep]
    exact h.punctual.user hbefore
  · intro _ hnow
    -- the user acts strictly before the next task, so that one is not due
    have hclock : (r.after (n + 1)).pool.now = max (r.after n).pool.now t := by
      rw [hstep]
      exact Pool.now_act _ _
    have htask : (r.after (n + 1)).nextTask = (r.after n).nextTask := by
      rw [hstep]
      rfl
    rw [hclock, htask, Nat.max_eq_right hlate] at hnow
    omega
  · rw [hstep]
    exact h.judged

/-- While a run follows its schedule, either a user acts or the run does something. -/
theorem user_or_performs (hmode : (r.after n).mode = .running) :
    (∃ t u, (r.after n).pool.next? = some (t, u) ∧ t < (r.after n).nextTask.1 ∧
      r.after (n + 1) = { r.after n with pool := (r.after n).pool.actAt t u }) ∨
    r.Performs n := by
  have hsteps := steps_step (r.after n)
  rw [← after_succ] at hsteps
  generalize hafter : r.after (n + 1) = r' at hsteps
  cases hsteps with
  | begin idle => rw [hmode] at idle; cases idle
  | user _ next before => exact .inl ⟨_, _, next, before, rfl⟩
  | task _ first => exact .inr ⟨hafter.trans (performAt_nextTask _), first⟩
  | drain draining => rw [hmode] at draining; cases draining
  | finish draining => rw [hmode] at draining; cases draining
  | rest isOver =>
    obtain ⟨result, hover⟩ := isOver
    rw [hmode] at hover
    cases hover

/-- A run that follows its schedule and has missed no event goes on so, or it stops for the
earliest event. -/
theorem Tracking.step (h : r.Tracking p n) (hhealthy : r.Healthy p)
    (hmode : (r.after n).mode = .running) :
    ((r.after (n + 1)).mode = .running ∧ r.Tracking p (n + 1)) ∨
      ∃ reason, r.StopsAt p n reason := by
  rcases user_or_performs hmode with ⟨t, u, hnext, hbefore, hstep⟩ | hperform
  · exact .inl ⟨by rw [hstep]; exact hmode, h.user hhealthy hmode hnext hbefore hstep⟩
  · cases htask : (r.after n).nextTask.2 with
    | poll => exact hperform.poll hhealthy h hmode htask
    | tell => exact .inl (hperform.tell hhealthy h hmode htask)
    | judge => exact hperform.judge hhealthy h hmode htask
    | obey => exact .inr (hperform.obey hhealthy h hmode htask)

/-- After its first step a healthy run keeps tracking. -/
theorem Healthy.tracking_one (h : r.Healthy p) : r.Tracking p 1 := by
  obtain ⟨plan, workload, state, think, reporting, aborts, rfl⟩ := h.fresh
  refine ⟨⟨fun _ => ⟨rfl, rfl⟩, ?_, Nat.zero_le _, ?_, rfl⟩,
    fun e _ => Nat.zero_le _, ?_, ?_⟩
  · intro k hk
    exact absurd hk (Nat.succ_ne_zero k).symm
  · intro k hk
    exact absurd hk (Nat.not_lt_zero k)
  · intro hpos
    exact absurd hpos (Nat.lt_irrefl 0)
  · intro j hj
    exact absurd hj (Nat.not_lt_zero j)

/-- As long as a healthy run follows its schedule it keeps tracking. -/
theorem Healthy.tracking (h : r.Healthy p) (hmode : (r.after n).mode = .running) :
    r.Tracking p n := by
  induction n with
  | zero =>
    obtain ⟨plan, workload, state, think, reporting, aborts, rfl⟩ := h.fresh
    cases hmode
  | succ n ih =>
    cases n with
    | zero => exact h.tracking_one
    | succ n =>
      have hbefore := running_of_succ (Nat.succ_pos n) hmode
      rcases (ih hbefore).step h hbefore with ⟨-, htracking⟩ | ⟨reason, hstops⟩
      · exact htracking
      · rw [hstops.draining] at hmode
        cases hmode

/-- When a healthy run stops following its schedule, it stops for the earliest event. -/
theorem Healthy.stopsAt (h : r.Healthy p) (hmode : (r.after n).mode = .running)
    (hleaves : (r.after (n + 1)).mode ≠ .running) : ∃ reason, r.StopsAt p n reason := by
  rcases (h.tracking hmode).step h hmode with ⟨hstays, -⟩ | hstops
  · exact absurd hstays hleaves
  · exact hstops

/-! ### Healthy runs -/

/-- No interval of a prepared run is zero. -/
theorem intervals_of_prepare {config : RunConfig} {workload : Workload σ} {state : σ}
    {reporting : Bool} {aborts : List Nat}
    (hprepare : prepare config workload state reporting aborts = .ok r) :
    r.plan.pollInterval.isZero = false ∧ r.plan.progressInterval.isZero = false ∧
      ∀ interval, r.plan.evaluationInterval = some interval → interval.isZero = false := by
  obtain ⟨plan, hplan, rfl⟩ := prepare_eq_ok hprepare
  obtain ⟨schedule, rules, -, hzero, -, rfl⟩ := RunConfig.validate_eq_ok hplan
  simp only [RunConfig.zeroIntervals, List.append_eq_nil_iff] at hzero
  obtain ⟨⟨hpolls, hprogress⟩, hevaluation⟩ := hzero
  refine ⟨by simpa using hpolls, by simpa using hprogress, ?_⟩
  intro interval hinterval
  dsimp only at hinterval
  rw [hinterval] at hevaluation
  simpa using hevaluation

/-- A prepared run of a workload without crashes whose polls are whole milliseconds apart is
healthy. -/
theorem healthy_of_prepare {config : RunConfig} {workload : Workload σ} {state : σ}
    {reporting : Bool} {aborts : List Nat}
    (hprepare : prepare config workload state reporting aborts = .ok r)
    (hpoll : config.pollInterval.nanos = p * Duration.nanosPerMilli)
    (hworkload : ∀ c s, (workload.invoke c s).1.ending.cause? = none) : r.Healthy p := by
  have hfaithful := faithful_of_prepare hprepare
  have hclosing := closing_of_prepare hprepare
  have hintervals := intervals_of_prepare hprepare
  have hquiet := not_crashing_of_prepare hprepare hworkload
  obtain ⟨plan, hplan, rfl⟩ := prepare_eq_ok hprepare
  obtain ⟨schedule, rules, -, -, -, rfl⟩ := RunConfig.validate_eq_ok hplan
  exact ⟨hpoll, hintervals, ⟨_, _, _, _, _, _, rfl⟩, hfaithful, hclosing, hquiet⟩

end StagedLoad.Run
