import StagedLoad.Proofs.Run.Stall
import StagedLoad.Proofs.Run.Timely

/-!
# Runs end

A run polls its schedule again and again, and with the first poll after the last stage it stops.
Until then there is time for so many polls only, and so the clock shows so many times only.  It
cannot stand still for ever either, as long as every invocation takes time or is followed by a
pause.  A run that has stopped ends when its users have left, which they do one by one.

## Main definitions

* `Run.Ongoing` — at no poll so far the schedule was over.

## Main results

* `Ongoing.step`, `Ongoing.now_le` — while a run follows its schedule its clock stays below a bound.
* `Timely.exists_not_running` — no run follows its schedule for ever.
* `exists_over_of_draining` — a run that has stopped ends.
* `exists_end` — **runs end**.
-/

namespace StagedLoad

theorem Schedule.le_total_of_active {s : Schedule} {t : Duration} {users : UInt64}
    (h : s.targetAt t = .active users) : t ≤ s.total := by
  unfold targetAt at h
  rw [Duration.le_def]
  split at h
  case isTrue hzero =>
    rw [(Duration.isZero_iff t).1 hzero]
    exact Nat.zero_le _
  case isFalse =>
    split at h
    case isTrue => cases h
    case isFalse hdone => simpa [isDone, Duration.lt_def] using hdone

namespace Run

variable {σ : Type} {r : Run σ} {n : Nat}

/-! ### Polls -/

/-- At no poll so far the schedule was over. -/
def Ongoing (r : Run σ) : Prop :=
  ∀ k < r.polls, Duration.ofMillis (intervalEnd k r.plan.pollInterval) ≤ r.plan.schedule.total

/-- A run polls once more only if the schedule is not over. -/
theorem polls_step (r : Run σ) : r.step.polls = r.polls ∨
    (r.mode = .running ∧ r.nextTask.2 = .poll ∧ r.step.polls = r.polls + 1 ∧
      r.whenDue.elapsed ≤ r.plan.schedule.total) := by
  have hsteps := steps_step r
  generalize r.step = r' at hsteps ⊢
  cases hsteps with
  | begin | user | drain | finish | rest => exact .inl rfl
  | task running =>
    rw [performAt_nextTask]
    have hdoes := does_perform r.whenDue r.nextTask.2
    generalize r.nextTask.2 = task at hdoes ⊢
    generalize r.whenDue.perform task = r' at hdoes ⊢
    cases hdoes with
    | complete | fail | tell | abort | judge | obey => exact .inl rfl
    | adjust active => exact .inr ⟨running, rfl, rfl, Schedule.le_total_of_active active⟩

theorem Ongoing.step (h : r.Ongoing) (htimely : r.Timely) : r.step.Ongoing := by
  intro k hk
  rw [(frame_step r).1]
  rcases polls_step r with hpolls | ⟨running, htask, hpolls, helapsed⟩
  · exact h k (hpolls ▸ hk)
  · rw [hpolls] at hk
    rcases Nat.lt_succ_iff_lt_or_eq.1 hk with hlt | rfl
    · exact h k hlt
    · -- the run polls at the very end of the interval
      have htime := time_of_nextTask r
      rw [htask] at htime
      rw [elapsed, (htimely.punctual (.inr running)).now_whenDue] at helapsed
      rwa [← show r.nextTask.1 = _ from htime]

theorem Ongoing.polls_le (h : r.Ongoing) (htimely : r.Timely)
    (htotal : r.plan.schedule.total.nanos < Duration.maxNanos) :
    r.polls ≤ r.plan.schedule.total.nanos + 1 := by
  cases hpolls : r.polls with
  | zero => exact Nat.zero_le _
  | succ k =>
    have hlast := h k (by omega)
    have hle := le_intervalEnd htimely.intervals.1 k
    rw [Duration.le_def, Duration.ofMillis, Duration.nanos_clamp, Nat.mul_comm] at hlast
    omega

/-- While a run follows its schedule its clock stays below a bound. -/
theorem Ongoing.now_le (h : r.Ongoing) (htimely : r.Timely) (hmode : r.mode = .running)
    (htotal : r.plan.schedule.total.nanos < Duration.maxNanos) :
    r.pool.now ≤ r.nextTask.1 ∧
      r.nextTask.1 ≤ intervalEnd (r.plan.schedule.total.nanos + 1) r.plan.pollInterval := by
  refine ⟨(htimely.punctual (.inr hmode)).now_le_nextTask, ?_⟩
  refine Nat.le_trans (nextTask_le (mem_agenda.2 (.inl rfl))) ?_
  exact intervalEnd_mono _ (h.polls_le htimely htotal)

/-! ### No run follows its schedule for ever -/

/-- A run that is not late and whose schedule is not over, after some steps. -/
theorem Ongoing.after (h : r.Ongoing) (htimely : r.Timely) (n : Nat) : (r.after n).Ongoing := by
  induction n with
  | zero => exact h
  | succ n ih => exact ih.step (htimely.after n)

/-- There is a last time for the clock of a run that always follows its schedule, and for what the
run does. -/
theorem Ongoing.exists_last (h : r.Ongoing) (htimely : r.Timely)
    (hmode : ∀ n, (r.after n).mode = .running)
    (htotal : r.plan.schedule.total.nanos < Duration.maxNanos) :
    ∃ last, ∀ n, (r.after n).pool.now ≤ last ∧ (r.after n).nextTask.1 ≤ last := by
  refine ⟨intervalEnd (r.plan.schedule.total.nanos + 1) r.plan.pollInterval, ?_⟩
  intro n
  have hbound := (h.after htimely n).now_le (htimely.after n) (hmode n)
    (by rw [plan_after]; exact htotal)
  rw [plan_after] at hbound
  exact ⟨Nat.le_trans hbound.1 hbound.2, hbound.2⟩

/-- No run follows its schedule for ever: only its users would act in the end, and its clock would
stand still. -/
theorem Timely.exists_not_running (htimely : r.Timely) (hongoing : r.Ongoing)
    (hgenuine : r.pool.Genuine) (htakes : r.pool.workload.TakesTime r.pool.thinkTime)
    (htotal : r.plan.schedule.total.nanos < Duration.maxNanos) :
    ∃ n, (r.after n).mode ≠ .running := by
  by_contra hforever
  have hmode : ∀ n, 0 ≤ n → (r.after n).mode = .running := by
    intro n _
    by_contra hstops
    exact hforever ⟨n, hstops⟩
  obtain ⟨last, hlast⟩ := hongoing.exists_last htimely (fun n => hmode n (Nat.zero_le n)) htotal
  obtain ⟨quiet, -, hidle⟩ := exists_quiet htimely.intervals hmode fun n _ _ => (hlast n).2
  have hrise : ∀ n, quiet ≤ n → (r.after n).pool.now ≤ (r.after (n + 1)).pool.now :=
    fun n _ => now_mono r (Nat.le_succ n)
  obtain ⟨still, hstill, hclock⟩ := exists_constant hrise fun n _ => (hlast n).1
  obtain ⟨n, hn, hne⟩ := exists_now_ne hgenuine htakes (fun n _ => hmode n (Nat.zero_le n))
    (fun n _ => (htimely.after n).valid) fun n hn => hidle n (Nat.le_trans hstill hn)
  exact hne ((hclock (n + 1) (by omega)).trans (hclock n hn).symm)

/-! ### Ends -/

/-- A run that has stopped ends. -/
theorem exists_over_of_draining (hclosing : r.Closing) {cause : Except PoolFault StopReason}
    (hmode : r.mode = .draining cause) : ∃ n, (r.after n).IsOver := by
  refine draining_induction (motive := fun r => ∃ n, (r.after n).IsOver) ?empty ?leave hclosing
    hmode
  case empty =>
    intro r _ _ hstep
    refine ⟨1, ?_⟩
    rw [after_succ, after_zero, hstep]
    exact ⟨_, rfl⟩
  case leave =>
    intro r t u _ _ _ ih
    obtain ⟨n, hover⟩ := ih
    rw [after_step] at hover
    exact ⟨n + 1, hover⟩

/-- **Runs end.**  A run ends if every invocation takes time or is followed by a pause, and if
there is a time at which its schedule is over. -/
theorem exists_end {config : RunConfig} {workload : Workload σ} {state : σ} {reporting : Bool}
    {aborts : List Nat} (hprepare : prepare config workload state reporting aborts = .ok r)
    (htakes : workload.TakesTime r.plan.thinkTime)
    (htotal : r.plan.schedule.total.nanos < Duration.maxNanos) :
    ∃ fuel ended, execute? fuel r = some ended := by
  have htimely := timely_of_prepare hprepare
  have hclosing := closing_of_prepare hprepare
  obtain ⟨hidle, hongoing, hgenuine, htakes'⟩ : r.mode = .idle ∧ r.Ongoing ∧ r.pool.Genuine ∧
      r.pool.workload.TakesTime r.pool.thinkTime := by
    obtain ⟨plan, -, rfl⟩ := prepare_eq_ok hprepare
    exact ⟨rfl, fun k hk => absurd hk (Nat.not_lt_zero k), Pool.genuine_of_users_eq_nil rfl, htakes⟩
  have hcourse := course_step r
  obtain ⟨n, hn⟩ := htimely.step.exists_not_running (hongoing.step htimely)
    (hgenuine.course hcourse) (by rw [hcourse.workload.1, hcourse.workload.2]; exact htakes')
    (by rw [(frame_step r).1]; exact htotal)
  rw [after_step] at hn
  have hover : ∃ m, (r.after m).IsOver := by
    have hbegun := stage_mono r (show 1 ≤ n + 1 by omega)
    rw [after_succ, after_zero, (stage_step r).2.2 (by simp [stage, hidle])] at hbegun
    cases hmode : (r.after (n + 1)).mode with
    | idle =>
      have hzero : (r.after (n + 1)).stage = 0 := by simp only [stage, hmode]
      omega
    | running => exact absurd hmode hn
    | draining cause =>
      obtain ⟨m, hover⟩ := exists_over_of_draining (hclosing.after (n + 1)) hmode
      rw [← after_add] at hover
      exact ⟨n + 1 + m, hover⟩
    | ended result => exact ⟨n + 1, result, hmode⟩
  obtain ⟨m, result, hresult⟩ := hover
  obtain ⟨fuel, hexecute⟩ := execute?_isSome hresult
  exact ⟨fuel, _, hexecute⟩

end Run

end StagedLoad
