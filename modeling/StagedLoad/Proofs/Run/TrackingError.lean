import StagedLoad.Proofs.Run.Stall
import StagedLoad.Proofs.Schedule.Step

/-!
# How far a run is from its schedule

A run brings its users in line with its schedule at its polls, and in between the schedule goes
on.  As no more than the time between two polls passes until the next one, the number of live
users is off by no more than the largest step of the schedule within that time, if no stage is
shorter than that.  This holds at every moment from the first poll until the run stops, also
when the schedule is over and no poll has noticed yet, and so in whatever the run tells of its
progress.

## Main definitions

* `Run.Follows` — a number of live users is off by no more than the largest step.

## Main results

* `Healthy.now_succ_le` — no step takes the clock beyond the next poll.
* `Healthy.follows` — a run follows its schedule at every moment.
* `live_follows_schedule` — and whatever it tells of its progress says so.
-/

namespace StagedLoad

open Stage

namespace Schedule

variable {s : Schedule} {t : Duration} {users : UInt64}

/-- What a schedule asks for is where it is in its stages. -/
theorem current_of_active (h : s.targetAt t = .active users) :
    (s.snapshotAt t).current = users := by
  by_cases hzero : t.isZero = true
  · rw [targetAt, if_pos hzero] at h
    cases h
    rw [Duration.isZero, beq_iff_eq] at hzero
    exact current_zero hzero
  · have hgoing : ¬ s.isDone t = true := by
      intro hdone
      rw [targetAt, if_neg hzero, if_pos hdone] at h
      cases h
    rw [targetAt, if_neg hzero, if_neg hgoing] at h
    cases h
    have hmin : Duration.min t s.total = t := by
      refine if_pos ?_
      rw [isDone, decide_eq_true_eq, Duration.lt_def] at hgoing
      omega
    unfold snapshotAt
    dsimp only
    rw [hmin, if_neg hzero]

end Schedule

namespace Run

variable {σ : Type} {r : Run σ} {p n t : Nat}

/-- At a moment a number of live users is off what the schedule asks for by no more than its
largest step within the time between two polls. -/
def Follows (plan : RunPlan) (live : Nat) (t : Duration) : Prop :=
  |(live : Int) - (plan.schedule.snapshotAt t).current.toNat| ≤
    plan.schedule.maxStepPer plan.pollInterval

/-- No step takes the clock of a run that follows its schedule beyond the next poll. -/
theorem Healthy.now_succ_le (h : r.Healthy p) (hmode : (r.after n).mode = .running) :
    (r.after (n + 1)).pool.now ≤ (r.after n).polls * p := by
  have htracking := h.tracking hmode
  have hnext := nextTask_le_poll (h.poll_after n)
  rcases user_or_performs hmode with ⟨d, u, -, hbefore, hstep⟩ | hperform
  · rw [hstep, Pool.actAt, Pool.now_act]
    exact Nat.max_le.2 ⟨htracking.curve.next, by omega⟩
  · rw [(hperform.pool htracking).1]
    exact hnext

theorem ofMillis_le_ofMillis {m n : Nat} (h : m ≤ n) :
    Duration.ofMillis m ≤ Duration.ofMillis n := by
  rw [Duration.le_def, Duration.ofMillis, Duration.ofMillis, Duration.nanos_clamp,
    Duration.nanos_clamp]
  exact min_le_min_right _ (Nat.mul_le_mul_left _ h)

theorem nanos_ofMillis_le_add {m n k : Nat} (h : n ≤ m + k) :
    (Duration.ofMillis n).nanos ≤
      (Duration.ofMillis m).nanos + k * Duration.nanosPerMilli := by
  have hspan := Nat.mul_le_mul_left Duration.nanosPerMilli h
  rw [Nat.mul_add, Nat.mul_comm _ k] at hspan
  rw [Duration.ofMillis, Duration.ofMillis, Duration.nanos_clamp, Duration.nanos_clamp]
  generalize Duration.nanosPerMilli * n = a at hspan ⊢
  generalize Duration.nanosPerMilli * m = b at hspan ⊢
  generalize Duration.maxNanos = limit
  omega

/-- A run follows its schedule at every moment from its first poll until it stops. -/
theorem Healthy.follows (h : r.Healthy p) (hs : r.plan.schedule.Gradual r.plan.pollInterval)
    (hmode : (r.after n).mode = .running) (hpolled : 0 < (r.after n).polls)
    (hfrom : (r.after n).pool.now ≤ t) (hto : t ≤ (r.after (n + 1)).pool.now)
    (hroom : r.plan.schedule.Roomy (Duration.ofMillis t)) :
    Follows r.plan (r.after n).pool.live.length (Duration.ofMillis t) := by
  obtain ⟨k, hk⟩ : ∃ k, (r.after n).polls = k + 1 := ⟨(r.after n).polls - 1, by omega⟩
  obtain ⟨hsince, hcount⟩ := (h.tracking hmode).curve.live k hk
  have hnext := h.now_succ_le hmode
  rw [hk, Nat.succ_mul] at hnext
  -- the number of live users is what the schedule asked for at the last poll
  rw [usersAt_after, usersAt] at hcount
  obtain ⟨users, hactive, hlive⟩ : ∃ users,
      r.plan.schedule.targetAt (Duration.ofMillis (k * p)) = .active users ∧
      users.toNat = (r.after n).pool.live.length := by
    cases htarget : r.plan.schedule.targetAt (Duration.ofMillis (k * p)) with
    | active users =>
      rw [htarget] at hcount
      exact ⟨users, rfl, Option.some.inj hcount⟩
    | completed =>
      rw [htarget] at hcount
      cases hcount
  have hpositive : 0 < r.plan.pollInterval.nanos := by
    simpa [Duration.isZero, Nat.pos_iff_ne_zero] using h.intervals.1
  have hpoll := h.poll
  have hle : Duration.ofMillis (k * p) ≤ Duration.ofMillis t :=
    ofMillis_le_ofMillis (Nat.le_trans hsince hfrom)
  have hwithin : (Duration.ofMillis t).nanos ≤
      (Duration.ofMillis (k * p)).nanos + r.plan.pollInterval.nanos := by
    rw [hpoll]
    exact nanos_ofMillis_le_add (Nat.le_trans hto hnext)
  rw [Follows, ← hlive, ← Schedule.current_of_active hactive, abs_sub_comm]
  exact Schedule.abs_current_sub_le hs hpositive hroom hle hwithin

/-! ### What a run tells of its progress -/

/-- What a run has told changes only in a step in which its task is to tell of its progress. -/
theorem updates_succ (r : Run σ) (n : Nat) :
    (r.after (n + 1)).updates = (r.after n).updates ∨
    (r.after n).mode = .running ∧ r.Performs n ∧ (r.after n).nextTask.2 = .tell ∧
      (r.after (n + 1)).updates = (r.after n).updates.push (r.after n).whenDue.update := by
  have hsteps := steps_step (r.after n)
  rw [← after_succ] at hsteps
  generalize hafter : r.after (n + 1) = r' at hsteps
  cases hsteps with
  | task running first =>
    have hperform : r.Performs n := ⟨hafter.trans (performAt_nextTask _), first⟩
    have hdoes := hperform.does
    rw [hafter] at hdoes
    generalize (r.after n).performAt (r.after n).nextTask.1 (r.after n).nextTask.2 = r' at hdoes ⊢
    cases htask : (r.after n).nextTask.2 with
    | tell =>
      rw [htask] at hdoes
      cases hdoes
      exact .inr ⟨running, hperform, rfl, rfl⟩
    | poll | judge | obey =>
      rw [htask] at hdoes
      cases hdoes <;> exact .inl rfl
  | _ => exact .inl rfl

/-- Before its first poll a run tells nothing. -/
theorem Healthy.polls_pos_of_tell (h : r.Healthy p) (htask : (r.after n).nextTask.2 = .tell) :
    0 < (r.after n).polls := by
  have hspec := time_of_nextTask (r.after n)
  rw [htask] at hspec
  have hinterval : (r.after n).plan.progressInterval.isZero = false := by
    rw [plan_after]
    exact h.intervals.2.1
  have hfirst := intervalEnd_pos (n := (r.after n).ticks) hinterval
  have hnext := nextTask_le_poll (h.poll_after n)
  refine Nat.pos_of_ne_zero fun hzero => ?_
  rw [hzero, Nat.zero_mul] at hnext
  omega

/-- Whatever a run tells of its progress, it follows its schedule then. -/
theorem Healthy.updates_follow (h : r.Healthy p)
    (hs : r.plan.schedule.Gradual r.plan.pollInterval) (n : Nat) :
    ∀ u ∈ (r.after n).updates, u.stage = r.plan.schedule.snapshotAt u.elapsed ∧
      (r.plan.schedule.Roomy u.elapsed → Follows r.plan u.live u.elapsed) := by
  induction n with
  | zero =>
    obtain ⟨plan, workload, state, think, reporting, aborts, rfl⟩ := h.fresh
    simp
  | succ n ih =>
    rcases updates_succ r n with hsame | ⟨hmode, hperform, htask, hmore⟩
    · rw [hsame]
      exact ih
    · intro u hu
      rw [hmore, Array.mem_push] at hu
      rcases hu with hu | rfl
      · exact ih u hu
      · have htracking := h.tracking hmode
        have hnow := (hperform.pool htracking).1
        have hdue := htracking.punctual.now_whenDue
        have helapsed : (r.after n).whenDue.update.elapsed =
            Duration.ofMillis (r.after n).nextTask.1 := by rw [← hdue]; rfl
        refine ⟨?_, ?_⟩
        · rw [show (r.after n).whenDue.update.stage =
            (r.after n).plan.schedule.snapshotAt (r.after n).whenDue.update.elapsed from rfl,
            plan_after]
        · intro hroom
          rw [helapsed] at hroom ⊢
          exact h.follows hs hmode (h.polls_pos_of_tell htask)
            htracking.punctual.now_le_nextTask (Nat.le_of_eq hnow.symm) hroom

/-- **A run follows its schedule.**  Let the polls of a run be whole milliseconds apart, let no
invocation of its workload crash, let no stage be shorter than the time between two polls, and
let the products that its schedule computes with stay in range.  Then at every moment from the
first poll until the run stops, whether the schedule is over or not, the number of live users is
off what the schedule asks for by no more than its largest step within the time between two
polls; and whatever the run tells of its progress says so.  Stages that together are longer than
the longest duration are cut off there, so for those the moments are the ones that a clock gets
to. -/
theorem live_follows_schedule {config : RunConfig} {workload : Workload σ} {state : σ}
    {reporting : Bool} {aborts : List Nat}
    (hprepare : prepare config workload state reporting aborts = .ok r)
    (hpoll : config.pollInterval.nanos = p * Duration.nanosPerMilli)
    (hworkload : ∀ c s, (workload.invoke c s).1.ending.cause? = none)
    (hlong : ∀ stage ∈ config.stages, config.pollInterval ≤ stage.duration)
    (hrange : ∀ k stage, config.stages[k]? = some stage →
      |(stage.target.toNat : Int) - (usersAfter config.startUsers config.stages k).toNat| *
        stage.duration.nanos < 2 ^ 127) :
    (∀ n t, (r.after n).mode = .running → 0 < (r.after n).polls →
      (r.after n).pool.now ≤ t → t ≤ (r.after (n + 1)).pool.now →
      r.plan.schedule.Roomy (Duration.ofMillis t) →
      |((r.after n).pool.live.length : Int) -
          (r.plan.schedule.snapshotAt (Duration.ofMillis t)).current.toNat| ≤
        r.plan.schedule.maxStepPer r.plan.pollInterval) ∧
    ∀ n, ∀ u ∈ (r.after n).updates, r.plan.schedule.Roomy u.elapsed →
      |(u.live : Int) - u.stage.current.toNat| ≤
        r.plan.schedule.maxStepPer r.plan.pollInterval := by
  have hhealthy := healthy_of_prepare hprepare hpoll hworkload
  have hs : r.plan.schedule.Gradual r.plan.pollInterval := by
    obtain ⟨plan, hplan, rfl⟩ := prepare_eq_ok hprepare
    obtain ⟨schedule, rules, hschedule, -, -, rfl⟩ := RunConfig.validate_eq_ok hplan
    obtain ⟨hstart, hstages⟩ := Schedule.ofStages_eq_ok hschedule
    refine ⟨?_, ?_⟩
    · dsimp only
      rw [hstages]
      exact hlong
    · dsimp only
      rw [hstages, hstart]
      exact hrange
  refine ⟨?_, ?_⟩
  · intro n t hmode hpolled hfrom hto hroom
    exact hhealthy.follows hs hmode hpolled hfrom hto hroom
  · intro n u hu hroom
    obtain ⟨hstage, hfollows⟩ := hhealthy.updates_follow hs n u hu
    rw [hstage]
    exact hfollows hroom

/-- Five users come within 200 milliseconds and leave within as many, with a poll every 60. -/
def hatConfig : RunConfig where
  stages := [⟨Duration.ofMillis 200, 5⟩, ⟨Duration.ofMillis 200, 0⟩]
  pollInterval := Duration.ofMillis 60
  progressInterval := Duration.ofMillis 70

/-- Iterations of 30 milliseconds. -/
def hatWorkload : Workload Unit where
  declared := {}
  invoke _ s := (⟨30, .outcome {}⟩, s)

/-- After 410 milliseconds the schedule is over, but there still is a user, as there was to be at
the last poll.  After 280 milliseconds the run told that there were four users instead of three. -/
theorem hat_is_followed : ∃ r u, prepare hatConfig hatWorkload () true [] = .ok r ∧
    (r.after 24).mode = .running ∧ r.plan.schedule.total < Duration.ofMillis 410 ∧
    (r.after 24).pool.live.length = 1 ∧
    |(1 : Int) - (r.plan.schedule.snapshotAt (Duration.ofMillis 410)).current.toNat| ≤ 2 ∧
    u ∈ (r.after 24).updates ∧ u.live = 4 ∧ u.stage.current = 3 ∧
    |(u.live : Int) - u.stage.current.toNat| ≤ 2 := by
  have hrun : (prepare hatConfig hatWorkload () true []).toOption.any (fun r => decide (
      r.plan.schedule.total = Duration.ofMillis 400 ∧
      endOf r.plan.schedule.stages r.plan.schedule.stages.length = 400000000 ∧
      r.plan.schedule.maxStepPer r.plan.pollInterval = 2 ∧
      (r.after 24).phase = .running ∧ (r.after 24).polls = 7 ∧
      ((r.after 24).pool.now = 360 ∧ (r.after 25).pool.now = 420) ∧
      (r.after 24).pool.live.length = 1 ∧
      (r.after 24).updates[3]?.map (fun u => (u.live, u.stage.current)) = some (4, 3))) = true := by
    decide +kernel
  obtain ⟨r, hr, hfields⟩ := (Option.any_eq_true _ _).1 hrun
  obtain ⟨htotal, hsum, hstep, hphase, hpolls, ⟨hnow, hnext⟩, hlive, hupdate⟩ :=
    of_decide_eq_true hfields
  obtain ⟨u, hu, htold⟩ := Option.map_eq_some_iff.1 hupdate
  obtain ⟨hfour, hthree⟩ := Prod.mk.inj htold
  have hprepare : prepare hatConfig hatWorkload () true [] = .ok r := by
    generalize prepare hatConfig hatWorkload () true [] = result at hr ⊢
    cases result with
    | error => cases hr
    | ok r' => cases hr; rfl
  have hfits : ∀ t, r.plan.schedule.Roomy t := fun t => .inl (by rw [hsum]; decide)
  have hmem : u ∈ (r.after 24).updates := Array.mem_of_getElem? hu
  have hmode := mode_of_phase_eq_running hphase
  have hrange : ∀ k stage, hatConfig.stages[k]? = some stage →
      |(stage.target.toNat : Int) -
          (usersAfter hatConfig.startUsers hatConfig.stages k).toNat| * stage.duration.nanos <
        2 ^ 127 := by
    intro k stage hstage
    match k, hstage with
    | 0, hstage => cases hstage; decide
    | 1, hstage => cases hstage; decide
    | k + 2, hstage => cases hstage
  obtain ⟨hmoments, hupdates⟩ := live_follows_schedule (p := 60) hprepare (by decide)
    (fun c s => rfl) (by decide) hrange
  have hmoment := hmoments 24 410 hmode (by omega) (by omega) (by rw [hnext]; decide) (hfits _)
  have htold := hupdates 24 u hmem (hfits _)
  rw [hlive, hstep] at hmoment
  rw [hstep] at htold
  exact ⟨r, u, hprepare, hmode, by rw [htotal]; decide, hlive, hmoment, hmem, hfour, hthree, htold⟩

end Run

end StagedLoad
