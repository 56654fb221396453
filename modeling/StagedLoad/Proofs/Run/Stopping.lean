import StagedLoad.Proofs.Run.Stall

/-!
# A run stops for the earliest event

Whatever its users do, as long as they do not crash, a run follows its schedule up to the
earliest event that stops it, and then it ends with a report that tells the reason and the
peak.

## Main results

* `Healthy.exists_report` — a run that has stopped ends with a report of its reason and its peak.
* `stops_at_earliest_event` — **a run follows its schedule and stops for the earliest event**.
-/

namespace StagedLoad.Run

variable {σ : Type} {r : Run σ} {p n : Nat} {reason : StopReason}

/-- A healthy run that has stopped for a reason ends with a report. -/
theorem Healthy.exists_report (h : r.Healthy p) (hstops : r.StopsAt p n reason) :
    ∃ fuel r' report, execute? fuel r = some (r', .ok report) ∧ report.stopReason = reason ∧
      report.peak = (r.after (n + 1)).pool.peak := by
  have hstopped := h.faithful.after h.closing (n + 1)
  rw [Faithful, hstops.draining] at hstopped
  obtain ⟨m, result, hended, hreport⟩ :=
    ends_of_draining (h.closing.after (n + 1)) hstopped.1 hstops.draining
  rw [← after_add] at hended
  obtain ⟨fuel, hexecute⟩ := execute?_isSome hended
  have hknown := h.faithful.after h.closing (n + 1 + m)
  rw [Faithful, hended] at hknown
  cases result with
  | ok report =>
    refine ⟨fuel, _, report, hexecute, ?_, ?_⟩
    · rw [hreport report rfl]
      rfl
    · rw [hreport report rfl]
      rfl
  | error fault =>
    obtain ⟨cause, -, k, -, hcrashing⟩ := hknown
    exact absurd hcrashing (h.quiet k cause)

/-- **A run follows its schedule and stops for the earliest event.**  Let the clock last, let the
polls of a run be whole milliseconds apart, and let no invocation of its workload crash.  As long
as the run follows its schedule there are as many live users as the schedule asked for at the last
poll.  When it stops, it does so at the time of an event and for its reason, and no event is
earlier; its peak is the greatest number of users asked for at the polls that there were, and it
ends with a report of that reason and peak.  It does stop if there is an event ahead, unless its
users keep the clock from getting there, which they cannot if invocations take time or are
followed by a pause. -/
theorem stops_at_earliest_event {config : RunConfig} {workload : Workload σ} {state : σ}
    {reporting : Bool} {aborts : List Nat} {start : Instant}
    (hprepare : prepare config workload state reporting aborts = .ok r)
    (hclock : r.ClockLasts start)
    (hpoll : config.pollInterval.nanos = p * Duration.nanosPerMilli)
    (hworkload : ∀ c s, (workload.invoke c s).1.ending.cause? = none) :
    (∀ n, (r.after n).mode = .running → (r.after n).OnCurve p) ∧
    (∀ n, (r.after n).mode = .running → (r.after (n + 1)).mode ≠ .running →
      ∃ reason, r.StopsAt p n reason) ∧
    (∀ n reason, r.StopsAt p n reason →
      ∃ fuel r' report, r.launch? start fuel = some (r', .ok (.ok report)) ∧
        report.stopReason = reason ∧ report.peak = (r.after (n + 1)).pool.peak) ∧
    (∀ t reason, r.StopEvent p t reason →
      (∃ n reason, r.StopsAt p n reason) ∨ r.StallsBefore t) ∧
    (workload.TakesTime config.thinkTime → ∀ t, ¬ r.StallsBefore t) := by
  have hhealthy := healthy_of_prepare hprepare hpoll hworkload
  refine ⟨fun n hmode => (hhealthy.tracking hmode).curve,
    fun n hmode hleaves => hhealthy.stopsAt hmode hleaves, ?_,
    fun t reason hevent => hhealthy.leaves_or_stalls hevent, ?_⟩
  · intro n reason hstops
    obtain ⟨fuel, r', report, hexecute, hreport⟩ := hhealthy.exists_report hstops
    exact ⟨fuel, r', report, launch?_eq_ok_iff.2 ⟨hclock.intervalsFit, hexecute⟩, hreport⟩
  · intro htakes
    obtain ⟨plan, hplan, rfl⟩ := prepare_eq_ok hprepare
    obtain ⟨schedule, rules, -, -, -, rfl⟩ := RunConfig.validate_eq_ok hplan
    exact hhealthy.not_stalls htakes

/-- A ramp to ten users within a second. -/
def rampConfig : RunConfig := { stages := [⟨Duration.seconds 1, 10⟩] }

/-- Iterations that fail after 30 milliseconds. -/
def failingWorkload : Workload Unit where
  declared := {}
  invoke _ s := (⟨30, .error "refused"⟩, s)

/-- Asked to stop after 350 milliseconds, the run stops for that reason, with a report. -/
theorem ramp_stops_on_request : ∃ r n fuel r' report,
    prepare rampConfig failingWorkload () false [350] = .ok r ∧ r.StopsAt 100 n .aborted ∧
    r.launch? (.clamp 0) fuel = some (r', .ok (.ok report)) ∧ report.stopReason = .aborted ∧
    report.peak = (r.after (n + 1)).pool.peak := by
  obtain ⟨r, hprepare, htotal, hinterval, hrequest, hpoll, hprogress, hthink⟩ : ∃ r,
      prepare rampConfig failingWorkload () false [350] = .ok r ∧
      r.plan.schedule.total = Duration.seconds 1 ∧ r.plan.evaluationInterval = none ∧
      r.aborts = [350] ∧ r.plan.pollInterval = Duration.ofMillis 100 ∧
      r.plan.progressInterval = Duration.seconds 1 ∧
      ∀ c s, (r.pool.workload.invoke c s).1.ending.thinkTime r.pool.thinkTime =
        Duration.seconds 1 :=
    ⟨_, rfl, rfl, rfl, rfl, rfl, rfl, fun _ _ => rfl⟩
  have hclock : r.ClockLasts (.clamp 0) := by
    intro d hwaits
    rw [htotal, hpoll]
    cases hwaits with
    | poll => rw [hpoll]; decide
    | tell => rw [hprogress]; decide
    | judge evaluated => rw [hinterval] at evaluated; cases evaluated
    | pause c s => rw [hthink]; decide
  obtain ⟨-, -, hreport, hstops, hstalls⟩ :=
    stops_at_earliest_event (p := 100) hprepare hclock (by decide) fun c s => rfl
  have hasked : r.StopEvent 100 350 .aborted := .asked (by simp [hrequest])
  obtain ⟨n, reason, hstop⟩ := (hstops 350 .aborted hasked).resolve_right
    (hstalls (fun c s => .inl (Nat.succ_pos 29)) 350)
  have haborted : reason = .aborted := by
    have hle := hstop.earliest 350 .aborted hasked
    have hevent := hstop.event
    generalize (r.after (n + 1)).pool.now = t at hle hevent
    cases hevent with
    | @finished k passed =>
      have hsecond : (Duration.seconds 1).nanos = 1000000000 := rfl
      have hpoll : (Duration.ofMillis (k * 100)).nanos ≤ 1000000 * (k * 100) := Nat.min_le_left _ _
      rw [htotal, Duration.lt_def, hsecond] at passed
      omega
    | failed evaluated => rw [hinterval] at evaluated; cases evaluated
    | asked => rfl
  subst haborted
  obtain ⟨fuel, r', report, hexecute, hreason, hpeak⟩ := hreport n .aborted hstop
  exact ⟨r, n, fuel, r', report, hprepare, hstop, hexecute, hreason, hpeak⟩

/-- The same ramp, in a run that judges its thresholds after the longest duration. -/
def endlessRampConfig : RunConfig :=
  { rampConfig with evaluationInterval := some (Duration.clamp Duration.maxNanos) }

/-- The run is to stop after 350 milliseconds, but it crashes before its first poll, whatever the
clock shows. -/
theorem endless_ramp_never_polls : ∃ r,
    prepare endlessRampConfig failingWorkload () false [350] = .ok r ∧
    r.StopEvent 100 350 .aborted ∧
    ∀ start fuel, ∃ r', r.launch? start fuel = some (r', .error .overflow) ∧ r'.polls = 0 := by
  obtain ⟨r, hprepare, hinterval, hrequest, hpolls⟩ : ∃ r,
      prepare endlessRampConfig failingWorkload () false [350] = .ok r ∧
      r.plan.evaluationInterval = some (Duration.clamp Duration.maxNanos) ∧
      r.aborts = [350] ∧ r.step.polls = 0 := ⟨_, rfl, rfl, rfl, rfl⟩
  refine ⟨r, hprepare, .asked (by simp [hrequest]), ?_⟩
  intro start fuel
  have hlong : Instant.limit ≤ (Duration.clamp Duration.maxNanos).nanos := by decide
  have hfits : ¬ r.IntervalsFit start := not_intervalsFit_of_evaluationInterval hinterval hlong
  exact ⟨r.step, launch?_of_not_fit hfits fuel, hpolls⟩

end StagedLoad.Run
