import StagedLoad.CommandLine.ExitCode
import StagedLoad.Proofs.Run.Outcome
import StagedLoad.Proofs.Threshold.Abort

/-!
# Runs that their thresholds stopped

A rule that stops a run has failed on what had been recorded by then.  The verdict is not made
then but when everyone has left, on what had been recorded and on the iterations that were in
flight.  So such a run is reported as failed, unless those iterations make up for the failure.

## Main definitions

* `Run.AbortedAt` — when a rule stopped a run, and what its report is made of.

## Main results

* `aborted_fails_unless_made_up` — **a run that its thresholds stopped is reported as failed
  unless the iterations in flight make up for that**.
-/

namespace StagedLoad.Run

variable {σ : Type} {r r' : Run σ} {n : Nat} {report : RunReport}

/-- After some steps a run follows its schedule, in the next one a rule stops it, and when
everyone has left there is a report. -/
structure AbortedAt (r : Run σ) (n : Nat) (report : RunReport) : Prop where
  /-- The run follows its schedule. -/
  running : (r.after n).mode = .running
  /-- It stops because of its thresholds. -/
  draining : (r.after (n + 1)).mode = .draining (.ok .thresholdAbort)
  /-- A rule that stops the run fails on what has been recorded. -/
  fails : ∃ rule : Threshold.Rule, rule.LastIn r.plan.rules ∧ rule.Stops
    (r.plan.statistics (r.after (n + 1)).pool.recorder.snapshot (r.after (n + 1)).elapsed)
  /-- Each iteration in flight is going to be recorded. -/
  inFlight : ∀ call ∈ (r.after (n + 1)).pool.calls, ∃ s, Call.sample? call = some s
  /-- The report is on that and on the iterations in flight, at the end of the last of these. -/
  report : report = RunReport.ofSamples r.plan (r.after (n + 1)).pool.finalSamples
    .thresholdAbort (Duration.ofMillis (r.after (n + 1)).pool.lastEnd)
    (r.after (n + 1)).pool.peak

/-- A run that its thresholds stop has just been judged so. -/
theorem shouldAbort_of_thresholdAbort (hrunning : r.mode = .running)
    (hdraining : r.step.mode = .draining (.ok .thresholdAbort)) :
    r.step.evaluation.shouldAbort = true := by
  have hsteps := steps_step r
  generalize r.step = r' at hsteps hdraining ⊢
  cases hsteps with
  | task =>
    rw [performAt] at hdraining ⊢
    generalize r.nextTask.2 = task at hdraining ⊢
    have hdoes := does_perform
      ({ r with pool := { r.pool with now := max r.pool.now r.nextTask.1 } } : Run σ) task
    generalize perform _ task = r' at hdoes hdraining ⊢
    cases hdoes with
    | abort fails => exact fails
    | complete | fail | obey => cases hdraining
    | adjust | tell | judge => rw [hrunning] at hdraining; cases hdraining
  | begin => cases hdraining
  | user => rw [hrunning] at hdraining; cases hdraining
  | drain draining => rw [hrunning] at draining; cases draining
  | finish => cases hdraining
  | rest isOver => rw [hrunning] at hdraining; cases hdraining

/-- If nothing was in flight when a rule stopped the run, the report is on the statistics on which
that rule failed. -/
theorem AbortedAt.perMetric_of_calls_eq_nil (h : r.AbortedAt n report)
    (hvalid : (r.after (n + 1)).pool.Valid) (hcalls : (r.after (n + 1)).pool.calls = []) :
    report.perMetric =
      r.plan.statistics (r.after (n + 1)).pool.recorder.snapshot (r.after (n + 1)).elapsed := by
  rw [h.report, hvalid.finalSamples_of_calls_eq_nil hcalls, Pool.lastEnd_of_calls_eq_nil hcalls]
  rfl

/-- **A run that its thresholds stopped is reported as failed, unless the iterations in flight
make up for that.**  Whatever the configuration and the workload are: if a run ends with a report
that its thresholds stopped it, there was a step at which a rule that stops the run failed on the
samples recorded by then.  The report is on these and on the samples of the iterations that were
in flight then, each of which is recorded, at the time when the last of them ended.  It says that
the run failed, and the caller sees 11, unless there were such iterations and no rule counts as
failed anymore. -/
theorem aborted_fails_unless_made_up {config : RunConfig} {workload : Workload σ} {state : σ}
    {reporting : Bool} {aborts : List Nat} {fuel : Nat}
    (hprepare : prepare config workload state reporting aborts = .ok r)
    (hexecute : execute? fuel r = some (r', .ok report))
    (hreason : report.stopReason = .thresholdAbort) :
    ∃ n, r.AbortedAt n report ∧
      ((report.evaluation.verdict = .fail ∧
          (ExitCode.ofVerdict report.evaluation.verdict).code = 11) ∨
        ((r.after (n + 1)).pool.calls ≠ [] ∧ ∀ rule ∈ r.plan.rules,
          ¬ (rule.judge report.perMetric).status.Counts r.plan.failOnUndetermined)) := by
  obtain ⟨n, reason, hrunning, hdraining, hvalid, hquiet, hreport⟩ :=
    exists_stop_of_report hprepare hexecute
  have hsame : reason = .thresholdAbort := by
    rw [hreport] at hreason
    exact hreason
  subst hsame
  have habort := shouldAbort_of_thresholdAbort hrunning hdraining
  rw [← after_succ, evaluation, RunPlan.judge, plan_after, Threshold.shouldAbort_iff] at habort
  have hinFlight : ∀ call ∈ (r.after (n + 1)).pool.calls, ∃ s, Call.sample? call = some s := by
    intro call hcall
    refine Option.ne_none_iff_exists'.1 ?_
    intro hnone
    obtain ⟨cause, hcrash⟩ := Sample.ofInvocation?_eq_none_iff.1 hnone
    exact hquiet cause ⟨call, hcall, hcrash⟩
  have haborted : r.AbortedAt n report := ⟨hrunning, hdraining, habort, hinFlight, hreport⟩
  have hverdict : report.evaluation.verdict = .fail ↔ ∃ rule ∈ r.plan.rules,
      (rule.judge report.perMetric).status.Counts r.plan.failOnUndetermined := by
    rw [hreport]
    exact Threshold.evaluate_verdict_eq_fail_iff _ _
  refine ⟨n, haborted, ?_⟩
  by_cases hfails : report.evaluation.verdict = .fail
  · exact .inl ⟨hfails, by rw [hfails]; rfl⟩
  · refine .inr ⟨?_, fun rule hrule hcounts => hfails (hverdict.2 ⟨rule, hrule, hcounts⟩)⟩
    -- otherwise the rule that stopped the run still fails
    intro hcalls
    obtain ⟨rule, hlast, hstops⟩ := haborted.fails
    rw [← haborted.perMetric_of_calls_eq_nil hvalid hcalls] at hstops
    have hstatus := Threshold.Expr.status_eq_fail_iff.2 hstops.fails
    exact hfails (hverdict.2 ⟨rule, hlast.mem, .inl hstatus⟩)

/-- Two users for a second, in a run that looks every 55 milliseconds whether three of five
requests have failed. -/
def mendedConfig : RunConfig where
  startUsers := 2
  stages := [⟨Duration.seconds 1, 2⟩]
  evaluationInterval := some (Duration.ofMillis 55)
  thresholds := [⟨"http_req_failed", [⟨"rate<0.6", true⟩]⟩]

/-- The first user fails after 10 milliseconds, and the second one succeeds after 90. -/
def mendedWorkload : Workload Unit where
  declared := {}
  invoke c s := (if c.user = 1 then
      ⟨10, .outcome { latency := Duration.ofMillis 10, failed := true }⟩
    else ⟨90, .outcome { latency := Duration.ofMillis 90 }⟩, s)

/-- One of one request has failed when the run stops, and one of two in the end. -/
theorem mended_run : ∃ r r' report, prepare mendedConfig mendedWorkload () false [] = .ok r ∧
    execute? 20 r = some (r', .ok report) ∧ report.stopReason = .thresholdAbort ∧
    report.evaluation.verdict = .pass :=
  ⟨_, _, _, rfl, rfl, rfl, by decide +kernel⟩

/-- When the run stopped an iteration was in flight, and with it no rule counts as failed. -/
theorem mended_was_in_flight : ∃ r r' report n,
    prepare mendedConfig mendedWorkload () false [] = .ok r ∧
    execute? 20 r = some (r', .ok report) ∧ report.stopReason = .thresholdAbort ∧
    r.AbortedAt n report ∧ (r.after (n + 1)).pool.calls ≠ [] ∧ ∀ rule ∈ r.plan.rules,
      ¬ (rule.judge report.perMetric).status.Counts r.plan.failOnUndetermined := by
  obtain ⟨r, r', report, hprepare, hexecute, hreason, hpass⟩ := mended_run
  obtain ⟨n, haborted, ⟨hfail, -⟩ | ⟨hcalls, hholds⟩⟩ :=
    aborted_fails_unless_made_up hprepare hexecute hreason
  · rw [hpass] at hfail
    cases hfail
  · exact ⟨r, r', report, n, hprepare, hexecute, hreason, haborted, hcalls, hholds⟩

/-- So a run that its thresholds stopped is reported as one that all went well with. -/
theorem mended_passes : ∃ r r' report,
    prepare mendedConfig mendedWorkload () false [] = .ok r ∧
    execute? 20 r = some (r', .ok report) ∧ report.stopReason = .thresholdAbort ∧
    report.evaluation.verdict ≠ .fail ∧
    (ExitCode.ofVerdict report.evaluation.verdict).code = 0 := by
  obtain ⟨r, r', report, hprepare, hexecute, hreason, hpass⟩ := mended_run
  refine ⟨r, r', report, hprepare, hexecute, hreason, ?_, ?_⟩
  · rw [hpass]
    decide
  · rw [hpass]
    rfl

end StagedLoad.Run
