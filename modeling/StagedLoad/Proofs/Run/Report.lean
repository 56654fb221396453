import StagedLoad.Proofs.Metric.Totals
import StagedLoad.Proofs.Run.Log
import StagedLoad.Proofs.Table

/-!
# The report of a run

When a run ends with a report, four parts of the program have counted the same iterations: the
totals of the recorder, the length of the snapshot, the counter of the aggregate, and the errors
by message.  They agree because draining ends before the snapshot is taken, and because the
shard of a user stays when the user leaves.  What they count are the invocations in the log.

## Main definitions

* `Call.erred` — an invocation ended with an error.
* `Run.Covers` — a report covers the invocations of a log.

## Main results

* `Reported.step` — a report is that of the samples recorded by the end.
* `exists_covers` — with a log, a report covers the invocations in it.
* `report_covers_every_sample` — **the report covers every sample of the run**.
-/

namespace StagedLoad

/-- Texts are counted as keys of tables are. -/
theorem occurrences_eq (texts : List String) : occurrences texts = Table.tally texts := rfl

/-! ### Invocations that ended with an error -/

/-- The message with which an invocation ended, if it ended with an error. -/
def Call.error? (call : Call) : Option String :=
  match call.2.ending with
  | .error message => some message
  | _ => none

/-- An invocation ended with an error. -/
def Call.erred (call : Call) : Bool := call.error?.isSome

theorem Call.error?_eq_some {call : Call} {message : String} :
    call.error? = some message ↔ call.2.ending = .error message := by
  unfold error?
  split <;> simp_all

/-- An invocation that ended with an error counts for one request, and it has failed. -/
theorem Call.sample?_of_erred {call : Call} (h : call.erred = true) :
    ∃ s, call.sample? = some s ∧ s.countedRequests = [⟨s.latency, true⟩] := by
  obtain ⟨message, hmessage⟩ := Option.isSome_iff_exists.1 h
  rw [error?_eq_some] at hmessage
  exact ⟨_, by rw [sample?, Sample.ofInvocation?, hmessage], rfl⟩

/-- So the sample of such an invocation counts one request and one failure. -/
theorem Call.one_of_erred {call : Call} {s : Sample} (h : call.erred = true)
    (hs : call.sample? = some s) : max 1 s.requests.length = 1 ∧ s.failures = 1 := by
  obtain ⟨s', hs', hrequests⟩ := Call.sample?_of_erred h
  rw [hs] at hs'
  cases hs'
  rw [← Sample.length_countedRequests, ← Sample.count_failed, hrequests]
  exact ⟨rfl, rfl⟩

theorem Call.error_of_sample? {call : Call} {s : Sample} (h : call.sample? = some s) :
    s.error = call.error? := by
  unfold sample? Sample.ofInvocation? at h
  unfold error?
  split at h <;> cases h <;> simp_all

/-- The errors of the samples are those of the invocations. -/
theorem filterMap_error_sample? (calls : List Call)
    (h : ∀ call ∈ calls, ∃ s, call.sample? = some s) :
    (calls.filterMap Call.sample?).filterMap Sample.error = calls.filterMap Call.error? := by
  rw [List.filterMap_filterMap]
  refine List.filterMap_congr fun call hcall => ?_
  obtain ⟨s, hs⟩ := h call hcall
  rw [hs, Option.bind_some, Call.error_of_sample? hs]

/-- A message is there as often as an invocation ended with it. -/
theorem count_filterMap_error? (calls : List Call) (message : String) :
    (calls.filterMap Call.error?).count message =
      calls.countP fun call => call.2.ending = .error message := by
  rw [List.count, List.countP_filterMap]
  refine List.countP_congr fun call _ => ?_
  rw [decide_eq_true_eq, ← Call.error?_eq_some]
  cases call.error? <;> simp

/-- What is summed up over the samples of invocations is one for each that ended with an error,
if it is one for their samples, and what the others have. -/
theorem sum_map_sample? {calls : List Call} {f : Sample → Nat}
    (hf : ∀ call ∈ calls, call.erred = true → ∀ s, call.sample? = some s → f s = 1)
    (hsample : ∀ call ∈ calls, ∃ s, call.sample? = some s) :
    ((calls.filterMap Call.sample?).map f).sum = calls.countP Call.erred +
      (((calls.filter fun call => !call.erred).filterMap Call.sample?).map f).sum := by
  induction calls with
  | nil => rfl
  | cons call rest ih =>
    rw [List.forall_mem_cons] at hf hsample
    obtain ⟨s, hs⟩ := hsample.1
    have hrest := ih hf.2 hsample.2
    rw [List.filterMap_cons_some hs, List.map_cons, List.sum_cons, hrest, List.countP_cons]
    cases herred : call.erred with
    | true =>
      simp [herred, hf.1 herred s hs]
      omega
    | false =>
      simp [herred, hs]
      omega

namespace Run

variable {σ : Type} {r r' : Run σ}

/-! ### What is reported -/

/-- If a run has ended with a report, it is that of the samples recorded by then. -/
def Reported (r : Run σ) : Prop :=
  ∀ report, r.mode = .ended (.ok report) → ∃ reason,
    report = RunReport.ofSamples r.plan r.pool.recorder.snapshot reason r.elapsed r.pool.peak

theorem Reported.step (h : r.Reported) : r.step.Reported := by
  have hsteps := steps_step r
  generalize r.step = r' at hsteps ⊢
  intro report hmode
  cases hsteps with
  | begin => cases hmode
  | user running => rw [running] at hmode; cases hmode
  | task running =>
    have hkeeps := mode_perform
      ({ r with pool := { r.pool with now := max r.pool.now r.nextTask.1 } } : Run σ) r.nextTask.2
    rw [← performAt, hmode] at hkeeps
    rcases hkeeps with hsame | ⟨cause, hcause⟩
    · rw [running] at hsame; cases hsame
    · cases hcause
  | drain draining => rw [draining] at hmode; cases hmode
  | @finish cause draining none =>
    cases cause with
    | error fault => cases hmode
    | ok reason =>
      by_cases hcrashed : ∃ cause, r.pool.Crashed cause
      · obtain ⟨cause, hfinish, -⟩ := mode_finish_of_crashed reason hcrashed.choose_spec
        rw [hfinish] at hmode
        cases hmode
      · rw [mode_finish_of_not_crashed reason (not_exists.1 hcrashed)] at hmode
        cases hmode
        exact ⟨reason, rfl⟩
  | rest => exact h report hmode

/-- A report covers the invocations of a log: they are those of all users that have ever come,
each of them has a sample, and what is reported is computed of these samples. -/
structure Covers (r : Run σ) (calls : List Call) (report : RunReport) : Prop where
  /-- Every invocation was for a user that has come, and it has been recorded. -/
  recorded : ∀ call ∈ calls,
    (1 ≤ call.1.user ∧ call.1.user < r.pool.nextId) ∧ ∃ s, call.sample? = some s
  /-- The workload made it. -/
  made : ∀ call ∈ calls, ∃ s, (r.pool.workload.invoke call.1 s).1 = call.2
  /-- The samples are those of the invocations of each user that has come, in their order, one
  user after the other. -/
  samples : r.pool.recorder.snapshot = (List.range (r.pool.nextId - 1)).flatMap fun k =>
    (calls.filter fun call => call.1.user == k + 1).filterMap Call.sample?
  /-- The duration is that of the whole run. -/
  duration : report.duration = r.elapsed
  /-- The statistics are those of the samples and the duration. -/
  perMetric : report.perMetric = aggregate r.pool.recorder.snapshot
    { r.plan.aggregate with elapsed := some report.duration }
  /-- The verdicts are those on these statistics. -/
  evaluation : report.evaluation =
    Threshold.evaluate r.plan.rules report.perMetric r.plan.failOnUndetermined
  /-- There are as many iterations as samples, as the recorder has counted, as the counter of
  iterations says, and as there were invocations. -/
  iterations : report.iterations = r.pool.recorder.snapshot.length ∧
    r.pool.recorder.recorded = r.pool.recorder.snapshot.length ∧
    (∃ counter, report.perMetric.get? Metric.iterations = some (.counter counter) ∧
      counter.count = r.pool.recorder.snapshot.length) ∧
    calls.length = r.pool.recorder.snapshot.length
  /-- Each message is there as often as an invocation ended with it. -/
  errors : ∀ message, report.errors.get? message =
    if calls.countP (fun call => call.2.ending = .error message) = 0 then none
    else some (calls.countP fun call => call.2.ending = .error message)
  /-- All together there are as many as invocations that ended with an error. -/
  errorsTotal : report.errors.values.sum = calls.countP Call.erred
  /-- Each of these counts for one request, and it has failed. -/
  erred : ∀ call ∈ calls, call.erred = true →
    ∃ s, call.sample? = some s ∧ s.countedRequests = [⟨s.latency, true⟩]
  /-- The failed requests are these and those of the other invocations. -/
  failed : ∃ rate, report.perMetric.get? Metric.requestFailed = some (.rate rate) ∧
    rate.total = calls.countP Call.erred + (((calls.filter fun call => !call.erred).filterMap
      Call.sample?).map fun s => max 1 s.requests.length).sum ∧
    rate.passes = calls.countP Call.erred + (((calls.filter fun call => !call.erred).filterMap
      Call.sample?).map Sample.failures).sum

/-- What is reported of samples that are those of a log, in some order. -/
theorem covers_ofSamples {calls : List Call} {reason : StopReason}
    (hrecorded : ∀ call ∈ calls,
      (1 ≤ call.1.user ∧ call.1.user < r.pool.nextId) ∧ ∃ s, call.sample? = some s)
    (hmade : ∀ call ∈ calls, ∃ s, (r.pool.workload.invoke call.1 s).1 = call.2)
    (hsamples : r.pool.recorder.snapshot = (List.range (r.pool.nextId - 1)).flatMap fun k =>
      (calls.filter fun call => call.1.user == k + 1).filterMap Call.sample?)
    (hperm : r.pool.recorder.snapshot.Perm (calls.filterMap Call.sample?))
    (hcounted : r.pool.recorder.Counted) :
    r.Covers calls (RunReport.ofSamples r.plan r.pool.recorder.snapshot reason r.elapsed
      r.pool.peak) := by
  have hsample : ∀ call ∈ calls, ∃ s, call.sample? = some s := fun call hcall =>
    (hrecorded call hcall).2
  have herrors : (r.pool.recorder.snapshot.filterMap Sample.error).Perm
      (calls.filterMap Call.error?) := by
    rw [← filterMap_error_sample? calls hsample]
    exact hperm.filterMap _
  refine {
    recorded := hrecorded
    made := hmade
    samples := hsamples
    duration := rfl
    perMetric := rfl
    evaluation := rfl
    iterations := ⟨rfl, hcounted.recorded_eq, ⟨_, aggregate_iterations _ _, rfl⟩, ?length⟩
    errors := ?errors
    errorsTotal := ?total
    erred := fun call _ herred => Call.sample?_of_erred herred
    failed := ?failed }
  case length =>
    rw [hperm.length_eq, length_filterMap_sample?, eq_comm, List.countP_eq_length]
    intro call hcall
    obtain ⟨s, hs⟩ := hsample call hcall
    rw [decide_eq_true_eq, ← Call.sample?_ne_none_iff, hs]
    exact Option.some_ne_none s
  case errors =>
    intro message
    have hcount := (herrors.count_eq message).trans (count_filterMap_error? calls message)
    rw [RunReport.ofSamples, errorCounts, occurrences_eq, Table.get?_tally, hcount]
  case total =>
    rw [RunReport.ofSamples, errorCounts, occurrences_eq, Table.sum_values_tally,
      herrors.length_eq, List.length_filterMap_eq_countP]
    rfl
  case failed =>
    refine ⟨_, (aggregate_requestFailed _ _).trans (by rw [failedStatistics_eq]), ?_, ?_⟩
    · exact (hperm.map _).sum_nat.trans
        (sum_map_sample? (fun _ _ herred _ hs => (Call.one_of_erred herred hs).1) hsample)
    · exact (hperm.map _).sum_nat.trans
        (sum_map_sample? (fun _ _ herred _ hs => (Call.one_of_erred herred hs).2) hsample)

/-- What a run has reported at its end is computed of what has been recorded by then. -/
theorem exists_reason_of_report {config : RunConfig} {workload : Workload σ} {state : σ}
    {reporting : Bool} {aborts : List Nat} {fuel : Nat} {report : RunReport}
    (hprepare : prepare config workload state reporting aborts = .ok r)
    (hexecute : execute? fuel r = some (r', .ok report)) :
    ∃ reason, report =
      RunReport.ofSamples r'.plan r'.pool.recorder.snapshot reason r'.elapsed r'.pool.peak := by
  obtain ⟨n, -, rfl, hmode, -⟩ := execute?_eq_some.1 hexecute
  have hfresh : r.Reported := by
    obtain ⟨plan, -, rfl⟩ := prepare_eq_ok hprepare
    intro report hended
    cases hended
  exact after_preserves (fun _ h => h.step) hfresh n report hmode

/-- The workload of a run is the one that it has been prepared with. -/
theorem workload_of_execute? {config : RunConfig} {w : Workload σ} {s : σ} {reporting : Bool}
    {aborts : List Nat} {fuel : Nat} {result : Except PoolFault RunReport}
    (hprepare : prepare config w s reporting aborts = .ok r)
    (hexecute : execute? fuel r = some (r', result)) : r'.pool.workload = w := by
  obtain ⟨n, -, rfl, -, -⟩ := execute?_eq_some.1 hexecute
  obtain ⟨plan, -, rfl⟩ := prepare_eq_ok hprepare
  exact (course_after _ (Nat.zero_le n)).workload.1

/-- If a run ends with a report, it does so with a log as well, and the report covers all
invocations in the log. -/
theorem exists_covers {config : RunConfig} {w : Workload σ} {s : σ} {reporting : Bool}
    {aborts : List Nat} {fuel : Nat} {report : RunReport}
    (hprepare : prepare config w s reporting aborts = .ok r)
    (hexecute : execute? fuel r = some (r', .ok report)) :
    ∃ calls, execute? fuel (r.withLog []) = some (r'.withLog calls, .ok report) ∧
      r'.Covers calls report := by
  have hlog := prepare_logged hprepare
  obtain ⟨calls, hcalls⟩ := execute?_withLog [] hexecute
  refine ⟨calls, hcalls, ?_⟩
  obtain ⟨reason, rfl⟩ := exists_reason_of_report hprepare hexecute
  obtain ⟨n, -, hafter, hmode, -⟩ := execute?_eq_some.1 hcalls
  -- with the report nobody is left, and no invocation in flight has ever crashed
  have hknown := (faithful_of_prepare hlog).after (closing_of_prepare hlog) n
  rw [Faithful, hafter, hmode] at hknown
  obtain ⟨husers, hnone⟩ := hknown
  have hfresh : Pool.Kept w (r.withLog []).pool ∧ Pool.Logged w (r.withLog []).pool ∧
      (r.withLog []).pool.recorder.Counted := by
    obtain ⟨plan, -, rfl⟩ := prepare_eq_ok hprepare
    exact ⟨Pool.kept_fresh w s plan.thinkTime, ⟨by simp [withLog, Pool.withLog],
      by simp [withLog, Pool.withLog]⟩, Recorder.counted_empty⟩
  obtain ⟨hkept₀, hlogged₀, hcounted₀⟩ := hfresh
  have hcourse := course_after (r.withLog []) (Nat.zero_le n)
  rw [after_zero, hafter] at hcourse
  have hkept := hkept₀.course hcourse
  have hlogged := hlogged₀.course hkept₀ hcourse
  refine covers_ofSamples ?_ ?_ (hkept.snapshot_eq husers) (hkept.snapshot_perm hlogged husers)
    (Pool.counted_course hcounted₀ hkept₀.valid hcourse :
      (r'.withLog calls).pool.recorder.Counted)
  · intro call hcall
    refine ⟨hlogged.user call hcall, Call.sample?_isSome ?_⟩
    refine not_crash_of_mem_log (n := n) hkept₀ rfl
      (fun m hm cause hcrashing => hnone cause ⟨m, hm, hcrashing⟩) ?_
    rw [hafter]
    exact hcall
  · rw [workload_of_execute? hprepare hexecute]
    exact hlogged.genuine

/-- **The report covers every sample of the run.**  Whatever the workload does, why ever and
whenever the run stops: if it ends with a report, it does so with a log as well, and the report
covers all invocations in the log, of users that have retired or left and of those that ended
while the run waited for its users. -/
theorem report_covers_every_sample {config : RunConfig} {w : Workload σ} {s : σ}
    {reporting : Bool} {aborts : List Nat} {fuel : Nat} {report : RunReport}
    (hprepare : prepare config w s reporting aborts = .ok r)
    (hexecute : execute? fuel r = some (r', .ok report)) :
    prepare config w.logged (s, []) reporting aborts = .ok (r.withLog []) ∧
    ∃ calls, execute? fuel (r.withLog []) = some (r'.withLog calls, .ok report) ∧
      r'.Covers calls report :=
  ⟨prepare_logged hprepare, exists_covers hprepare hexecute⟩

/-- Two users of whom one is told to retire after 100 milliseconds, in a run that is asked to
stop after 110. -/
def refusedConfig : RunConfig :=
  { startUsers := 2, stages := [⟨Duration.ofMillis 50, 1⟩, ⟨Duration.ofMillis 200, 1⟩] }

/-- Iterations of 60 milliseconds, of which every second one is refused. -/
def refusing : Workload Unit where
  declared := {}
  invoke c s := (⟨60, if c.iteration = 1 then .error "refused"
    else .outcome { thinkTime := some (Duration.ofMillis 20) }⟩, s)

/-- Both users are refused after the run has been asked to stop, and both refusals are
reported. -/
theorem refused_while_draining_is_reported : ∃ r r' report calls,
    prepare refusedConfig refusing () false [110] = .ok r ∧
    execute? 30 r = some (r', .ok report) ∧ r'.Covers calls report ∧
    report.stopReason = .aborted ∧ report.iterations = 4 ∧
    report.errors.entries = [("refused", 2)] := by
  obtain ⟨r, r', report, hprepare, hexecute, hreason, hiterations, herrors⟩ :
      ∃ r r' report, prepare refusedConfig refusing () false [110] = .ok r ∧
      execute? 30 r = some (r', .ok report) ∧ report.stopReason = .aborted ∧
      report.iterations = 4 ∧ report.errors.entries = [("refused", 2)] :=
    ⟨_, _, _, rfl, rfl, rfl, rfl, rfl⟩
  obtain ⟨-, calls, -, hcovers⟩ := report_covers_every_sample hprepare hexecute
  exact ⟨r, r', report, calls, hprepare, hexecute, hcovers, hreason, hiterations, herrors⟩

end Run

end StagedLoad
