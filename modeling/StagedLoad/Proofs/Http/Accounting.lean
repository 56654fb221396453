import StagedLoad.Proofs.Http.Iteration
import StagedLoad.Proofs.Run.Report
import StagedLoad.Proofs.Threshold.Rule

/-!
# Requests in the report of a run

A workload of requests records the same of every iteration, whatever becomes of the requests:
one timing and one value of its own trend of each, and a result of each check.  So the totals in
the report of a run are those of one iteration, as often as there were iterations.  Requests with
the same name share a trend, and the distinct trends together still hold one value of each
request.

## Main definitions

* `HttpWorkload.Sampled` — a sample is one of an iteration of the workload.
* `HttpWorkload.Accounted` — the totals are those of some iterations of the workload.

## Main results

* `sampled_of_invoke` — what is recorded of an iteration.
* `accounted_aggregate` — the totals of some iterations.
* `accounted_request_by_request` — **every request is accounted for, in every iteration and in
  every run**.
-/

namespace StagedLoad.HttpWorkload

variable {σ : Type} {network : Network σ} {w : HttpWorkload}

/-! ### What is recorded of an iteration -/

/-- A sample is one of an iteration of a workload of requests. -/
structure Sampled (w : HttpWorkload) (s : Sample) : Prop where
  /-- There are as many timings as requests. -/
  requests : s.requests.length = w.requests.length
  /-- There is a result of every check. -/
  checks : s.checks.map Prod.fst = w.declared.checks
  /-- There is a value of every trend. -/
  trends : s.values.map Prod.fst = w.declared.trends
  /-- The values are times. -/
  times : ∀ v ∈ s.values, ∃ d : Duration, v.2 = d.toMillis

theorem Sampled.mem_trends {s : Sample} (h : w.Sampled s) {v : String × Float}
    (hv : v ∈ s.values) : v.1 ∈ w.declared.trends :=
  h.trends ▸ List.mem_map_of_mem hv

/-- An iteration sends every request, and ends with an outcome that reports them. -/
theorem invoke_workload (w : HttpWorkload) (network : Network σ) (c : IterationContext) (s : σ) :
    ∃ answers last o, Answered network s w.requests answers last ∧
      (w.workload network).invoke c s = (⟨o.latency.startedMillis, .outcome o⟩, last) ∧
      Reports w.requests answers o := by
  obtain ⟨answers, last, hanswered, hsend⟩ := exists_answered network {} s w.requests
  refine ⟨answers, last, observeAll {} (w.requests.zip answers), hanswered, ?_,
    reports_of_answered hanswered⟩
  simp only [workload, iterate, hsend]

/-- Whatever became of the requests, this is recorded. -/
theorem sampled_of_invoke {call : Call} {state : σ} {s : Sample}
    (hinvoke : ((w.workload network).invoke call.1 state).1 = call.2)
    (hsample : call.sample? = some s) : w.Sampled s := by
  obtain ⟨answers, last, o, hanswered, hcall, hreports⟩ :=
    invoke_workload w network call.1 state
  obtain ⟨hchecks, htrends⟩ := hreports.names_eq hanswered.length_eq
  rw [hcall] at hinvoke
  rw [Call.sample?, ← hinvoke] at hsample
  cases hsample
  refine ⟨?_, hchecks, htrends, ?_⟩
  · rw [hreports.timings, List.length_map, hanswered.length_eq]
  · intro v hv
    rw [hreports.values] at hv
    obtain ⟨e, -, rfl⟩ := List.mem_map.1 hv
    exact ⟨e.2.2, rfl⟩

/-! ### What the iterations amount to -/

/-- The totals of an aggregate are those of some iterations of a workload of requests. -/
structure Accounted (w : HttpWorkload) (iterations : Nat) (t : Table String Statistics) :
    Prop where
  /-- Every request of every iteration has a time, and has failed or not. -/
  requests : ∃ times failed, t.get? Metric.requestDuration = some (.trend times) ∧
    t.get? Metric.requestFailed = some (.rate failed) ∧
    times.count = iterations * w.requests.length ∧ failed.total = iterations * w.requests.length
  /-- Every check of every iteration has a result. -/
  checks : ∃ results, t.get? Metric.checks = some (.rate results) ∧
    results.total = iterations * w.declared.checks.length
  /-- The trends of the requests, each taken once, together hold a value of every request of
  every iteration. -/
  trends : ∀ names : List String, names.Nodup → (∀ n, n ∈ names ↔ n ∈ w.declared.trends) →
    ∃ own : String → TrendSummary Float, (∀ n ∈ names, t.get? n = some (.trend (own n))) ∧
      (names.map fun n => (own n).count).sum = iterations * w.requests.length

/-- Parts of one length make up a multiple of it. -/
theorem length_flatMap_of_forall {α β : Type} {f : α → List β} {n : Nat} {l : List α}
    (h : ∀ a ∈ l, (f a).length = n) : (l.flatMap f).length = l.length * n := by
  rw [List.length_flatMap, List.map_congr_left h, List.map_const', List.sum_replicate_nat]

/-- What a workload is built from. -/
theorem exists_of_build? {base : String} {specs : List RequestSpec} {timeout : Option Duration}
    (hbuild : build? base specs timeout = .ok w) :
    ∃ root, Url.parse? base = some root ∧ root.isWeb = true ∧
      specs.mapM (prepare? root timeout) = .ok w.requests := by
  unfold build? at hbuild
  split at hbuild
  · cases hbuild
  case h_2 root hroot =>
    split at hbuild
    · cases hbuild
    case isFalse hweb =>
      cases hrequests : specs.mapM (prepare? root timeout) with
      | error fault => rw [hrequests] at hbuild; cases hbuild
      | ok requests =>
        rw [hrequests] at hbuild
        cases hbuild
        exact ⟨root, hroot, by simpa using hweb, hrequests⟩

/-- The trends of prepared requests are called after them. -/
theorem exists_requestTrend {base : String} {specs : List RequestSpec} {timeout : Option Duration}
    (hbuild : build? base specs timeout = .ok w) {name : String}
    (hname : name ∈ w.declared.trends) :
    ∃ request, name = Metric.requestTrend request := by
  obtain ⟨root, -, -, hrequests⟩ := exists_of_build? hbuild
  obtain ⟨r, hr, rfl⟩ := List.mem_map.1 hname
  obtain ⟨spec, -, hspec⟩ := exists_of_mem_mapM hrequests hr
  unfold prepare? at hspec
  split at hspec <;> cases hspec
  exact ⟨spec.name, rfl⟩

section Aggregate

variable {samples : List Sample} {o : AggregateOptions} {request : String}

/-- Under the name of the own trend of a request nothing else is found. -/
theorem aggregate_requestTrend (h : Metric.requestTrend request ∈ trendNames samples o) :
    (aggregate samples o).get? (Metric.requestTrend request) =
      some (trendStatistics samples o (Metric.requestTrend request)) :=
  aggregate_trend samples o (Metric.requestTrend_ne (by decide))
    (Metric.requestTrend_ne (by decide)) (Metric.requestTrend_ne (by decide))
    (Metric.checkOfSeries?_requestTrend request) h

/-- It counts the values that are called so. -/
theorem count_requestTrend (mode : PercentileMode) (ps : List Percentile)
    (htimes : ∀ s ∈ samples, ∀ v ∈ s.values, ∃ d : Duration, v.2 = d.toMillis) :
    (TrendSummary.ofValues mode ps
      (samples.flatMap fun s => s.trendValues (Metric.requestTrend request))).count =
      (samples.flatMap Sample.values).countP fun v => v.1 == Metric.requestTrend request := by
  have hvalues : (samples.flatMap fun s => s.trendValues (Metric.requestTrend request)) =
      ((samples.flatMap Sample.values).filter
        fun v => v.1 == Metric.requestTrend request).map Prod.snd := by
    rw [List.filter_flatMap, List.map_flatMap]
    refine List.flatMap_congr fun s _ => ?_
    rw [Sample.trendValues, if_neg (Metric.requestTrend_ne (by decide)),
      if_neg (Metric.requestTrend_ne (by decide))]
    rfl
  have hfinite : ∀ x ∈ ((samples.flatMap Sample.values).filter
      fun v => v.1 == Metric.requestTrend request).map Prod.snd, Scalar.isFinite x = true := by
    intro x hx
    obtain ⟨v, hv, rfl⟩ := List.mem_map.1 hx
    obtain ⟨s, hs, hvs⟩ := List.mem_flatMap.1 (List.mem_of_mem_filter hv)
    obtain ⟨d, hd⟩ := htimes s hs v hvs
    rw [hd]
    exact d.isFinite_toMillis
  rw [TrendSummary.count_ofValues, hvalues, List.filter_eq_self.2 hfinite, List.length_map,
    ← List.countP_eq_length_filter]

/-- There is a timing of every request of every iteration. -/
theorem sum_requests (hne : w.requests ≠ []) (hsampled : ∀ s ∈ samples, w.Sampled s) :
    (samples.map fun s => max 1 s.requests.length).sum = samples.length * w.requests.length := by
  have hone : ∀ s ∈ samples, max 1 s.requests.length = w.requests.length := by
    intro s hs
    rw [(hsampled s hs).requests]
    exact Nat.max_eq_right (List.length_pos_iff.2 hne)
  rw [List.map_congr_left hone, List.map_const', List.sum_replicate_nat]

/-- There is a result of every check of every iteration. -/
theorem length_checkOutcomes (hsampled : ∀ s ∈ samples, w.Sampled s) :
    (checkOutcomes samples).length = samples.length * w.declared.checks.length := by
  refine length_flatMap_of_forall fun s hs => ?_
  have hlength := congrArg List.length (hsampled s hs).checks
  rwa [List.length_map] at hlength

/-- There is a value of every request of every iteration. -/
theorem length_values (hsampled : ∀ s ∈ samples, w.Sampled s) :
    (samples.flatMap Sample.values).length = samples.length * w.requests.length := by
  refine length_flatMap_of_forall fun s hs => ?_
  have hlength := congrArg List.length (hsampled s hs).trends
  rwa [List.length_map, declared, List.length_map] at hlength

/-- And each of them is in one trend, if each trend is taken once. -/
theorem sum_count_trends {names : List String} (hnodup : names.Nodup)
    (hnames : ∀ n, n ∈ names ↔ n ∈ w.declared.trends)
    (htrends : ∀ n ∈ w.declared.trends, ∃ request, n = Metric.requestTrend request)
    (hsampled : ∀ s ∈ samples, w.Sampled s) (mode : PercentileMode) (ps : List Percentile) :
    (names.map fun n => (TrendSummary.ofValues mode ps
      (samples.flatMap fun s => s.trendValues n)).count).sum =
      samples.length * w.requests.length := by
  have hcount : ∀ n ∈ names,
      (TrendSummary.ofValues mode ps (samples.flatMap fun s => s.trendValues n)).count =
      (samples.flatMap Sample.values).countP fun v => v.1 == n && true := by
    intro n hn
    obtain ⟨request, rfl⟩ := htrends n ((hnames n).1 hn)
    simp only [Bool.and_true]
    exact count_requestTrend mode ps fun s hs => (hsampled s hs).times
  have hmem : ∀ v ∈ samples.flatMap Sample.values, v.1 ∈ names := by
    intro v hv
    obtain ⟨s, hs, hvs⟩ := List.mem_flatMap.1 hv
    exact (hnames v.1).2 ((hsampled s hs).mem_trends hvs)
  rw [List.map_congr_left hcount, sum_countP_names hnodup (fun _ => true) hmem, List.countP_true]
  exact length_values hsampled

/-- The totals of the samples of some iterations. -/
theorem accounted_aggregate (hne : w.requests ≠ [])
    (htrends : ∀ n ∈ w.declared.trends, ∃ request, n = Metric.requestTrend request)
    (hdeclared : o.trends = w.declared.trends) (hsampled : ∀ s ∈ samples, w.Sampled s) :
    w.Accounted samples.length (aggregate samples o) := by
  have hrequests := sum_requests hne hsampled
  refine ⟨?requests, ?checks, ?trends⟩
  case requests =>
    -- no request has a trend that is called like the times of all requests
    have hcustom : ∀ s ∈ samples, ∀ v ∈ s.values, v.1 ≠ Metric.requestDuration := by
      intro s hs v hv
      obtain ⟨request, hrequest⟩ := htrends v.1 ((hsampled s hs).mem_trends hv)
      rw [hrequest]
      exact Metric.requestTrend_ne (by decide)
    obtain ⟨times, htimes, hcount⟩ := get?_requestDuration (o := o) hcustom
    exact ⟨times, _, htimes, (aggregate_requestFailed samples o).trans
      (by rw [failedStatistics_eq]), hcount.trans hrequests, hrequests⟩
  case checks =>
    exact ⟨_, (aggregate_checks samples o).trans (by rw [allChecksStatistics_eq]),
      length_checkOutcomes hsampled⟩
  case trends =>
    intro names hnodup hnames
    refine ⟨fun n => TrendSummary.ofValues o.mode o.percentiles
      (samples.flatMap fun s => s.trendValues n), ?_, ?_⟩
    · intro n hn
      obtain ⟨request, rfl⟩ := htrends n ((hnames n).1 hn)
      refine aggregate_requestTrend ?_
      rw [trendNames, hdeclared]
      exact List.mem_append_left _ (List.mem_append_right _ ((hnames _).1 hn))
    · exact sum_count_trends hnodup hnames htrends hsampled o.mode o.percentiles

end Aggregate

/-! ### What a run reports -/

/-- The samples in the end are those of iterations. -/
theorem sampled_of_covers {r : Run σ} {calls : List Call} {report : RunReport}
    (hcovers : r.Covers calls report) (hworkload : r.pool.workload = w.workload network) :
    ∀ s ∈ r.pool.recorder.snapshot, w.Sampled s := by
  intro s hs
  rw [hcovers.samples] at hs
  obtain ⟨k, -, hk⟩ := List.mem_flatMap.1 hs
  obtain ⟨call, hcall, hsample⟩ := List.mem_filterMap.1 hk
  obtain ⟨state, hinvoke⟩ := hcovers.made call (List.mem_of_mem_filter hcall)
  rw [hworkload] at hinvoke
  exact sampled_of_invoke hinvoke hsample

/-- **Every request is accounted for.**  Whatever the network makes of the requests, an iteration
sends every one of them, ends with an outcome, and reports of each what became of it, under names
that have been declared; and whatever happens in a run with a report, the totals in it are those
of one iteration, as often as there were iterations. -/
theorem accounted_request_by_request {base : String} {specs : List RequestSpec}
    {timeout : Option Duration} (hbuild : build? base specs timeout = .ok w)
    (hne : w.requests ≠ []) (network : Network σ) :
    (∀ c s, ∃ answers last o, Answered network s w.requests answers last ∧
      (w.workload network).invoke c s = (⟨o.latency.startedMillis, .outcome o⟩, last) ∧
      Reports w.requests answers o ∧
      o.checks.map Prod.fst = w.declared.checks ∧ o.values.map Prod.fst = w.declared.trends) ∧
    ∀ {config : RunConfig} {s : σ} {reporting : Bool} {aborts : List Nat} {fuel : Nat}
        {r r' : Run σ} {report : RunReport},
      Run.prepare config (w.workload network) s reporting aborts = .ok r →
      Run.execute? fuel r = some (r', .ok report) →
      w.Accounted report.iterations report.perMetric := by
  refine ⟨?_, ?_⟩
  · intro c s
    obtain ⟨answers, last, o, hanswered, hinvoke, hreports⟩ := invoke_workload w network c s
    exact ⟨answers, last, o, hanswered, hinvoke, hreports, hreports.names_eq hanswered.length_eq⟩
  · intro config s reporting aborts fuel r r' report hprepare hexecute
    obtain ⟨calls, -, hcovers⟩ := Run.exists_covers hprepare hexecute
    have hsampled := sampled_of_covers hcovers (Run.workload_of_execute? hprepare hexecute)
    have hdeclared : r'.plan.aggregate.trends = w.declared.trends := by
      obtain ⟨plan, hplan, rfl⟩ := Run.prepare_eq_ok hprepare
      obtain ⟨n, -, rfl, -, -⟩ := Run.execute?_eq_some.1 hexecute
      obtain ⟨schedule, rules, -, -, -, rfl⟩ := RunConfig.validate_eq_ok hplan
      rw [Run.plan_after]
      rfl
    rw [hcovers.perMetric, hcovers.iterations.1]
    exact accounted_aggregate hne (fun name => exists_requestTrend hbuild) hdeclared hsampled

/-- Two requests with the same name, and one with another. -/
def namesakes : List RequestSpec :=
  [{ name := "login", path := "/login", checks := [⟨"up", .status 200⟩, ⟨"moved", .status 302⟩] },
    { name := "login", path := "/again", checks := [⟨"up", .status 200⟩] },
    { name := "home", path := "/" }]

/-- A network on which every second request is lost. -/
def lossy : Network Nat where
  exchange _ n :=
    (⟨Duration.ofMillis 4, if n % 2 = 0 then .response 200 [] [] else .failure "lost"⟩, n + 1)

/-- One user, who has time for five iterations. -/
def lossyConfig : RunConfig :=
  { startUsers := 1, stages := [⟨Duration.ofMillis 20, 1⟩], thinkTime := Duration.ofMillis 10 }

/-- A lost request fails its two checks and not the one of its namesake, and five iterations make
15 times of requests, with those of the namesakes in one trend. -/
theorem namesakes_share_a_trend : ∃ w r r' report answers last o,
    build? "http://localhost/" namesakes none = .ok w ∧ w.requests ≠ [] ∧
    Answered lossy 1 w.requests answers last ∧ Reports w.requests answers o ∧
    o.checks = [("up", false), ("moved", false), ("up", true)] ∧
    Run.prepare lossyConfig (w.workload lossy) 0 false [] = .ok r ∧
    Run.execute? 40 r = some (r', .ok report) ∧ w.Accounted 5 report.perMetric ∧
    ∃ login home, report.perMetric.get? (Metric.requestTrend "login") = some (.trend login) ∧
      report.perMetric.get? (Metric.requestTrend "home") = some (.trend home) ∧
      login.count + home.count = 15 := by
  obtain ⟨w, r, r', report, o, last, hbuild, hne, hinvoke, hchecks, hprepare, hexecute, hfive,
      hlength, htrends⟩ : ∃ w r r' report o last,
      build? "http://localhost/" namesakes none = .ok w ∧ w.requests ≠ [] ∧
      (w.workload lossy).invoke default 1 = (⟨12, .outcome o⟩, last) ∧
      o.checks = [("up", false), ("moved", false), ("up", true)] ∧
      Run.prepare lossyConfig (w.workload lossy) 0 false [] = .ok r ∧
      Run.execute? 40 r = some (r', .ok report) ∧ report.iterations = 5 ∧
      w.requests.length = 3 ∧ w.declared.trends = [Metric.requestTrend "login",
        Metric.requestTrend "login", Metric.requestTrend "home"] :=
    ⟨_, _, _, _, _, _, rfl, by decide, rfl, by decide, rfl, rfl, rfl, rfl, rfl⟩
  obtain ⟨hiteration, hrun⟩ := accounted_request_by_request hbuild hne lossy
  obtain ⟨answers, last', o', hanswered, hinvoke', hreports, -, -⟩ := hiteration default 1
  simp only [hinvoke, Prod.mk.injEq, Invocation.mk.injEq, Ending.outcome.injEq] at hinvoke'
  obtain ⟨⟨-, rfl⟩, rfl⟩ := hinvoke'
  have haccounted := hrun hprepare hexecute
  obtain ⟨own, hown, hsum⟩ := haccounted.trends
    [Metric.requestTrend "login", Metric.requestTrend "home"] (by decide) (by simp [htrends])
  rw [hfive] at haccounted hsum
  rw [hlength] at hsum
  refine ⟨w, r, r', report, answers, last, o, hbuild, hne, hanswered, hreports, hchecks, hprepare,
    hexecute, haccounted, _, _, hown _ (by simp), hown _ (by simp), ?_⟩
  simpa using hsum

end StagedLoad.HttpWorkload
