import StagedLoad.Proofs.Metric.Series
import StagedLoad.Proofs.Metric.Trend
import StagedLoad.Proofs.Threshold.Rule
import StagedLoad.Threshold.Evaluation

/-!
# Rules find what they judge

Compiling, aggregating and judging each keep a table of their own of the metrics there
are.  They agree: a rule of a plan always finds a series of its kind under its metric, and
it stays undetermined only where nothing was observed.

## Main definitions

* `Sample.Observes`, `Sample.Decides` — what a sample says about a metric.
* `Threshold.Rule.NothingToJudge` — nothing was said that a rule could look at.

## Main results

* `Threshold.observed_trend_eq_none_iff`, `Threshold.observed_rate_eq_none_iff`,
  `Threshold.observed_iterations_eq_none_iff` — when a statistic does not exist.
* `Threshold.Rule.Accepted.observed_eq_none_iff` — **the three tables agree**: an accepted rule
  finds a series of its kind, and its statistic there unless there is nothing to judge.
-/

namespace StagedLoad

/-! ### What a sample says -/

/-- A sample holds a numeric observation of a metric. -/
def Sample.Observes (s : Sample) (metric : String) (x : Float) : Prop :=
  (metric = Metric.requestDuration ∧ ∃ t ∈ s.countedRequests, t.latency.toMillis = x) ∨
  (metric = Metric.iterationDuration ∧ s.iterationDuration.toMillis = x) ∨
  (metric, x) ∈ s.values

/-- A sample holds an observation of a metric that holds or does not. -/
def Sample.Decides (s : Sample) (metric : String) (b : Bool) : Prop :=
  (metric = Metric.requestFailed ∧ ∃ t ∈ s.countedRequests, t.failed = b) ∨
  (metric = Metric.checks ∧ ∃ check, (check, b) ∈ s.checks) ∨
  ∃ check, metric = Metric.checkSeries check ∧ (check, b) ∈ s.checks

theorem Sample.mem_trendValues {s : Sample} {metric : String} {x : Float} :
    x ∈ s.trendValues metric ↔ s.Observes metric x := by
  have hcustom : x ∈ s.customValues metric ↔ (metric, x) ∈ s.values := by
    simp [customValues]
  unfold trendValues Observes
  rw [List.mem_append, List.mem_append, hcustom, or_assoc]
  by_cases hr : metric = Metric.requestDuration
  · have hne : metric ≠ Metric.iterationDuration := by
      rw [hr]
      decide
    simp [hr, show ¬ Metric.requestDuration = Metric.iterationDuration from hr ▸ hne]
  · by_cases hi : metric = Metric.iterationDuration
    · have hne : ¬ Metric.iterationDuration = Metric.requestDuration := hi ▸ hr
      simp [hi, hne, eq_comm]
    · simp [hr, hi]

/-- The finite observations of a metric in some samples. -/
def finiteObservations (samples : List Sample) (metric : String) : List Float :=
  (samples.flatMap fun s => s.trendValues metric).filter Binary64.isFinite

theorem finiteObservations_eq_nil_iff {samples : List Sample} {metric : String} :
    finiteObservations samples metric = [] ↔
      ∀ s ∈ samples, ∀ x, s.Observes metric x → Binary64.isFinite x = false := by
  simp only [finiteObservations, List.filter_eq_nil_iff, List.mem_flatMap, Sample.mem_trendValues,
    Bool.not_eq_true]
  constructor
  · intro h s hs x hx
    exact h x ⟨s, hs, hx⟩
  · rintro h x ⟨s, hs, hx⟩
    exact h s hs x hx

namespace Threshold

/-! ### What a statistic is missing for -/

/-- The percentile that a selector needs. -/
def Selector.percentile? : Selector → Option Percentile
  | .med => some Percentile.median
  | .percentile p => some p
  | _ => none

/-- A trend lacks a statistic other than the count only where nothing was observed. -/
theorem observed_trend_eq_none_iff {mode : PercentileMode} {ps : List Percentile}
    {values : List Float} {sel : Selector} (hrate : sel ≠ .rate)
    (hps : ∀ p, sel = .percentile p → p ∈ ps)
    (hranks : ∀ p, sel.percentile? = some p →
      p.WithinRanks (values.filter Binary64.isFinite).length) :
    observed (.trend (TrendSummary.ofValues mode ps values)) sel = none ↔
      sel ≠ .count ∧ values.filter Binary64.isFinite = [] := by
  by_cases hnil : values.filter Binary64.isFinite = []
  · rw [TrendSummary.ofValues_of_nil hnil]
    cases sel <;> simp_all [observed, TrendSummary.empty]
  · obtain ⟨r, -, heq⟩ := TrendSummary.ofValues_of_ne_nil mode ps hnil
    have hquantile : ∀ p, sel.percentile? = some p →
        (TrendSummary.quantiles mode (values.filter Binary64.isFinite) p).isSome := by
      intro p hp
      exact TrendSummary.quantiles_isSome mode hnil (hranks p hp)
    rw [heq]
    simp only [hnil, and_false, iff_false]
    cases sel with
    | avg | min | max | count => simp [observed]
    | rate => exact absurd rfl hrate
    | med => exact Option.isSome_iff_ne_none.mp (hquantile _ rfl)
    | percentile p =>
      rw [observed, TrendSummary.get?_tabulate, if_pos (hps p rfl)]
      exact Option.isSome_iff_ne_none.mp (hquantile p rfl)

theorem observed_rate_eq_none_iff {l : List Bool} {sel : Selector}
    (h : sel = .rate ∨ sel = .count) :
    observed (.rate (Rate.ofList l)) sel = none ↔ sel ≠ .count ∧ l = [] := by
  rcases h with rfl | rfl
  · simp [observed, Rate.share, Rate.ofList, List.length_pos_iff]
  · simp [observed]

theorem observed_iterations_eq_none_iff {samples : List Sample} {elapsed : Option Duration}
    {sel : Selector} (h : sel = .rate ∨ sel = .count) :
    observed (iterationStatistics samples elapsed) sel = none ↔
      sel = .rate ∧ (elapsed = none ∨ elapsed = some Duration.zero) := by
  rcases h with rfl | rfl
  · cases elapsed with
    | none => simp [observed, iterationStatistics]
    | some d =>
      simp only [observed, iterationStatistics, Option.map_eq_none_iff, Option.filter_eq_none_iff,
        true_and, reduceCtorEq, false_or, Option.some.injEq]
      simp [← Duration.isZero_iff]
  · simp [observed, iterationStatistics]

theorem Expr.status_eq_undetermined_iff {e : Expr} {o : Option Float} :
    e.status o = .undetermined ↔ o = none := by
  cases o with
  | none => simp [status]
  | some x =>
    simp only [status]
    split <;> simp

/-! ### The series of a rule -/

/-- What the metrics of a kind are called. -/
def KnownAs (declared : DeclaredMetrics) (metric : String) : Metric.Kind → Prop
  | .trend => metric ∈ builtinTrends ++ declared.trends ∧ metric ≠ Metric.iterations ∧
      metric ≠ Metric.checks ∧ metric ≠ Metric.requestFailed ∧
      Metric.checkOfSeries? metric = none
  | .rate => metric = Metric.requestFailed ∨ metric = Metric.checks ∨
      ∃ check ∈ declared.checks, metric = Metric.checkSeries check
  | .counter => metric = Metric.iterations

section

variable {declared : DeclaredMetrics} {metric : String} {kind : Metric.Kind}

/-- A metric that every run has goes by one of the names of its kind. -/
theorem knownAs_of_builtinKind? (hcheck : Metric.checkOfSeries? metric = none)
    (h : Metric.builtinKind? metric = some kind) : KnownAs declared metric kind := by
  unfold Metric.builtinKind? at h
  split at h
  case isTrue htrend =>
    cases h
    have hmem : metric ∈ builtinTrends := by simpa [builtinTrends] using htrend
    refine ⟨List.mem_append_left _ hmem, ?_, ?_, ?_, hcheck⟩ <;>
      · rcases htrend with rfl | rfl <;> decide
  case isFalse =>
    split at h
    case isTrue hrate =>
      cases h
      rcases hrate with hfailed | hchecks
      · exact .inl hfailed
      · exact .inr (.inl hchecks)
    case isFalse =>
      split at h
      case isTrue hiterations =>
        cases h
        exact hiterations
      case isFalse =>
        rw [hcheck] at h
        cases h

/-- A declared trend is known as one unless every run has a metric of that name. -/
theorem knownAs_of_mem_trends (hcheck : Metric.checkOfSeries? metric = none)
    (hbuiltin : Metric.builtinKind? metric = none) (hmem : metric ∈ declared.trends) :
    KnownAs declared metric .trend := by
  unfold Metric.builtinKind? at hbuiltin
  split at hbuiltin
  · cases hbuiltin
  · split at hbuiltin
    case isTrue => cases hbuiltin
    case isFalse hrate =>
      split at hbuiltin
      case isTrue => cases hbuiltin
      case isFalse hiterations =>
        rw [not_or] at hrate
        exact ⟨List.mem_append_right _ hmem, hiterations, hrate.2, hrate.1, hcheck⟩

/-- What the validator takes for a metric of a kind goes by one of the names of that kind. -/
theorem knownAs_of_metricKind? (h : metricKind? declared metric = some kind) :
    KnownAs declared metric kind := by
  unfold metricKind? at h
  split at h
  case h_1 check hcheck =>
    split at h
    case isTrue hdeclared =>
      cases h
      exact .inr (.inr ⟨check, by simpa using hdeclared,
        Metric.checkOfSeries?_eq_some_iff.mp hcheck⟩)
    case isFalse => cases h
  case h_2 hcheck =>
    split at h
    case h_1 k hbuiltin =>
      cases h
      exact knownAs_of_builtinKind? hcheck hbuiltin
    case h_2 hbuiltin =>
      split at h
      case isTrue hdeclared =>
        cases h
        exact knownAs_of_mem_trends hcheck hbuiltin (by simpa using hdeclared)
      case isFalse => cases h

/-- Only the iterations are counted. -/
theorem KnownAs.ne_iterations (h : KnownAs declared metric kind) (hkind : kind ≠ .counter) :
    metric ≠ Metric.iterations := by
  cases kind with
  | trend => exact h.2.1
  | rate =>
    rcases h with rfl | rfl | ⟨check, -, rfl⟩
    · decide
    · decide
    · exact Metric.checkSeries_ne Metric.checkOfSeries?_iterations
  | counter => exact absurd rfl hkind

end

section

variable (samples : List Sample) (o : AggregateOptions) {declared : DeclaredMetrics} {r : Rule}

theorem Rule.Accepted.knownAs (h : r.Accepted declared) {kind : Metric.Kind}
    (hkind : r.kind = kind) : KnownAs declared r.metric kind :=
  hkind ▸ knownAs_of_metricKind? h.kind

/-- The trend of a metric that is known as one. -/
theorem Rule.Accepted.get?_trend (h : r.Accepted declared) (hkind : r.kind = .trend)
    (ho : o.trends = declared.trends) :
    (aggregate samples o).get? r.metric = some (trendStatistics samples o r.metric) := by
  obtain ⟨hmem, hi, hc, hf, hs⟩ := h.knownAs hkind
  apply aggregate_trend samples o hi hc hf hs
  rw [trendNames, ho]
  exact List.mem_append_left _ hmem

/-- The rate of a metric that is known as one holds what samples decide of it. -/
theorem Rule.Accepted.get?_rate (h : r.Accepted declared) (hkind : r.kind = .rate)
    (ho : o.checks = declared.checks) :
    ∃ l, (aggregate samples o).get? r.metric = some (.rate (Rate.ofList l)) ∧
      ∀ b, b ∈ l ↔ ∃ s ∈ samples, s.Decides r.metric b := by
  have hne : Metric.requestFailed ≠ Metric.checks := by decide
  rcases h.knownAs hkind with hm | hm | ⟨check, hcheck, hm⟩
  · refine ⟨_, hm ▸ aggregate_requestFailed samples o, ?_⟩
    intro b
    have hseries : ∀ check, Metric.requestFailed ≠ Metric.checkSeries check := fun check =>
      (Metric.checkSeries_ne Metric.checkOfSeries?_requestFailed).symm
    simp [Sample.Decides, hm, hne, hseries]
  · refine ⟨_, hm ▸ aggregate_checks samples o, ?_⟩
    intro b
    have hseries : ∀ check, Metric.checks ≠ Metric.checkSeries check := fun check =>
      (Metric.checkSeries_ne Metric.checkOfSeries?_checks).symm
    simp [Sample.Decides, hm, hne.symm, hseries]
  · have hmem : check ∈ checkNames samples o := by
      rw [checkNames, ho]
      exact List.mem_append_left _ hcheck
    refine ⟨_, hm ▸ aggregate_checkSeries samples o hmem, ?_⟩
    intro b
    have hf : Metric.checkSeries check ≠ Metric.requestFailed :=
      Metric.checkSeries_ne Metric.checkOfSeries?_requestFailed
    have hc : Metric.checkSeries check ≠ Metric.checks :=
      Metric.checkSeries_ne Metric.checkOfSeries?_checks
    have hown : ∀ s : Sample, (∃ c, Metric.checkSeries check = Metric.checkSeries c ∧
        (c, b) ∈ s.checks) ↔ (check, b) ∈ s.checks := by
      intro s
      constructor
      · rintro ⟨c, heq, hmem⟩
        rwa [Metric.checkSeries_injective heq]
      · intro hmem
        exact ⟨check, rfl, hmem⟩
    simp [Sample.Decides, Sample.checkResults, hm, hf, hc, hown]

theorem Rule.Accepted.get?_counter (h : r.Accepted declared) (hkind : r.kind = .counter) :
    r.metric = Metric.iterations ∧
      (aggregate samples o).get? r.metric = some (iterationStatistics samples o.elapsed) := by
  have hm : r.metric = Metric.iterations := h.knownAs hkind
  exact ⟨hm, hm ▸ aggregate_iterations samples o⟩

end

/-! ### Judging -/

/-- Whatever is listed under an id is how some rule with that id stands. -/
theorem exists_judge_eq_of_get? {rules : List Rule} {stats : Table String Statistics}
    {strict : Bool} {id : String} {j : Judgement}
    (h : (evaluate rules stats strict).perRule.get? id = some j) :
    ∃ r ∈ rules, r.id = id ∧ r.judge stats = j := by
  have hentry : (id, j) ∈ (rules.map fun r => (r.id, r.judge stats)).reverse :=
    Table.mem_of_lookup ((Table.get?_ofList _ _).symm.trans h)
  obtain ⟨r, hr, heq⟩ := List.mem_map.mp (List.mem_reverse.mp hentry)
  obtain ⟨hid, hj⟩ := Prod.mk.inj heq
  exact ⟨r, hr, hid, hj⟩

/-- Every rule is listed under its id, as it stands or as a rule with the same id does. -/
theorem exists_perRule_eq {rules : List Rule} {r : Rule} (hr : r ∈ rules)
    (stats : Table String Statistics) (strict : Bool) :
    ∃ r' ∈ rules, r'.id = r.id ∧
      (evaluate rules stats strict).perRule.get? r.id = some (r'.judge stats) := by
  have hkeys : r.id ∈ (rules.map fun r => (r.id, r.judge stats)).map Prod.fst := by
    rw [List.map_map]
    exact List.mem_map_of_mem (f := fun r : Rule => r.id) hr
  cases hget : (evaluate rules stats strict).perRule.get? r.id with
  | none => exact absurd hkeys (Table.get?_ofList_eq_none_iff.mp hget)
  | some j =>
    obtain ⟨r', hr', hid, hj⟩ := exists_judge_eq_of_get? hget
    exact ⟨r', hr', hid, by rw [hj]⟩

/-- There is nothing that a rule could look at. -/
inductive Rule.NothingToJudge (r : Rule) (samples : List Sample) (elapsed : Option Duration) : Prop
  /-- A trend without finite observations has no statistic but its count. -/
  | trend (kind : r.kind = .trend) (selector : r.expr.selector ≠ .count)
      (unobserved : ∀ s ∈ samples, ∀ x, s.Observes r.metric x → Binary64.isFinite x = false)
  /-- A rate without observations has no statistic but its count. -/
  | rate (kind : r.kind = .rate) (selector : r.expr.selector ≠ .count)
      (undecided : ∀ s ∈ samples, ∀ b, ¬ s.Decides r.metric b)
  /-- Without time there is no frequency. -/
  | frequency (metric : r.metric = Metric.iterations) (selector : r.expr.selector = .rate)
      (timeless : elapsed = none ∨ elapsed = some Duration.zero)

theorem Selector.eq_rate_or_count {s : Selector} {kind : Metric.Kind}
    (h : s.allowedFor kind = true) (hkind : kind ≠ .trend) : s = .rate ∨ s = .count := by
  cases kind with
  | trend => exact absurd rfl hkind
  | rate | counter => simpa [allowedFor] using h

section

variable {declared : DeclaredMetrics} {r : Rule} (samples : List Sample)

theorem Rule.nothingToJudge_iff_of_trend {elapsed : Option Duration} (hkind : r.kind = .trend)
    (hmetric : r.metric ≠ Metric.iterations) : r.NothingToJudge samples elapsed ↔
      r.expr.selector ≠ .count ∧
        ∀ s ∈ samples, ∀ x, s.Observes r.metric x → Binary64.isFinite x = false := by
  constructor
  · rintro (⟨-, hcount, hnone⟩ | ⟨hrate, -, -⟩ | ⟨hiterations, -, -⟩)
    · exact ⟨hcount, hnone⟩
    · rw [hkind] at hrate
      cases hrate
    · exact absurd hiterations hmetric
  · rintro ⟨hcount, hnone⟩
    exact .trend hkind hcount hnone

theorem Rule.nothingToJudge_iff_of_rate {elapsed : Option Duration} (hkind : r.kind = .rate)
    (hmetric : r.metric ≠ Metric.iterations) : r.NothingToJudge samples elapsed ↔
      r.expr.selector ≠ .count ∧ ∀ s ∈ samples, ∀ b, ¬ s.Decides r.metric b := by
  constructor
  · rintro (⟨htrend, -, -⟩ | ⟨-, hcount, hnone⟩ | ⟨hiterations, -, -⟩)
    · rw [hkind] at htrend
      cases htrend
    · exact ⟨hcount, hnone⟩
    · exact absurd hiterations hmetric
  · rintro ⟨hcount, hnone⟩
    exact .rate hkind hcount hnone

theorem Rule.nothingToJudge_iff_of_counter {elapsed : Option Duration}
    (hkind : r.kind = .counter) (hmetric : r.metric = Metric.iterations) :
    r.NothingToJudge samples elapsed ↔
      r.expr.selector = .rate ∧ (elapsed = none ∨ elapsed = some Duration.zero) := by
  constructor
  · rintro (⟨htrend, -, -⟩ | ⟨hrate, -, -⟩ | ⟨-, hselector, htime⟩)
    · rw [hkind] at htrend
      cases htrend
    · rw [hkind] at hrate
      cases hrate
    · exact ⟨hselector, htime⟩
  · rintro ⟨hselector, htime⟩
    exact .frequency hmetric hselector htime

theorem Rule.observed_of_get? {stats : Table String Statistics} {s : Statistics}
    (h : stats.get? r.metric = some s) :
    r.observed stats = Threshold.observed s r.expr.selector := by
  rw [Rule.observed, h, Option.bind_some]

/-- A rule finds a series of its kind, and its statistic there unless there is nothing to
judge. -/
theorem Rule.Accepted.observed_eq_none_iff (o : AggregateOptions) (h : r.Accepted declared)
    (htrends : o.trends = declared.trends) (hchecks : o.checks = declared.checks)
    (hps : ∀ p, r.percentile? = some p → p ∈ o.percentiles)
    (hranks : ∀ p, r.expr.selector.percentile? = some p →
      p.WithinRanks (finiteObservations samples r.metric).length) :
    ∃ s, (aggregate samples o).get? r.metric = some s ∧ s.kind = r.kind ∧
      (r.observed (aggregate samples o) = none ↔ r.NothingToJudge samples o.elapsed) := by
  have hselector := h.selector
  cases hkind : r.kind with
  | trend =>
    have hget := h.get?_trend samples o hkind htrends
    have hmetric := (h.knownAs hkind).ne_iterations (by decide)
    have hrate : r.expr.selector ≠ .rate := by
      rw [hkind] at hselector
      simpa [Selector.allowedFor] using hselector
    have hmem : ∀ p, r.expr.selector = .percentile p → p ∈ o.percentiles := by
      intro p hp
      exact hps p (by rw [Rule.percentile?, hp])
    refine ⟨_, hget, rfl, ?_⟩
    rw [Rule.observed_of_get? hget, trendStatistics, observed_trend_eq_none_iff hrate hmem hranks,
      ← finiteObservations, finiteObservations_eq_nil_iff,
      Rule.nothingToJudge_iff_of_trend samples hkind hmetric]
  | rate =>
    obtain ⟨l, hget, hl⟩ := h.get?_rate samples o hkind hchecks
    have hmetric := (h.knownAs hkind).ne_iterations (by decide)
    have hnil : l = [] ↔ ∀ s ∈ samples, ∀ b, ¬ s.Decides r.metric b := by
      simp only [List.eq_nil_iff_forall_not_mem, hl, not_exists, not_and]
      exact ⟨fun h s hs b => h b s hs, fun h b s hs => h s hs b⟩
    have hkinds := Selector.eq_rate_or_count hselector (by rw [hkind]; decide)
    refine ⟨_, hget, rfl, ?_⟩
    rw [Rule.observed_of_get? hget, observed_rate_eq_none_iff hkinds, hnil,
      Rule.nothingToJudge_iff_of_rate samples hkind hmetric]
  | counter =>
    obtain ⟨hmetric, hget⟩ := h.get?_counter samples o hkind
    have hkinds := Selector.eq_rate_or_count hselector (by rw [hkind]; decide)
    refine ⟨_, hget, rfl, ?_⟩
    rw [Rule.observed_of_get? hget, observed_iterations_eq_none_iff hkinds,
      Rule.nothingToJudge_iff_of_counter samples hkind hmetric]

end

/-- **The three tables agree.**  Every rule of a plan finds a series of its kind under its
metric, whatever a workload records; and where it is listed it is undetermined exactly if
nothing was observed that it could look at, so never for want of the series, of the
statistic or of the percentile.

The hypothesis is about doubles alone: the rank of the percentile that the rule asks for is
not rounded beyond the last observation. -/
theorem undetermined_iff_nothing_to_judge {config : RunConfig} {declared : DeclaredMetrics}
    {plan : RunPlan} (hplan : config.validate declared = .ok plan) {r : Rule}
    (hr : r ∈ plan.rules) (samples : List Sample) (elapsed : Option Duration) (strict : Bool)
    (hranks : ∀ p, r.expr.selector.percentile? = some p →
      p.WithinRanks (finiteObservations samples r.metric).length) :
    ∃ s j, (aggregate samples { plan.aggregate with elapsed }).get? r.metric = some s ∧
      s.kind = r.kind ∧
      (evaluate plan.rules (aggregate samples { plan.aggregate with elapsed })
        strict).perRule.get? r.id = some j ∧
      j.metric = r.metric ∧ j.expression = r.expression ∧
      (j.status = .undetermined ↔ r.NothingToJudge samples elapsed) := by
  obtain ⟨schedule, rules, -, -, hrules, rfl⟩ := RunConfig.validate_eq_ok hplan
  have haccepted : r.Accepted declared := accepted_of_mem_compile hrules hr
  obtain ⟨s, hget, hkind, hiff⟩ := haccepted.observed_eq_none_iff samples
    { percentiles := config.allPercentiles rules, mode := config.percentileMode, elapsed,
      checks := declared.checks, trends := declared.trends }
    rfl rfl (fun p hp => RunConfig.mem_allPercentiles.mpr (.inr ⟨r, hr, hp⟩)) hranks
  generalize aggregate samples _ = stats at hget hiff ⊢
  -- the entry may be that of a later rule with the same id, which judges the same
  obtain ⟨r', hr', hid, hentry⟩ := exists_perRule_eq hr stats strict
  obtain ⟨hm, -, he, hx⟩ := (accepted_of_mem_compile hrules hr').eq_of_id_eq haccepted hid
  have hsame : (r'.judge stats).status = (r.judge stats).status := by
    simp only [Rule.judge, Rule.observed, hm, hx]
  refine ⟨s, r'.judge stats, hget, hkind, hentry, hm, he, ?_⟩
  rw [hsame, Rule.judge, Expr.status_eq_undetermined_iff]
  exact hiff

/-- A run that looks at a percentile of a declared trend with a colon in its name. -/
def queueConfig : RunConfig where
  stages := [⟨Duration.seconds 1, 1⟩]
  thresholds := [⟨"queue: depth", [⟨" p(95) < 5 ", true⟩]⟩]

/-- Three observations of that trend, of which two are finite. -/
def queueSamples : List Sample :=
  [{ values := [("queue: depth", 3), ("queue: depth", 0 / 0)] },
    { values := [("queue: depth", 4)] }]

theorem queue_depth_is_judged :
    ∃ plan r s j, queueConfig.validate { trends := ["queue: depth"] } = .ok plan ∧
      plan.rules = [r] ∧
      (∀ p, r.expr.selector.percentile? = some p →
        p.WithinRanks (finiteObservations queueSamples r.metric).length) ∧
      (aggregate queueSamples plan.aggregate).get? "queue: depth" = some s ∧ s.kind = .trend ∧
      (evaluate plan.rules (aggregate queueSamples plan.aggregate) false).perRule.get?
        "queue: depth: p(95) < 5" = some j ∧
      (j.status = .undetermined ↔ r.NothingToJudge queueSamples none) := by
  obtain ⟨plan, r, hplan, hrules, hmetric, hkind, hid, hsel, htime⟩ :
      ∃ plan r, queueConfig.validate { trends := ["queue: depth"] } = .ok plan ∧
        plan.rules = [r] ∧ r.metric = "queue: depth" ∧ r.kind = .trend ∧
        r.id = "queue: depth: p(95) < 5" ∧
        r.expr.selector = .percentile ⟨9500, by decide, by decide⟩ ∧
        plan.aggregate.elapsed = none :=
    ⟨_, _, rfl, rfl, rfl, rfl, rfl, rfl, rfl⟩
  have hranks : ∀ p, r.expr.selector.percentile? = some p →
      p.WithinRanks (finiteObservations queueSamples r.metric).length := by
    rw [hsel, hmetric]
    rintro p ⟨⟩
    decide +kernel
  have hr : r ∈ plan.rules := by simp [hrules]
  have hopts : { plan.aggregate with elapsed := none } = plan.aggregate := by rw [← htime]
  obtain ⟨s, j, hget, hs, hentry, -, -, hiff⟩ :=
    undetermined_iff_nothing_to_judge hplan hr queueSamples none false hranks
  rw [hopts] at hget hentry
  exact ⟨plan, r, s, j, hplan, hrules, hranks, hmetric ▸ hget, hs.trans hkind, hid ▸ hentry, hiff⟩

end Threshold

end StagedLoad
