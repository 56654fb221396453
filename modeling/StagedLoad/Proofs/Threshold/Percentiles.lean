import StagedLoad.Proofs.Metric.Series
import StagedLoad.Proofs.Metric.Trend
import StagedLoad.Proofs.Threshold.Rule
import StagedLoad.Run.Report

/-!
# Percentiles that are only reported

A trend tells the percentiles that a configuration asks for and those that its rules look at, in
one table.  A rule finds its own one there whatever else has been asked for, so what is only
reported changes no judgement.

## Main results

* `observed_trend_congr`, `observed_aggregate_congr` — what a selector finds does not depend on
  the percentiles that it does not mean.
* `evaluate_aggregate_congr` — neither does a judgement.
* `abortOnFail_of_mem_compile` — a rule that stops a run has been declared to do so.
-/

namespace StagedLoad.Threshold

variable {samples : List Sample} {o : AggregateOptions} {ps : List Percentile}

theorem observed_trend_congr {mode : PercentileMode} {ps' : List Percentile} {values : List Float}
    {sel : Selector} (h : ∀ p, sel = .percentile p → (p ∈ ps ↔ p ∈ ps')) :
    observed (.trend (TrendSummary.ofValues mode ps values)) sel =
      observed (.trend (TrendSummary.ofValues mode ps' values)) sel := by
  by_cases hnil : values.filter Binary64.isFinite = []
  · rw [TrendSummary.ofValues_of_nil hnil, TrendSummary.ofValues_of_nil hnil]
  · obtain ⟨r, hr, heq⟩ := TrendSummary.ofValues_of_ne_nil mode ps hnil
    obtain ⟨r', hr', heq'⟩ := TrendSummary.ofValues_of_ne_nil mode ps' hnil
    obtain rfl : r = r' := Option.some.inj (hr.symm.trans hr')
    rw [heq, heq']
    cases sel with
    | percentile p => simp only [observed, TrendSummary.get?_tabulate, h p rfl]
    | avg | min | max | med | count | rate => rfl

/-- Which percentiles have been asked for is seen in trends alone, and only by selectors that mean
one of them. -/
theorem observed_aggregate_congr {name : String} {sel : Selector}
    (h : ∀ p, sel = .percentile p → (p ∈ o.percentiles ↔ p ∈ ps)) :
    ((aggregate samples { o with percentiles := ps }).get? name).bind (fun s => observed s sel) =
      ((aggregate samples o).get? name).bind fun s => observed s sel := by
  by_cases hides : Hides samples o name
  · -- what hides a trend is the same in both tables
    cases hides with
    | iterations hname => rw [hname, aggregate_iterations, aggregate_iterations]
    | checks hname => rw [hname, aggregate_checks, aggregate_checks]
    | requestFailed hname => rw [hname, aggregate_requestFailed, aggregate_requestFailed]
    | @check c hc hname =>
      have hc' : c ∈ checkNames samples { o with percentiles := ps } := hc
      rw [hname, aggregate_checkSeries samples o hc, aggregate_checkSeries samples _ hc']
  · have hides' : ¬ Hides samples { o with percentiles := ps } name :=
      fun hides' => hides (hides'.mono fun _ hc => hc)
    rw [get?_aggregate_of_not_hides samples o hides, get?_aggregate_of_not_hides samples _ hides']
    by_cases hname : name ∈ trendNames samples o
    · have hname' : name ∈ trendNames samples { o with percentiles := ps } := hname
      rw [if_pos hname, if_pos hname']
      exact (observed_trend_congr h).symm
    · have hname' : name ∉ trendNames samples { o with percentiles := ps } := hname
      rw [if_neg hname, if_neg hname']

/-- Rules judge the same whatever percentiles are told besides their own. -/
theorem evaluate_aggregate_congr {rules : List Rule} (samples : List Sample)
    (o : AggregateOptions) (strict : Bool)
    (h : ∀ r ∈ rules, ∀ p, r.percentile? = some p → p ∈ o.percentiles ∧ p ∈ ps) :
    evaluate rules (aggregate samples { o with percentiles := ps }) strict =
      evaluate rules (aggregate samples o) strict := by
  have hjudge : ∀ r ∈ rules, r.judge (aggregate samples { o with percentiles := ps }) =
      r.judge (aggregate samples o) := by
    intro r hr
    have hobserved : r.observed (aggregate samples { o with percentiles := ps }) =
        r.observed (aggregate samples o) := by
      apply observed_aggregate_congr
      intro p hp
      obtain ⟨ho, hps⟩ := h r hr p (by rw [Rule.percentile?, hp])
      exact iff_of_true ho hps
    rw [Rule.judge, hobserved, Rule.judge]
  have hmap :
      (rules.map fun r => (r.id, r.judge (aggregate samples { o with percentiles := ps }))) =
        rules.map fun r => (r.id, r.judge (aggregate samples o)) :=
    List.map_congr_left fun r hr => by rw [hjudge r hr]
  rw [evaluate, hmap, evaluate]

/-! ### Rules that stop a run -/

/-- A rule that stops a run has been declared to do so. -/
theorem abortOnFail_of_mem_compile {declared : DeclaredMetrics} {sets : List DeclarationSet}
    {rules : List Rule} (h : compile declared sets = .ok rules) {r : Rule} (hr : r ∈ rules)
    (hstops : r.abortOnFail = true) : ∃ s ∈ sets, ∃ d ∈ s.declarations, d.abortOnFail = true := by
  obtain ⟨s, hs, kind, -, d, hd, hone⟩ := exists_of_mem_compile h hr
  obtain ⟨e, -, -, -, rfl⟩ := compileOne_eq_ok hone
  exact ⟨s, hs, d, hd, hstops⟩

end StagedLoad.Threshold
