import StagedLoad.Proofs.Metric.Series
import StagedLoad.Proofs.Metric.Trend

/-!
# Names that workloads share with the other series

A workload calls its observations as it likes, and all series stand in one table.  What shares
its name with a rate or with the counter is not shown, and leaves no trace on it.  What is called
like the times of requests or of iterations is counted among them.  Every other name has a trend
that counts what was observed under it, and nothing else.

## Main definitions

* `Sample.bare` — a sample without the observations whose names its workload chose.
* `finiteCustomValues` — those observations under one name, as far as they are finite.
* `SharesNames` — what becomes of the observations of workloads, by their names.

## Main results

* `sharesNames_aggregate` — **what becomes of the observations of workloads**.
* `requestDuration_counts_custom` — one of them may be counted as the time of a request.
-/

namespace StagedLoad

/-- A sample without the observations whose names its workload chose. -/
def Sample.bare (s : Sample) : Sample := { s with values := [] }

/-- The finite observations under a name that workloads chose. -/
def finiteCustomValues (samples : List Sample) (name : String) : List Float :=
  ((samples.flatMap Sample.values).filter fun v => v.1 = name ∧ Binary64.isFinite v.2).map Prod.snd

/-- What becomes of the observations of workloads in an aggregate. -/
structure SharesNames (samples : List Sample) (o : AggregateOptions) : Prop where
  /-- The rates and the counter are what they are without them, and are no trends. -/
  hidden : ∀ name, Hides samples o name → ∃ s,
    (aggregate samples o).get? name = some s ∧
    (aggregate (samples.map Sample.bare) o).get? name = some s ∧ s.kind ≠ .trend
  /-- The times of requests and of iterations count those that are called so, and are what they
  are without them only if there are none. -/
  builtin : ∀ name ∈ builtinTrends, ∃ t t',
    (aggregate samples o).get? name = some (.trend t) ∧
    (aggregate (samples.map Sample.bare) o).get? name = some (.trend t') ∧
    t.count = t'.count + (finiteCustomValues samples name).length ∧
    (t = t' ↔ finiteCustomValues samples name = [])
  /-- Every other name has a trend that counts them. -/
  custom : ∀ name, name ∉ builtinTrends → ¬ Hides samples o name →
    finiteCustomValues samples name ≠ [] → ∃ t,
      (aggregate samples o).get? name = some (.trend t) ∧
      t.count = (finiteCustomValues samples name).length

variable {samples : List Sample} {o : AggregateOptions} {name : String}

/-! ### Rates and the counter -/

theorem checkNames_bare : checkNames (samples.map Sample.bare) o = checkNames samples o := by
  unfold checkNames
  rw [List.flatMap_map]
  rfl

/-- What hides a trend looks at nothing that a workload observed. -/
theorem get?_aggregate_of_hides (h : Hides samples o name) : ∃ s,
    (aggregate samples o).get? name = some s ∧
    (aggregate (samples.map Sample.bare) o).get? name = some s ∧ s.kind ≠ .trend := by
  have hcounter : Metric.Kind.counter ≠ .trend := by decide
  have hrate : Metric.Kind.rate ≠ .trend := by decide
  cases h with
  | iterations hname =>
    refine ⟨iterationStatistics samples o.elapsed, hname ▸ aggregate_iterations samples o, ?_,
      hcounter⟩
    rw [hname, aggregate_iterations, iterationStatistics, List.length_map]
    rfl
  | checks hname =>
    refine ⟨allChecksStatistics samples, hname ▸ aggregate_checks samples o, ?_, hrate⟩
    rw [hname, aggregate_checks, allChecksStatistics, List.flatMap_map]
    rfl
  | requestFailed hname =>
    refine ⟨failedStatistics samples, hname ▸ aggregate_requestFailed samples o, ?_, hrate⟩
    rw [hname, aggregate_requestFailed, failedStatistics, List.flatMap_map]
    rfl
  | check hc hname =>
    refine ⟨checkStatistics samples _, hname ▸ aggregate_checkSeries samples o hc, ?_, hrate⟩
    rw [hname, aggregate_checkSeries _ o (checkNames_bare.symm ▸ hc), checkStatistics,
      List.flatMap_map]
    rfl

/-! ### Trends -/

/-- They are those that the samples add to the trend of the name. -/
theorem finiteCustomValues_eq (samples : List Sample) (name : String) :
    finiteCustomValues samples name =
      (samples.flatMap fun s => s.customValues name).filter Binary64.isFinite := by
  rw [finiteCustomValues, List.filter_flatMap, List.map_flatMap, List.filter_flatMap]
  congr 1
  funext s
  rw [Sample.customValues, List.filter_map, List.filter_filter]
  congr 1
  refine List.filter_congr fun v _ => ?_
  rw [Bool.decide_and, Bool.decide_eq_true, Bool.and_comm]
  rfl

theorem Sample.trendValues_eq_append (s : Sample) (name : String) :
    s.trendValues name = s.bare.trendValues name ++ s.customValues name := by
  unfold Sample.trendValues
  rw [show s.bare.customValues name = [] from rfl, List.append_nil]
  rfl

/-- A trend has the observations that it has without workloads, and theirs. -/
theorem length_filter_trendValues (samples : List Sample) (name : String) :
    ((samples.flatMap fun s => s.trendValues name).filter Scalar.isFinite).length =
      (((samples.map Sample.bare).flatMap fun s => s.trendValues name).filter
        Scalar.isFinite).length + (finiteCustomValues samples name).length := by
  induction samples with
  | nil => rfl
  | cons s rest ih =>
    rw [List.map_cons, List.flatMap_cons, List.flatMap_cons, finiteCustomValues_eq,
      List.flatMap_cons, List.filter_append, List.filter_append, List.filter_append,
      Sample.trendValues_eq_append, List.filter_append]
    simp only [List.length_append]
    rw [ih, finiteCustomValues_eq]
    change _ + (s.customValues name |>.filter Binary64.isFinite).length + _ = _
    omega

/-- Without theirs it has the same observations. -/
theorem filter_trendValues_of_nil (h : finiteCustomValues samples name = []) :
    (samples.flatMap fun s => s.trendValues name).filter Scalar.isFinite =
      ((samples.map Sample.bare).flatMap fun s => s.trendValues name).filter Scalar.isFinite := by
  induction samples with
  | nil => rfl
  | cons s rest ih =>
    rw [finiteCustomValues_eq, List.flatMap_cons, List.filter_append,
      List.append_eq_nil_iff, ← finiteCustomValues_eq] at h
    have hown : (s.customValues name).filter Scalar.isFinite = [] := h.1
    rw [List.map_cons, List.flatMap_cons, List.flatMap_cons, List.filter_append,
      List.filter_append, Sample.trendValues_eq_append, List.filter_append, hown, List.append_nil,
      ih h.2]

/-- The statistics of a trend are those of its finite observations. -/
theorem TrendSummary.ofValues_congr {α : Type} [Scalar α] (mode : PercentileMode)
    (ps : List Percentile) {values values' : List α}
    (h : values.filter Scalar.isFinite = values'.filter Scalar.isFinite) :
    ofValues mode ps values = ofValues mode ps values' := by
  unfold ofValues
  rw [h]

theorem not_hides_of_mem_builtinTrends (h : name ∈ builtinTrends) : ¬ Hides samples o name := by
  have hcheck : ∀ name ∈ builtinTrends, Metric.checkOfSeries? name = none := by decide
  rintro (rfl | rfl | rfl | ⟨-, hname⟩)
  · revert h
    decide
  · revert h
    decide
  · revert h
    decide
  · exact Metric.checkSeries_ne (hcheck name h) hname.symm

/-- The times of requests and of iterations, with and without what is called so. -/
theorem get?_aggregate_builtin (h : name ∈ builtinTrends) : ∃ t t',
    (aggregate samples o).get? name = some (.trend t) ∧
    (aggregate (samples.map Sample.bare) o).get? name = some (.trend t') ∧
    t.count = t'.count + (finiteCustomValues samples name).length ∧
    (t = t' ↔ finiteCustomValues samples name = []) := by
  have hmem : ∀ l : List Sample, name ∈ trendNames l o := by
    intro l
    rw [trendNames, List.append_assoc]
    exact List.mem_append_left _ h
  have hget : ∀ l : List Sample, (aggregate l o).get? name = some (trendStatistics l o name) := by
    intro l
    rw [get?_aggregate_of_not_hides l o (not_hides_of_mem_builtinTrends h), if_pos (hmem l)]
  have hcount := length_filter_trendValues samples name
  refine ⟨_, _, hget samples, hget _, ?_, fun heq => ?_, fun hnil => ?_⟩
  · rw [TrendSummary.count_ofValues, TrendSummary.count_ofValues, hcount]
  · -- trends that are the same count as many observations
    have hsame := congrArg TrendSummary.count heq
    rw [TrendSummary.count_ofValues, TrendSummary.count_ofValues, hcount] at hsame
    exact List.eq_nil_of_length_eq_zero (by omega)
  · exact TrendSummary.ofValues_congr _ _ (filter_trendValues_of_nil hnil)

/-- A name that no other series has. -/
theorem get?_aggregate_custom (hbuiltin : name ∉ builtinTrends) (hides : ¬ Hides samples o name)
    (hne : finiteCustomValues samples name ≠ []) : ∃ t,
      (aggregate samples o).get? name = some (.trend t) ∧
      t.count = (finiteCustomValues samples name).length := by
  simp only [builtinTrends, List.mem_cons, List.not_mem_nil, or_false, not_or] at hbuiltin
  rw [finiteCustomValues_eq] at hne ⊢
  have hvalues : (samples.flatMap fun s => s.trendValues name) =
      samples.flatMap fun s => s.customValues name := by
    congr 1
    funext s
    rw [Sample.trendValues, if_neg hbuiltin.1, if_neg hbuiltin.2]
    rfl
  have hmem : name ∈ trendNames samples o := by
    obtain ⟨x, hx⟩ := List.exists_mem_of_ne_nil _ hne
    obtain ⟨s, hs, hx⟩ := List.mem_flatMap.mp (List.mem_filter.mp hx).1
    obtain ⟨v, hv, -⟩ := List.mem_map.mp hx
    obtain ⟨hv, hname⟩ := List.mem_filter.mp hv
    refine List.mem_append_right _ (List.mem_flatMap.mpr ⟨s, hs, ?_⟩)
    exact List.mem_map.mpr ⟨v, hv, eq_of_beq hname⟩
  refine ⟨_, (get?_aggregate_of_not_hides samples o hides).trans (if_pos hmem), ?_⟩
  rw [TrendSummary.count_ofValues, hvalues]
  rfl

/-- **What becomes of the observations of workloads**, in every snapshot. -/
theorem sharesNames_aggregate (samples : List Sample) (o : AggregateOptions) :
    SharesNames samples o where
  hidden := fun _ => get?_aggregate_of_hides
  builtin := fun _ => get?_aggregate_builtin
  custom := fun _ => get?_aggregate_custom

/-- An observation that is called like the times of requests is counted as one, so that one
request has two times. -/
theorem requestDuration_counts_custom :
    let s : Sample :=
      { latency := .ofMillis 10, success := true, values := [(Metric.requestDuration, 500)] }
    ¬ (aggregate [s] {}).get? Metric.requestDuration =
      (aggregate [s.bare] {}).get? Metric.requestDuration := by
  intro s heq
  have hone : finiteCustomValues [s] Metric.requestDuration = [500] := by decide +kernel
  obtain ⟨t, t', ht, ht', hcount, -⟩ :=
    @get?_aggregate_builtin [s] {} Metric.requestDuration List.mem_cons_self
  rw [List.map_singleton] at ht'
  rw [ht, ht', Option.some.injEq, Statistics.trend.injEq] at heq
  rw [heq, hone] at hcount
  simp at hcount

end StagedLoad
