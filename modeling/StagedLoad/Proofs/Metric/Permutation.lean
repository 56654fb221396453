import StagedLoad.Metric.Recorder
import StagedLoad.Proofs.Decimal.Order
import StagedLoad.Proofs.Metric.Histogram
import StagedLoad.Proofs.Metric.Series
import StagedLoad.Proofs.Metric.Trend

/-!
# The order of the samples

Writers share a run in no order that anything decides, so the same samples may be listed in any
order.  A rate and the counter only count, and the percentiles of a trend are read off what does
not remember an order: the sorted observations or a histogram.  The mean is another matter,
since a sum of doubles depends on the order, and with it the sign of a zero among the extremes.

## Main definitions

* `Statistics.SameRanks` — statistics that agree but for the mean and the extremes of a trend.
* `SameSeries` — tables with the same series, whose statistics agree so.

## Main results

* `TrendSummary.sameRanks_ofValues` — the observations of a trend in another order.
* `sameSeries_aggregate` — **the samples of a snapshot in another order**.
-/

namespace StagedLoad

/-- Trends that agree but for their means and extremes. -/
structure TrendSummary.SameRanks (t t' : TrendSummary Float) : Prop where
  /-- They have as many observations. -/
  count : t.count = t'.count
  /-- They have the same median. -/
  med : t.med = t'.med
  /-- They have the same percentiles. -/
  percentiles : t.percentiles = t'.percentiles

/-- Statistics that agree but for the means and extremes of trends. -/
inductive Statistics.SameRanks : Statistics → Statistics → Prop
  /-- Trends agree in their counts and percentiles. -/
  | trend {t t' : TrendSummary Float} (h : t.SameRanks t') : SameRanks (.trend t) (.trend t')
  /-- Rates are the same. -/
  | rate (r : Rate) : SameRanks (.rate r) (.rate r)
  /-- Counters are the same. -/
  | counter (c : Counter) : SameRanks (.counter c) (.counter c)

/-- Tables with the same series, which agree one by one. -/
structure SameSeries (t t' : Table String Statistics) : Prop where
  /-- The series have the same names. -/
  names : t.keys = t'.keys
  /-- The statistics under each name agree. -/
  series : ∀ name, Option.Rel Statistics.SameRanks (t.get? name) (t'.get? name)

/-! ### Trends -/

namespace TrendSummary

/-- The percentiles of the same observations in another order. -/
theorem quantiles_perm (mode : PercentileMode) {xs xs' : List Float} (h : xs.Perm xs') :
    quantiles mode xs = quantiles mode xs' := by
  cases mode with
  | exact =>
    have hsorted : xs.mergeSort Scalar.le = xs'.mergeSort Scalar.le :=
      Binary64.mergeSort_eq_of_perm h
    unfold quantiles
    dsimp only
    rw [hsorted]
  | approximate =>
    unfold quantiles
    dsimp only
    rw [Histogram.foldl_record, Histogram.foldl_record, Histogram.ofValues_perm (h.map micros)]

/-- The observations of a trend in another order. -/
theorem sameRanks_ofValues (mode : PercentileMode) (ps : List Percentile)
    {values values' : List Float} (h : values.Perm values') :
    (ofValues mode ps values).SameRanks (ofValues mode ps values') := by
  have hfinite := h.filter Scalar.isFinite
  have hcount : (ofValues mode ps values).count = (ofValues mode ps values').count := by
    rw [count_ofValues, count_ofValues, hfinite.length_eq]
  by_cases hnil : values.filter Scalar.isFinite = []
  · have hnil' : values'.filter Scalar.isFinite = [] := by
      rw [hnil] at hfinite
      exact hfinite.nil_eq.symm
    rw [ofValues_of_nil hnil, ofValues_of_nil hnil']
    exact ⟨rfl, rfl, rfl⟩
  · have hnil' : values'.filter Scalar.isFinite ≠ [] := by
      intro hnil'
      rw [hnil'] at hfinite
      exact hnil hfinite.eq_nil
    obtain ⟨r, -, heq⟩ := ofValues_of_ne_nil mode ps hnil
    obtain ⟨r', -, heq'⟩ := ofValues_of_ne_nil mode ps hnil'
    refine ⟨hcount, ?_, ?_⟩
    · rw [heq, heq', quantiles_perm mode hfinite]
    · rw [heq, heq', quantiles_perm mode hfinite]

end TrendSummary

/-! ### Rates -/

theorem Rate.ofList_perm {l l' : List Bool} (h : l.Perm l') : ofList l = ofList l' := by
  rw [ofList, ofList, h.length_eq, h.count_eq]

/-! ### Snapshots -/

section

variable {samples samples' : List Sample} (o : AggregateOptions)

theorem mem_checkNames_perm (h : samples.Perm samples') {c : String} :
    c ∈ checkNames samples o ↔ c ∈ checkNames samples' o :=
  ((h.flatMap_right _).append_left _).mem_iff

theorem mem_trendNames_perm (h : samples.Perm samples') {name : String} :
    name ∈ trendNames samples o ↔ name ∈ trendNames samples' o :=
  ((h.flatMap_right _).append_left _).mem_iff

/-- What stands under a name in two orders of the samples. -/
theorem rel_get?_aggregate (h : samples.Perm samples') (name : String) :
    Option.Rel Statistics.SameRanks ((aggregate samples o).get? name)
      ((aggregate samples' o).get? name) := by
  by_cases hides : Hides samples o name
  · cases hides with
    | iterations hname =>
      rw [hname, aggregate_iterations, aggregate_iterations, iterationStatistics, h.length_eq]
      exact .some (.counter _)
    | checks hname =>
      rw [hname, aggregate_checks, aggregate_checks, allChecksStatistics, allChecksStatistics,
        Rate.ofList_perm (h.flatMap_right _)]
      exact .some (.rate _)
    | requestFailed hname =>
      rw [hname, aggregate_requestFailed, aggregate_requestFailed, failedStatistics,
        failedStatistics, Rate.ofList_perm (h.flatMap_right _)]
      exact .some (.rate _)
    | check hc hname =>
      rw [hname, aggregate_checkSeries samples o hc,
        aggregate_checkSeries samples' o ((mem_checkNames_perm o h).mp hc), checkStatistics,
        checkStatistics, Rate.ofList_perm (h.flatMap_right _)]
      exact .some (.rate _)
  · have hides' : ¬ Hides samples' o name := fun hides' =>
      hides (hides'.mono fun _ => (mem_checkNames_perm o h).mpr)
    rw [get?_aggregate_of_not_hides samples o hides, get?_aggregate_of_not_hides samples' o hides']
    by_cases hname : name ∈ trendNames samples o
    · rw [if_pos hname, if_pos ((mem_trendNames_perm o h).mp hname)]
      exact .some (.trend (TrendSummary.sameRanks_ofValues _ _ (h.flatMap_right _)))
    · rw [if_neg hname, if_neg (mt (mem_trendNames_perm o h).mpr hname)]
      exact .none

/-- **The samples of a snapshot in another order** have the same series, and the same rates,
counters, counts and percentiles in them. -/
theorem sameSeries_aggregate (h : samples.Perm samples') :
    SameSeries (aggregate samples o) (aggregate samples' o) := by
  refine ⟨Table.keys_eq_of_mem_iff fun name => ?_, rel_get?_aggregate o h⟩
  rw [Table.mem_keys_iff, Table.mem_keys_iff]
  have hrel := rel_get?_aggregate o h name
  revert hrel
  generalize (aggregate samples o).get? name = found
  generalize (aggregate samples' o).get? name = found'
  rintro (⟨-⟩ | -)
  · exact iff_of_true ⟨_, rfl⟩ ⟨_, rfl⟩
  · exact Iff.rfl

end

/-- Two writers whose samples are recorded in either order, each into a shard of its own. -/
theorem sameSeries_aggregate_shards :
    let slow : Sample := { latency := ⟨10000000, by decide⟩, values := [("depth", -0.0)] }
    let quick : Sample := { latency := ⟨5000000, by decide⟩, values := [("depth", 0.0)] }
    let opened := Recorder.empty.openShard.openShard
    ((opened.record 0 slow).record 1 quick).snapshot.Perm
        ((opened.record 0 quick).record 1 slow).snapshot ∧
      SameSeries (aggregate ((opened.record 0 slow).record 1 quick).snapshot {})
        (aggregate ((opened.record 0 quick).record 1 slow).snapshot {}) :=
  have hswap : ∀ slow quick : Sample,
      ((Recorder.empty.openShard.openShard.record 0 slow).record 1 quick).snapshot.Perm
        ((Recorder.empty.openShard.openShard.record 0 quick).record 1 slow).snapshot :=
    fun slow quick => List.Perm.swap quick slow []
  ⟨hswap _ _, sameSeries_aggregate {} (hswap _ _)⟩

end StagedLoad
