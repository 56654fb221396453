import Mathlib.Algebra.BigOperators.Group.List.Basic
import Mathlib.Data.List.Nodup
import StagedLoad.Proofs.Decimal.Magnitude
import StagedLoad.Proofs.Metric.Series
import StagedLoad.Proofs.Metric.Trend

/-!
# Every observation counts once

The series of an aggregate are computed one by one, and still their totals agree: there are as
many times of requests as requests that have failed or not, and every result of a check is in
the series of all checks and in the one of its own.

## Main definitions

* `Sample.failures` — how many requests of a sample failed.
* `checkOutcomes`, `outcomesOf` — the results of all checks, and of one.
* `CountedOnce` — what the totals of an aggregate are.

## Main results

* `sum_map_ofOutcomes` — the results of the checks one by one are those of all checks.
* `countedOnce_aggregate` — **every observation counts once**.
-/

namespace StagedLoad

/-- How many requests of a sample failed; a sample without requests stands for one. -/
def Sample.failures (s : Sample) : Nat :=
  if s.requests = [] then (if s.success then 0 else 1) else s.requests.countP (·.failed)

/-- The results of the checks of some samples. -/
def checkOutcomes (samples : List Sample) : List (String × Bool) := samples.flatMap Sample.checks

/-- Those of one check. -/
def outcomesOf (samples : List Sample) (check : String) : List (String × Bool) :=
  (checkOutcomes samples).filter fun c => c.1 == check

/-- The rate of some results. -/
def Rate.ofOutcomes (l : List (String × Bool)) : Rate where
  total := l.length
  passes := l.countP Prod.snd

/-- A check is declared or has been made. -/
def CheckOccurs (samples : List Sample) (o : AggregateOptions) (check : String) : Prop :=
  check ∈ o.checks ∨ ∃ passed, (check, passed) ∈ checkOutcomes samples

/-- The totals of an aggregate. -/
structure CountedOnce (samples : List Sample) (o : AggregateOptions) : Prop where
  /-- Every request has a time, and has failed or not. -/
  requests : ∃ failed times,
    (aggregate samples o).get? Metric.requestFailed = some (.rate failed) ∧
    (aggregate samples o).get? Metric.requestDuration = some (.trend times) ∧
    failed.total = (samples.map fun s => max 1 s.requests.length).sum ∧
    failed.passes = (samples.map Sample.failures).sum ∧
    times.count = failed.total
  /-- Every iteration is counted and has a time. -/
  iterations : ∃ times counter,
    (aggregate samples o).get? Metric.iterationDuration = some (.trend times) ∧
    (aggregate samples o).get? Metric.iterations = some (.counter counter) ∧
    times.count = samples.length ∧ counter.count = samples.length
  /-- Every result of a check is in the series of all checks. -/
  checks : (aggregate samples o).get? Metric.checks =
    some (.rate (Rate.ofOutcomes (checkOutcomes samples)))
  /-- It is in the series of its own check, and no other result is. -/
  check : ∀ n, CheckOccurs samples o n → (aggregate samples o).get? (Metric.checkSeries n) =
    some (.rate (Rate.ofOutcomes (outcomesOf samples n)))
  /-- These series together hold what the series of all checks holds. -/
  together : ∀ names : List String, names.Nodup → (∀ n, n ∈ names ↔ CheckOccurs samples o n) →
    (names.map fun n => (Rate.ofOutcomes (outcomesOf samples n)).total).sum =
      (Rate.ofOutcomes (checkOutcomes samples)).total ∧
    (names.map fun n => (Rate.ofOutcomes (outcomesOf samples n)).passes).sum =
      (Rate.ofOutcomes (checkOutcomes samples)).passes
  /-- In no rate more observations hold than there are. -/
  passes_le : ∀ name r, (aggregate samples o).get? name = some (.rate r) → r.passes ≤ r.total

/-! ### Rates -/

theorem count_true_map {α : Type} (f : α → Bool) (l : List α) :
    (l.map f).count true = l.countP f := by
  rw [List.count, List.countP_map]
  congr 1
  funext a
  cases h : f a <;> simp [h]

theorem Sample.count_failed (s : Sample) :
    (s.countedRequests.map RequestTiming.failed).count true = s.failures := by
  rw [count_true_map]
  unfold countedRequests failures
  cases hr : s.requests with
  | nil => cases hs : s.success <;> rfl
  | cons r rest => rfl

theorem failedStatistics_eq (samples : List Sample) :
    failedStatistics samples = .rate {
      total := (samples.map fun s => max 1 s.requests.length).sum
      passes := (samples.map Sample.failures).sum } := by
  have htotal : (samples.flatMap fun s => s.countedRequests.map RequestTiming.failed).length =
      (samples.map fun s => max 1 s.requests.length).sum := by
    rw [List.length_flatMap]
    simp only [List.length_map, Sample.length_countedRequests]
  have hpasses : (samples.flatMap fun s => s.countedRequests.map RequestTiming.failed).count
      true = (samples.map Sample.failures).sum := by
    rw [List.count_flatMap]
    congr 1
    apply List.map_congr_left
    intro s _
    exact s.count_failed
  rw [failedStatistics, Rate.ofList, htotal, hpasses]

theorem Rate.ofList_map_snd (l : List (String × Bool)) :
    Rate.ofList (l.map Prod.snd) = Rate.ofOutcomes l := by
  rw [ofList, ofOutcomes, count_true_map, List.length_map]

theorem allChecksStatistics_eq (samples : List Sample) :
    allChecksStatistics samples = .rate (Rate.ofOutcomes (checkOutcomes samples)) := by
  rw [allChecksStatistics, ← List.map_flatMap, Rate.ofList_map_snd]
  rfl

theorem checkStatistics_eq (samples : List Sample) (check : String) :
    checkStatistics samples check = .rate (Rate.ofOutcomes (outcomesOf samples check)) := by
  have hflat : (samples.flatMap fun s => s.checkResults check) =
      (outcomesOf samples check).map Prod.snd := by
    rw [outcomesOf, checkOutcomes, List.filter_flatMap, List.map_flatMap]
    rfl
  rw [checkStatistics, hflat, Rate.ofList_map_snd]

theorem Rate.passes_ofList_le (l : List Bool) :
    (Rate.ofList l).passes ≤ (Rate.ofList l).total :=
  List.count_le_length

/-- Every rate of an aggregate is the rate of some observations. -/
theorem exists_ofList_of_get? {samples : List Sample} {o : AggregateOptions} {name : String}
    {r : Rate} (h : (aggregate samples o).get? name = some (.rate r)) :
    ∃ l, r = Rate.ofList l := by
  unfold aggregate at h
  rw [Table.get?_ofList] at h
  have hmem := Table.mem_of_lookup h
  simp only [List.mem_reverse, List.mem_append, List.mem_map, List.mem_cons, Prod.mk.injEq,
    List.not_mem_nil, or_false] at hmem
  -- neither the trends nor the counter are rates
  rcases hmem with ((⟨n, -, -, htrend⟩ | ⟨-, hfailed⟩ | ⟨-, hchecks⟩) | ⟨c, -, -, hcheck⟩) |
    ⟨-, hiterations⟩
  · cases htrend
  · cases hfailed
    exact ⟨_, rfl⟩
  · cases hchecks
    exact ⟨_, rfl⟩
  · cases hcheck
    exact ⟨_, rfl⟩
  · cases hiterations

/-! ### Results by name -/

theorem sum_map_ite_eq {names : List String} (hnodup : names.Nodup) {x : String}
    (hx : x ∈ names) : (names.map fun n => if x == n then 1 else 0).sum = 1 := by
  have hcount : (names.map fun n => if x == n then 1 else 0).sum = names.count x := by
    clear hnodup hx
    induction names with
    | nil => rfl
    | cons n rest ih =>
      rw [List.map_cons, List.sum_cons, ih, List.count_cons, Nat.add_comm]
      by_cases h : x = n
      · simp [h]
      · simp [h, Ne.symm h]
  rw [hcount]
  exact List.count_eq_one_of_mem hnodup hx

/-- What is counted name by name is counted once, if no name is missing and none is there
twice. -/
theorem sum_countP_names {β : Type} {names : List String} (hnodup : names.Nodup) (p : β → Bool)
    {l : List (String × β)} (hl : ∀ c ∈ l, c.1 ∈ names) :
    (names.map fun n => l.countP fun c => c.1 == n && p c.2).sum = l.countP fun c => p c.2 := by
  induction l with
  | nil => simp
  | cons c l ih =>
    rw [List.forall_mem_cons] at hl
    simp only [List.countP_cons, List.sum_map_add]
    rw [ih hl.2]
    congr 1
    cases hp : p c.2 with
    | false => simp
    | true =>
      simp only [Bool.and_true, if_true]
      exact sum_map_ite_eq hnodup hl.1

/-- The results of the checks one by one are the results of all checks. -/
theorem sum_map_ofOutcomes {samples : List Sample} {names : List String} (hnodup : names.Nodup)
    (hnames : ∀ c ∈ checkOutcomes samples, c.1 ∈ names) :
    (names.map fun n => (Rate.ofOutcomes (outcomesOf samples n)).total).sum =
      (Rate.ofOutcomes (checkOutcomes samples)).total ∧
    (names.map fun n => (Rate.ofOutcomes (outcomesOf samples n)).passes).sum =
      (Rate.ofOutcomes (checkOutcomes samples)).passes := by
  have htotal := sum_countP_names hnodup (fun _ => true) hnames
  have hpasses := sum_countP_names hnodup id hnames
  simp only [Bool.and_true, List.countP_true] at htotal
  simp only [id_eq] at hpasses
  simp only [Rate.ofOutcomes, outcomesOf, List.countP_filter, ← List.countP_eq_length_filter]
  simp only [Bool.and_comm] at hpasses ⊢
  exact ⟨htotal, hpasses⟩

/-! ### Trends -/

theorem Sample.customValues_eq_nil {s : Sample} {name : String}
    (h : ∀ v ∈ s.values, v.1 ≠ name) : s.customValues name = [] := by
  unfold customValues
  rw [List.map_eq_nil_iff, List.filter_eq_nil_iff]
  intro v hv
  simpa using h v hv

/-- A trend of times counts all of them. -/
theorem count_ofValues_toMillis (mode : PercentileMode) (ps : List Percentile)
    (ds : List Duration) :
    (TrendSummary.ofValues mode ps (ds.map Duration.toMillis)).count = ds.length := by
  have hall : (ds.map Duration.toMillis).filter Scalar.isFinite = ds.map Duration.toMillis := by
    rw [List.filter_eq_self]
    intro x hx
    obtain ⟨d, -, rfl⟩ := List.mem_map.mp hx
    exact d.isFinite_toMillis
  rw [TrendSummary.count_ofValues, hall, List.length_map]

variable {samples : List Sample} {o : AggregateOptions}

/-- The requests of a snapshot each have a time. -/
theorem get?_requestDuration
    (h : ∀ s ∈ samples, ∀ v ∈ s.values, v.1 ≠ Metric.requestDuration) :
    ∃ times, (aggregate samples o).get? Metric.requestDuration = some (.trend times) ∧
      times.count = (samples.map fun s => max 1 s.requests.length).sum := by
  have hvalues : (samples.flatMap fun s => s.trendValues Metric.requestDuration) =
      (samples.flatMap fun s => s.countedRequests.map (·.latency)).map Duration.toMillis := by
    rw [List.map_flatMap]
    apply List.flatMap_congr
    intro s hs
    have hne : ¬ Metric.requestDuration = Metric.iterationDuration := by decide
    rw [Sample.trendValues, Sample.customValues_eq_nil (h s hs), if_pos rfl, if_neg hne,
      List.map_map]
    simp
  have hname : Metric.requestDuration ∈ trendNames samples o := by
    simp [trendNames, builtinTrends]
  refine ⟨_, aggregate_trend samples o (by decide) (by decide) (by decide) (by decide) hname, ?_⟩
  rw [hvalues, count_ofValues_toMillis, List.length_flatMap]
  simp only [List.length_map, Sample.length_countedRequests]

/-- The iterations of a snapshot each have a time. -/
theorem get?_iterationDuration
    (h : ∀ s ∈ samples, ∀ v ∈ s.values, v.1 ≠ Metric.iterationDuration) :
    ∃ times, (aggregate samples o).get? Metric.iterationDuration = some (.trend times) ∧
      times.count = samples.length := by
  have hvalues : (samples.flatMap fun s => s.trendValues Metric.iterationDuration) =
      (samples.map Sample.iterationDuration).map Duration.toMillis := by
    rw [List.map_map, List.map_eq_flatMap]
    apply List.flatMap_congr
    intro s hs
    have hne : ¬ Metric.iterationDuration = Metric.requestDuration := by decide
    rw [Sample.trendValues, Sample.customValues_eq_nil (h s hs), if_pos rfl, if_neg hne]
    rfl
  have hname : Metric.iterationDuration ∈ trendNames samples o := by
    simp [trendNames, builtinTrends]
  refine ⟨_, aggregate_trend samples o (by decide) (by decide) (by decide) (by decide) hname, ?_⟩
  rw [hvalues, count_ofValues_toMillis, List.length_map]

theorem mem_checkNames {check : String} :
    check ∈ checkNames samples o ↔ CheckOccurs samples o check := by
  unfold checkNames CheckOccurs checkOutcomes
  rw [← List.map_flatMap, List.mem_append, List.mem_map]
  simp

/-- **Every observation counts once**, unless the workload calls observations of its own like
the times of requests or of iterations. -/
theorem countedOnce_aggregate (samples : List Sample) (o : AggregateOptions)
    (hcustom : ∀ s ∈ samples, ∀ v ∈ s.values,
      v.1 ≠ Metric.requestDuration ∧ v.1 ≠ Metric.iterationDuration) : CountedOnce samples o where
  requests := by
    obtain ⟨times, hget, hcount⟩ :=
      get?_requestDuration (o := o) fun s hs v hv => (hcustom s hs v hv).1
    have hfailed := aggregate_requestFailed samples o
    rw [failedStatistics_eq] at hfailed
    exact ⟨_, times, hfailed, hget, rfl, rfl, hcount⟩
  iterations := by
    obtain ⟨times, hget, hcount⟩ :=
      get?_iterationDuration (o := o) fun s hs v hv => (hcustom s hs v hv).2
    exact ⟨times, _, hget, aggregate_iterations samples o, hcount, rfl⟩
  checks := by
    rw [aggregate_checks, allChecksStatistics_eq]
  check := by
    intro n hn
    rw [aggregate_checkSeries samples o (mem_checkNames.mpr hn), checkStatistics_eq]
  together := by
    intro names hnodup hnames
    apply sum_map_ofOutcomes hnodup
    rintro ⟨n, passed⟩ hc
    exact (hnames n).mpr (.inr ⟨passed, hc⟩)
  passes_le := by
    intro name r hr
    obtain ⟨l, rfl⟩ := exists_ofList_of_get? hr
    exact Rate.passes_ofList_le l

/-- An iteration that failed without a request, and one with two requests; the names of checks
may hold what closes the name of a series. -/
def checkedSamples : List Sample :=
  [{ success := false
     checks := [("up", true), ("a\x7d", false)] },
    { success := true
      checks := [("up", false)]
      values := [("queue", 0 / 0)]
      requests := [⟨Duration.ofMillis 3, true⟩, ⟨Duration.ofMillis 4, false⟩] }]

/-- Three requests, of which two failed, and three results of two checks; a check that has not
been made has no results. -/
theorem checkedSamples_counted :
    ∃ t, (∀ s ∈ checkedSamples, ∀ v ∈ s.values,
        v.1 ≠ Metric.requestDuration ∧ v.1 ≠ Metric.iterationDuration) ∧
      t = aggregate checkedSamples { checks := ["silent"] } ∧
      t.get? Metric.requestFailed = some (.rate ⟨3, 2⟩) ∧
      (∃ times, t.get? Metric.requestDuration = some (.trend times) ∧ times.count = 3) ∧
      t.get? Metric.checks = some (.rate ⟨3, 1⟩) ∧
      t.get? (Metric.checkSeries "up") = some (.rate ⟨2, 1⟩) ∧
      t.get? (Metric.checkSeries "a\x7d") = some (.rate ⟨1, 0⟩) ∧
      t.get? (Metric.checkSeries "silent") = some (.rate ⟨0, 0⟩) := by
  have hcustom : ∀ s ∈ checkedSamples, ∀ v ∈ s.values,
      v.1 ≠ Metric.requestDuration ∧ v.1 ≠ Metric.iterationDuration := by
    decide
  have h := countedOnce_aggregate checkedSamples { checks := ["silent"] } hcustom
  obtain ⟨⟨total, passes⟩, times, hfailed, htimes, htotal, hpasses, hcount⟩ := h.requests
  obtain rfl : total = 3 := htotal
  obtain rfl : passes = 2 := hpasses
  refine ⟨_, hcustom, rfl, hfailed, ⟨times, htimes, hcount⟩, h.checks, ?_, ?_, ?_⟩
  · exact h.check "up" (.inr ⟨true, by decide⟩)
  · exact h.check "a\x7d" (.inr ⟨false, by decide⟩)
  · exact h.check "silent" (.inl (by decide))

end StagedLoad
