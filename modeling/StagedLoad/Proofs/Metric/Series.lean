import StagedLoad.Metric.Aggregate

/-!
# The series of an aggregate

Which statistics `aggregate` lists under a name.  All series share one space of names, in
which a workload may use any name it likes; what it finds there depends on which of
several series with one name is written last.

## Main definitions

* `Hides` — the names under which there is no trend, whatever is called so.

## Main results

* `Metric.checkOfSeries?_eq_some_iff` — the series of a check can be told from its name.
* `aggregate_iterations`, `aggregate_checkSeries`, `aggregate_checks`,
  `aggregate_requestFailed`, `get?_aggregate_of_not_hides` — what stands under each kind of name.
-/

namespace StagedLoad

namespace Metric

/-! ### Names of checks -/

theorem between?_eq_some_iff {opening closing s inner : List Char} :
    between? opening closing s = some inner ↔ s = opening ++ inner ++ closing := by
  unfold between?
  constructor
  · intro h
    split at h
    · rename_i hpre
      obtain ⟨rest, rfl⟩ := List.isPrefixOf_iff_prefix.mp hpre
      simp only [List.drop_left] at h
      split at h
      · rename_i hsuf
        obtain ⟨mid, rfl⟩ := List.isSuffixOf_iff_suffix.mp hsuf
        simp only [Option.some.injEq] at h
        rw [← h]
        simp
      · cases h
    · cases h
  · rintro rfl
    rw [List.append_assoc, if_pos (by simp)]
    simp

/-- A name is that of a check's series exactly when the check can be read off it. -/
theorem checkOfSeries?_eq_some_iff {series check : String} :
    checkOfSeries? series = some check ↔ series = checkSeries check := by
  unfold checkOfSeries? checkSeries
  rw [Option.map_eq_some_iff]
  simp only [between?_eq_some_iff]
  constructor
  · rintro ⟨inner, h, rfl⟩
    apply String.toList_injective
    simp [h]
  · rintro rfl
    exact ⟨check.toList, by simp, by simp⟩

@[simp] theorem checkOfSeries?_checkSeries (check : String) :
    checkOfSeries? (checkSeries check) = some check := checkOfSeries?_eq_some_iff.mpr rfl

theorem checkSeries_injective {c d : String} (h : checkSeries c = checkSeries d) : c = d := by
  have hc : checkOfSeries? (checkSeries c) = some c := checkOfSeries?_checkSeries c
  rw [h, checkOfSeries?_checkSeries] at hc
  exact (Option.some.inj hc).symm

theorem checkSeries_ne {check name : String} (h : checkOfSeries? name = none) :
    checkSeries check ≠ name := by
  rintro rfl
  rw [checkOfSeries?_checkSeries] at h
  cases h

theorem checkOfSeries?_iterations : checkOfSeries? iterations = none := by decide

theorem checkOfSeries?_checks : checkOfSeries? checks = none := by decide

theorem checkOfSeries?_requestFailed : checkOfSeries? requestFailed = none := by decide

/-! ### Names of the trends of requests -/

/-- The trend of a request has a name that no series has which does not begin like it. -/
theorem requestTrend_ne {request name : String}
    (h : ¬ (requestDuration ++ "\x7b").toList <+: name.toList) : requestTrend request ≠ name := by
  rintro rfl
  refine h ⟨"name:".toList ++ request.toList ++ "\x7d".toList, ?_⟩
  simp [requestTrend]

theorem checkOfSeries?_requestTrend (request : String) :
    checkOfSeries? (requestTrend request) = none := by
  rw [Option.eq_none_iff_forall_ne_some]
  intro check hcheck
  refine requestTrend_ne ?_ (checkOfSeries?_eq_some_iff.1 hcheck)
  simp [checkSeries, checkOpening, requestDuration]

end Metric

/-! ### Looking a series up -/

/-- A rate or the counter has the name, so that a trend that is called so is not shown. -/
inductive Hides (samples : List Sample) (o : AggregateOptions) (name : String) : Prop
  /-- The number of iterations. -/
  | iterations (h : name = Metric.iterations)
  /-- The checks that passed. -/
  | checks (h : name = Metric.checks)
  /-- The requests that failed. -/
  | requestFailed (h : name = Metric.requestFailed)
  /-- A check that is declared or has been made. -/
  | check {c : String} (hc : c ∈ checkNames samples o) (h : name = Metric.checkSeries c)

/-- What hides a trend depends on the checks alone. -/
theorem Hides.mono {samples samples' : List Sample} {o o' : AggregateOptions} {name : String}
    (h : Hides samples o name)
    (hchecks : ∀ c, c ∈ checkNames samples o → c ∈ checkNames samples' o') :
    Hides samples' o' name := by
  cases h with
  | iterations hname => exact .iterations hname
  | checks hname => exact .checks hname
  | requestFailed hname => exact .requestFailed hname
  | @check c hc hname => exact .check (hchecks c hc) hname

theorem mem_distinct {names : List String} {n : String} : n ∈ distinct names ↔ n ∈ names := by
  unfold distinct
  rw [Table.mem_keys_ofList, List.map_map]
  simp

section

variable (samples : List Sample) (o : AggregateOptions)

/-- The series in the order in which they are looked for: those that are written last come
first. -/
theorem get?_aggregate (name : String) :
    (aggregate samples o).get? name =
      (Table.lookup name [(Metric.iterations, iterationStatistics samples o.elapsed)]).or
        ((Table.lookup name ((distinct (checkNames samples o)).reverse.map fun c =>
            (Metric.checkSeries c, checkStatistics samples c))).or
          ((Table.lookup name [(Metric.checks, allChecksStatistics samples),
              (Metric.requestFailed, failedStatistics samples)]).or
            (Table.lookup name ((distinct (trendNames samples o)).reverse.map fun n =>
              (n, trendStatistics samples o n))))) := by
  unfold aggregate
  simp only [Table.get?_ofList, List.reverse_append, Table.lookup_append, List.map_reverse]
  rfl

/-- Whatever else is called so, the counter of iterations stands under its name. -/
theorem aggregate_iterations :
    (aggregate samples o).get? Metric.iterations =
      some (iterationStatistics samples o.elapsed) := by
  rw [get?_aggregate, Table.lookup_cons, if_pos rfl, Option.some_or]

/-- No name but that of a check's series leads to one. -/
theorem lookup_checks_eq_none {name : String} (h : Metric.checkOfSeries? name = none) :
    Table.lookup name ((distinct (checkNames samples o)).reverse.map fun c =>
      (Metric.checkSeries c, checkStatistics samples c)) = none := by
  rw [Table.lookup_eq_none_iff, List.map_map, List.mem_map]
  rintro ⟨c, -, hc⟩
  exact Metric.checkSeries_ne h hc

/-- A check that is declared or made has its own series, also where a trend is called like
it. -/
theorem aggregate_checkSeries {check : String} (h : check ∈ checkNames samples o) :
    (aggregate samples o).get? (Metric.checkSeries check) =
      some (checkStatistics samples check) := by
  have hne : Metric.iterations ≠ Metric.checkSeries check :=
    (Metric.checkSeries_ne Metric.checkOfSeries?_iterations).symm
  have hmem : Metric.checkSeries check ∈
      (distinct (checkNames samples o)).reverse.map Metric.checkSeries :=
    List.mem_map_of_mem (List.mem_reverse.mpr (mem_distinct.mpr h))
  rw [get?_aggregate, Table.lookup_cons, if_neg hne, Table.lookup_nil, Option.none_or,
    Table.lookup_map Metric.checkSeries (checkStatistics samples)
      fun c _ hc => by rw [Metric.checkSeries_injective hc],
    if_pos hmem, Option.some_or]

/-- The rate of all checks stands under its name. -/
theorem aggregate_checks :
    (aggregate samples o).get? Metric.checks = some (allChecksStatistics samples) := by
  have hi : Metric.iterations ≠ Metric.checks := by decide
  rw [get?_aggregate, Table.lookup_cons, if_neg hi, Table.lookup_nil, Option.none_or,
    lookup_checks_eq_none samples o Metric.checkOfSeries?_checks, Option.none_or,
    Table.lookup_cons, if_pos rfl, Option.some_or]

/-- The rate of failed requests stands under its name. -/
theorem aggregate_requestFailed :
    (aggregate samples o).get? Metric.requestFailed = some (failedStatistics samples) := by
  have hi : Metric.iterations ≠ Metric.requestFailed := by decide
  have hc : Metric.checks ≠ Metric.requestFailed := by decide
  rw [get?_aggregate, Table.lookup_cons, if_neg hi, Table.lookup_nil, Option.none_or,
    lookup_checks_eq_none samples o Metric.checkOfSeries?_requestFailed, Option.none_or,
    Table.lookup_cons, if_neg hc, Table.lookup_cons, if_pos rfl, Option.some_or]

/-- Under any other name there is the trend that is called so, if there is one. -/
theorem get?_aggregate_of_not_hides {name : String} (h : ¬ Hides samples o name) :
    (aggregate samples o).get? name =
      if name ∈ trendNames samples o then some (trendStatistics samples o name) else none := by
  have hi : Metric.iterations ≠ name := fun hi => h (.iterations hi.symm)
  have hc : Metric.checks ≠ name := fun hc => h (.checks hc.symm)
  have hf : Metric.requestFailed ≠ name := fun hf => h (.requestFailed hf.symm)
  have hs : Table.lookup name ((distinct (checkNames samples o)).reverse.map fun c =>
      (Metric.checkSeries c, checkStatistics samples c)) = none := by
    rw [Table.lookup_eq_none_iff, List.map_map, List.mem_map]
    rintro ⟨c, hmem, rfl⟩
    exact h (.check (mem_distinct.mp (List.mem_reverse.mp hmem)) rfl)
  have hmem : id name ∈ (distinct (trendNames samples o)).reverse.map id ↔
      name ∈ trendNames samples o := by
    rw [List.map_id, List.mem_reverse, mem_distinct, id]
  have hsame : ∀ n ∈ (distinct (trendNames samples o)).reverse, id n = id name →
      trendStatistics samples o n = trendStatistics samples o name := by
    intro n _ hn
    rw [show n = name from hn]
  rw [get?_aggregate, Table.lookup_cons, if_neg hi, Table.lookup_nil, Option.none_or, hs,
    Option.none_or, Table.lookup_cons, if_neg hc, Table.lookup_cons, if_neg hf, Table.lookup_nil,
    Option.none_or]
  have hlookup := Table.lookup_map id (trendStatistics samples o) hsame
  by_cases hname : name ∈ trendNames samples o
  · rw [if_pos hname]
    exact hlookup.trans (if_pos (hmem.mpr hname))
  · rw [if_neg hname]
    exact hlookup.trans (if_neg (mt hmem.mp hname))

/-- There is a trend under its name, unless the name is that of another series. -/
theorem aggregate_trend {name : String} (hi : name ≠ Metric.iterations)
    (hc : name ≠ Metric.checks) (hf : name ≠ Metric.requestFailed)
    (hs : Metric.checkOfSeries? name = none) (h : name ∈ trendNames samples o) :
    (aggregate samples o).get? name = some (trendStatistics samples o name) := by
  have hhides : ¬ Hides samples o name := by
    rintro (hname | hname | hname | ⟨-, hname⟩)
    · exact hi hname
    · exact hc hname
    · exact hf hname
    · exact Metric.checkSeries_ne hs hname.symm
  rw [get?_aggregate_of_not_hides samples o hhides, if_pos h]

end

end StagedLoad
