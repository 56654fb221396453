import StagedLoad.Metric.Trend

/-!
# What a trend reports

A trend without finite observations reports a count of zero and nothing else.  With at
least one it reports a mean, extremes, a median and every percentile that was asked for,
as long as no rank lies beyond the last observation.

## Main definitions

* `Percentile.WithinRanks` — the rank of a percentile is that of an observation.

## Main results

* `TrendSummary.ofValues_of_nil`, `TrendSummary.ofValues_of_ne_nil` — what is reported when.
* `TrendSummary.quantiles_isSome` — every percentile within the ranks exists.
* `TrendSummary.get?_tabulate` — those that were asked for are reported.
-/

namespace StagedLoad

theorem Binary64.floorNat_le_ceilNat (x : Float) : floorNat x ≤ ceilNat x := by
  unfold floorNat ceilNat
  split
  · rename_i m q _
    have hden : 0 < (scaled m q).2 := scaled_snd_pos m q
    apply Nat.div_le_div_right
    omega
  · exact Nat.le_refl 0

/-- The product of the number of the last observation with the share of a percentile, in
doubles, does not exceed that number. -/
def Percentile.WithinRanks (p : Percentile) (n : Nat) : Prop :=
  Binary64.ceilNat
    (Binary64.ofNat p.hundredths / Binary64.ofNat 10000 * Binary64.ofNat (n - 1)) ≤ n - 1

instance (p : Percentile) (n : Nat) : Decidable (p.WithinRanks n) :=
  inferInstanceAs (Decidable (_ ≤ _))

theorem percentileOfSorted_isSome {sorted : Array Float} {p : Percentile}
    (hpos : 0 < sorted.size) (h : p.WithinRanks sorted.size) :
    (percentileOfSorted sorted p).isSome := by
  unfold Percentile.WithinRanks at h
  unfold percentileOfSorted
  have hne : ¬ sorted.isEmpty = true := by
    rw [Array.isEmpty_iff_size_eq_zero]
    omega
  rw [if_neg hne]
  simp only [Scalar.ofNat, Scalar.floor, Scalar.ceil]
  generalize Binary64.ofNat p.hundredths / Binary64.ofNat 10000 *
    Binary64.ofNat (sorted.size - 1) = rank at h ⊢
  have hhigh : Binary64.ceilNat rank < sorted.size := by omega
  have hlow : Binary64.floorNat rank < sorted.size :=
    Nat.lt_of_le_of_lt (Binary64.floorNat_le_ceilNat rank) hhigh
  rw [Array.getElem?_eq_getElem hlow, Array.getElem?_eq_getElem hhigh]
  rfl

namespace Running

variable {α : Type} [Scalar α]

theorem count_foldl_push (r : Running α) (xs : List α) :
    (xs.foldl push r).count = r.count + xs.length := by
  induction xs generalizing r with
  | nil => rfl
  | cons x xs ih =>
    rw [List.foldl_cons, ih, List.length_cons]
    simp only [push]
    omega

theorem ofList_eq_none_iff {xs : List α} : ofList xs = none ↔ xs = [] := by
  cases xs with
  | nil => exact iff_of_true rfl rfl
  | cons x xs => simp [ofList]

theorem count_of_ofList {xs : List α} {r : Running α} (h : ofList xs = some r) :
    r.count = xs.length := by
  cases xs with
  | nil => cases h
  | cons x xs =>
    rw [ofList, Option.some.injEq] at h
    rw [← h, count_foldl_push, List.length_cons]
    simp only [first]
    omega

end Running

namespace TrendSummary

variable {α : Type} [Scalar α]

/-! ### The table of percentiles -/

omit [Scalar α] in
theorem lookup_filterMap (f : Percentile → Option α) (ps : List Percentile) (p : Percentile) :
    Table.lookup p (ps.filterMap fun q => (f q).map fun x => (q, x)) =
      if p ∈ ps then f p else none := by
  induction ps with
  | nil => rfl
  | cons q ps ih =>
    by_cases hq : p = q
    · subst hq
      rw [if_pos List.mem_cons_self]
      cases hf : f p with
      | none =>
        -- what does not exist has no entry here, nor further on
        rw [List.filterMap_cons_none (by rw [hf]; rfl), ih]
        split <;> simp [hf]
      | some x =>
        rw [List.filterMap_cons_some (by rw [hf]; rfl), Table.lookup_cons, if_pos rfl]
    · have hmem : p ∈ q :: ps ↔ p ∈ ps := by simp [hq]
      simp only [hmem]
      cases hf : f q with
      | none => rw [List.filterMap_cons_none (by rw [hf]; rfl), ih]
      | some x =>
        rw [List.filterMap_cons_some (by rw [hf]; rfl), Table.lookup_cons, if_neg (Ne.symm hq), ih]

omit [Scalar α] in
/-- The table holds the percentiles that were asked for and exist. -/
theorem get?_tabulate (f : Percentile → Option α) (ps : List Percentile) (p : Percentile) :
    (tabulate f ps).get? p = if p ∈ ps then f p else none := by
  unfold tabulate
  rw [Table.get?_ofList, ← List.filterMap_reverse, lookup_filterMap]
  simp

/-! ### With and without observations -/

theorem ofValues_of_nil {mode : PercentileMode} {ps : List Percentile} {values : List α}
    (h : values.filter Scalar.isFinite = []) : ofValues mode ps values = empty := by
  unfold ofValues
  rw [h]
  rfl

theorem ofValues_of_ne_nil (mode : PercentileMode) (ps : List Percentile) {values : List α}
    (h : values.filter Scalar.isFinite ≠ []) :
    ∃ r, Running.ofList (values.filter Scalar.isFinite) = some r ∧
      ofValues mode ps values =
        { count := r.count
          avg := some r.mean
          min := some r.min
          max := some r.max
          med := quantiles mode (values.filter Scalar.isFinite) Percentile.median
          percentiles := tabulate (quantiles mode (values.filter Scalar.isFinite)) ps } := by
  cases hr : Running.ofList (values.filter Scalar.isFinite) with
  | none => exact absurd (Running.ofList_eq_none_iff.mp hr) h
  | some r =>
    refine ⟨r, rfl, ?_⟩
    simp only [ofValues, hr]

/-- A trend counts its finite observations. -/
theorem count_ofValues (mode : PercentileMode) (ps : List Percentile) (values : List α) :
    (ofValues mode ps values).count = (values.filter Scalar.isFinite).length := by
  by_cases h : values.filter Scalar.isFinite = []
  · rw [ofValues_of_nil h, h]
    rfl
  · obtain ⟨r, hr, heq⟩ := ofValues_of_ne_nil mode ps h
    rw [heq]
    exact Running.count_of_ofList hr

theorem quantiles_isSome (mode : PercentileMode) {xs : List Float} {p : Percentile}
    (hne : xs ≠ []) (h : p.WithinRanks xs.length) : (quantiles mode xs p).isSome := by
  cases mode with
  | approximate => rfl
  | exact =>
    have hsize : (xs.mergeSort Scalar.le).toArray.size = xs.length := by simp
    apply percentileOfSorted_isSome
    · rw [hsize]
      exact List.length_pos_iff.mpr hne
    · rw [hsize]
      exact h

end TrendSummary

end StagedLoad
