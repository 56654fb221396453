import Mathlib.Data.List.Sort
import Mathlib.Data.Rat.Floor
import Mathlib.Tactic.Linarith
import StagedLoad.Metric.Trend

/-!
# Interpolated percentiles

A percentile has a place among sorted values, which is seldom the place of a value, and the
percentile lies on the straight line between the values on both sides of it.  In exact numbers such
a line does not fall where the values do not, so a greater percentile is not below a smaller one,
and greater values have greater percentiles.

## Main definitions

* `interpolate` — the line between the values on both sides of a place.
* `Percentile.place` — the place of a percentile among values, counted from zero.
* `OrderedPercentiles` — what the percentiles of ascending values have to do with them and with
  one another.

## Main results

* `interpolate_mono`, `interpolate_le_interpolate` — the line rises with the place and with the
  values.
* `percentileOfSorted_eq` — percentiles are interpolated.
* `forall₂_le_of_sorted` — lower values are lower one by one when both are sorted.
* `percentiles_are_ordered` — **exact percentiles are ordered and bounded**.
-/

namespace StagedLoad

/-! ### Lines between values -/

/-- The line between the values on both sides of a place. -/
def interpolate (x : ℕ → ℚ) (place : ℚ) : ℚ :=
  x ⌊place⌋₊ + (x ⌈place⌉₊ - x ⌊place⌋₊) * (place - ⌊place⌋₊)

section

variable {x y : ℕ → ℚ} {s t : ℚ} {n : ℕ}

theorem sub_floor_nonneg (ht : 0 ≤ t) : 0 ≤ t - ⌊t⌋₊ := sub_nonneg.mpr (Nat.floor_le ht)

theorem sub_floor_le_one (t : ℚ) : t - ⌊t⌋₊ ≤ 1 := by
  have hlt := Nat.lt_floor_add_one t
  linarith

/-- What lies between two values is not below the one that is less. -/
theorem floor_le_interpolate (ht : 0 ≤ t) (hx : x ⌊t⌋₊ ≤ x ⌈t⌉₊) : x ⌊t⌋₊ ≤ interpolate x t := by
  have hrise := mul_nonneg (sub_nonneg.mpr hx) (sub_floor_nonneg ht)
  unfold interpolate
  linarith

/-- And not above the one that is greater. -/
theorem interpolate_le_ceil (hx : x ⌊t⌋₊ ≤ x ⌈t⌉₊) : interpolate x t ≤ x ⌈t⌉₊ := by
  have hrise := mul_le_of_le_one_right (sub_nonneg.mpr hx) (sub_floor_le_one t)
  unfold interpolate
  linarith

theorem interpolate_natCast (x : ℕ → ℚ) (i : ℕ) : interpolate x i = x i := by
  simp [interpolate]

/-- The line rises with the place: within one segment since it is straight, and from one segment
to a later one since there is a value in between. -/
theorem interpolate_mono (hx : MonotoneOn x (Set.Iic n)) (hs : 0 ≤ s) (hst : s ≤ t) (ht : t ≤ n) :
    interpolate x s ≤ interpolate x t := by
  have hceil : ⌈t⌉₊ ≤ n := Nat.ceil_le.mpr ht
  have hfloor : ⌊t⌋₊ ≤ n := (Nat.floor_le_ceil t).trans hceil
  have hsegment : x ⌊t⌋₊ ≤ x ⌈t⌉₊ := hx hfloor hceil (Nat.floor_le_ceil t)
  rcases (Nat.floor_mono hst).eq_or_lt with hsame | hlater
  · rcases (Nat.ceil_mono hst).eq_or_lt with hsame' | hearlier
    · -- both places lie in one segment
      have hrise := mul_le_mul_of_nonneg_left hst (sub_nonneg.mpr hsegment)
      unfold interpolate
      rw [hsame, hsame']
      linarith
    · -- the first place is that of the value where the segment of the other one begins
      have hvalue : ⌈s⌉₊ = ⌊s⌋₊ := by
        have hle := Nat.ceil_le_floor_add_one t
        have hge := Nat.floor_le_ceil s
        omega
      have hstart : interpolate x s = x ⌊t⌋₊ := by
        rw [interpolate, hvalue, hsame, sub_self, zero_mul, add_zero]
      rw [hstart]
      exact floor_le_interpolate (hs.trans hst) hsegment
  · have hbetween : ⌈s⌉₊ ≤ ⌊t⌋₊ := (Nat.ceil_le_floor_add_one s).trans hlater
    have hceil' : ⌈s⌉₊ ≤ n := hbetween.trans hfloor
    have hfloor' : ⌊s⌋₊ ≤ n := (Nat.floor_le_ceil s).trans hceil'
    calc interpolate x s ≤ x ⌈s⌉₊ :=
          interpolate_le_ceil (hx hfloor' hceil' (Nat.floor_le_ceil s))
      _ ≤ x ⌊t⌋₊ := hx hceil' hfloor hbetween
      _ ≤ interpolate x t := floor_le_interpolate (hs.trans hst) hsegment

/-- The line rises with the values, since it is a mean of two of them. -/
theorem interpolate_le_interpolate (ht : 0 ≤ t) (hfloor : x ⌊t⌋₊ ≤ y ⌊t⌋₊)
    (hceil : x ⌈t⌉₊ ≤ y ⌈t⌉₊) : interpolate x t ≤ interpolate y t := by
  have hleft := mul_le_mul_of_nonneg_right hfloor (sub_nonneg.mpr (sub_floor_le_one t))
  have hright := mul_le_mul_of_nonneg_right hceil (sub_floor_nonneg ht)
  unfold interpolate
  linarith

end

/-! ### Percentiles of sorted values -/

/-- The place of a percentile among a number of values, counted from zero. -/
def Percentile.place (p : Percentile) (n : ℕ) : ℚ := p.hundredths / 10000 * (n - 1 : ℕ)

theorem Percentile.place_nonneg (p : Percentile) (n : ℕ) : 0 ≤ p.place n := by
  unfold place
  positivity

theorem Percentile.place_mono {p q : Percentile} (h : p.hundredths ≤ q.hundredths) (n : ℕ) :
    p.place n ≤ q.place n := by
  have hle : (p.hundredths : ℚ) ≤ q.hundredths := by exact_mod_cast h
  unfold place
  gcongr

theorem Percentile.place_le (p : Percentile) (n : ℕ) : p.place n ≤ (n - 1 : ℕ) := by
  have hle : (p.hundredths : ℚ) ≤ 10000 := by exact_mod_cast p.le
  refine mul_le_of_le_one_left (Nat.cast_nonneg _) ?_
  rwa [div_le_one (by norm_num)]

/-- The place of a percentile is not beyond the last value. -/
theorem Percentile.ceil_place_lt (p : Percentile) {n : ℕ} (hpos : 0 < n) : ⌈p.place n⌉₊ < n :=
  Nat.lt_of_le_pred hpos (Nat.ceil_le.mpr (p.place_le n))

/-- The greatest percentile. -/
def Percentile.greatest : Percentile := ⟨10000, by decide, le_rfl⟩

theorem Percentile.place_greatest (n : ℕ) : greatest.place n = (n - 1 : ℕ) := by
  simp [place, greatest]

theorem Scalar.ceil_rat (q : ℚ) : Scalar.ceil q = ⌈q⌉₊ := by
  have hceil : q.ceil = ⌈q⌉ := Rat.ceil_eq_neg_floor_neg q
  rw [← Int.ceil_toNat, ← hceil]
  rfl

/-- The value at a place in an array. -/
def valueAt (sorted : Array ℚ) (i : ℕ) : ℚ := sorted.getD i 0

theorem getElem?_eq_valueAt {sorted : Array ℚ} {i : ℕ} (hi : i < sorted.size) :
    sorted[i]? = some (valueAt sorted i) := by
  simp [valueAt, hi]

/-- A percentile is interpolated at its place. -/
theorem percentileOfSorted_eq {sorted : Array ℚ} (hpos : 0 < sorted.size) (p : Percentile) :
    percentileOfSorted sorted p = some (interpolate (valueAt sorted) (p.place sorted.size)) := by
  have hceil := p.ceil_place_lt hpos
  have hfloor := (Nat.floor_le_ceil (p.place sorted.size)).trans_lt hceil
  have hne : ¬ sorted.isEmpty = true := by
    rw [Array.isEmpty_iff_size_eq_zero]
    omega
  have hplace : Scalar.ofNat p.hundredths / Scalar.ofNat 10000 * Scalar.ofNat (sorted.size - 1) =
      p.place sorted.size := rfl
  have hlow : Scalar.floor (p.place sorted.size) = ⌊p.place sorted.size⌋₊ := rfl
  rw [percentileOfSorted, if_neg hne]
  dsimp only
  rw [hplace, hlow, Scalar.ceil_rat, getElem?_eq_valueAt hfloor, getElem?_eq_valueAt hceil]
  rfl

/-! ### Lower values -/

/-- As many values are at most a given one as stand before the first that is greater. -/
theorem lt_countP_iff {l : List ℚ} (hl : l.Pairwise (· ≤ ·)) {i : ℕ} {a : ℚ} (ha : l[i]? = some a)
    (c : ℚ) : i < l.countP (· ≤ c) ↔ a ≤ c := by
  induction l generalizing i with
  | nil => cases ha
  | cons b l ih =>
    obtain ⟨hb, hl⟩ := List.pairwise_cons.mp hl
    by_cases hbc : b ≤ c
    · rw [List.countP_cons_of_pos (by simpa using hbc)]
      cases i with
      | zero =>
        obtain rfl : b = a := Option.some.inj ha
        exact iff_of_true (Nat.succ_pos _) hbc
      | succ i => rw [Nat.succ_lt_succ_iff, ih hl ha]
    · have hnone : l.countP (· ≤ c) = 0 := by
        rw [List.countP_eq_zero]
        intro d hd
        simpa using (not_le.mp hbc).trans_le (hb d hd)
      have hba : b ≤ a := by
        rcases List.mem_cons.mp (List.mem_of_getElem? ha) with rfl | hmem
        · exact le_rfl
        · exact hb a hmem
      rw [List.countP_cons_of_neg (by simpa using hbc), hnone]
      exact iff_of_false (Nat.not_lt_zero i) fun hac => hbc (hba.trans hac)

/-- Of lower values at least as many are at most a given one. -/
theorem countP_le_countP {lower l : List ℚ} (h : List.Forall₂ (· ≤ ·) lower l) (c : ℚ) :
    l.countP (· ≤ c) ≤ lower.countP (· ≤ c) := by
  induction h with
  | nil => exact le_rfl
  | @cons a b lower l hab _ ih =>
    by_cases hbc : b ≤ c
    · rw [List.countP_cons_of_pos (by simpa using hbc),
        List.countP_cons_of_pos (by simpa using hab.trans hbc)]
      exact Nat.succ_le_succ ih
    · rw [List.countP_cons_of_neg (by simpa using hbc)]
      exact ih.trans (List.countP_cons ▸ Nat.le_add_right _ _)

/-- Lower values are lower one by one when both are sorted. -/
theorem forall₂_le_of_sorted {lower l sortedLower sorted : List ℚ}
    (h : List.Forall₂ (· ≤ ·) lower l) (hlower : sortedLower.Perm lower) (hl : sorted.Perm l)
    (hsortedLower : sortedLower.Pairwise (· ≤ ·)) (hsorted : sorted.Pairwise (· ≤ ·)) :
    List.Forall₂ (· ≤ ·) sortedLower sorted := by
  refine List.forall₂_iff_get.mpr ⟨?_, fun i hi hi' => ?_⟩
  · rw [hlower.length_eq, h.length_eq, hl.length_eq]
  · -- as many values as stand up to this place are at most the greater one of the two
    have hcount := (lt_countP_iff hsorted (List.getElem?_eq_getElem hi') _).mpr le_rfl
    rw [hl.countP_eq] at hcount
    have hcount' := hcount.trans_le (countP_le_countP h _)
    rw [← hlower.countP_eq] at hcount'
    exact (lt_countP_iff hsortedLower (List.getElem?_eq_getElem hi) _).mp hcount'

/-! ### Ordered percentiles -/

/-- What the percentiles of ascending values have to do with them and with one another. -/
structure OrderedPercentiles (sorted : Array ℚ) (value : Percentile → ℚ) : Prop where
  /-- Every percentile exists. -/
  computed : ∀ p, percentileOfSorted sorted p = some (value p)
  /-- It lies between the values on both sides of its place. -/
  between : ∀ p, ∃ a b, sorted[⌊p.place sorted.size⌋₊]? = some a ∧
    sorted[⌈p.place sorted.size⌉₊]? = some b ∧ a ≤ value p ∧ value p ≤ b
  /-- So it lies between the first value and the last one. -/
  within : ∀ p, ∃ a b, sorted[0]? = some a ∧ sorted.back? = some b ∧ a ≤ value p ∧ value p ≤ b
  /-- The greatest percentile is the last value. -/
  last : sorted.back? = some (value .greatest)
  /-- A greater percentile is not below a smaller one. -/
  mono : ∀ p q : Percentile, p.hundredths ≤ q.hundredths → value p ≤ value q
  /-- As many values that are not lower one by one have no lower percentiles. -/
  raised : ∀ other : Array ℚ, List.Forall₂ (· ≤ ·) sorted.toList other.toList →
    ∀ p, ∃ w, percentileOfSorted other p = some w ∧ value p ≤ w
  /-- So if the values are those of latencies in some order, and some latencies become lower, no
  percentile becomes higher. -/
  lowered : ∀ latencies lower : List ℚ, sorted.toList.Perm latencies →
    List.Forall₂ (· ≤ ·) lower latencies →
    ∀ p, ∃ w, TrendSummary.quantiles .exact lower p = some w ∧ w ≤ value p

section

variable {sorted other : Array ℚ}

theorem monotoneOn_valueAt (hsorted : sorted.toList.Pairwise (· ≤ ·)) (hpos : 0 < sorted.size) :
    MonotoneOn (valueAt sorted) (Set.Iic (sorted.size - 1)) := by
  intro i hi j hj hij
  have hi' : i < sorted.size := Nat.lt_of_le_pred hpos hi
  have hj' : j < sorted.size := Nat.lt_of_le_pred hpos hj
  rcases hij.eq_or_lt with rfl | hlt
  · exact le_rfl
  · have hle := List.pairwise_iff_getElem.mp hsorted i j hi' hj' hlt
    simpa [valueAt, hi', hj'] using hle

/-- Values that are not lower one by one have no lower percentiles. -/
theorem exists_percentile_ge (hpos : 0 < sorted.size)
    (hle : List.Forall₂ (· ≤ ·) sorted.toList other.toList) (p : Percentile) :
    ∃ w, percentileOfSorted other p = some w ∧
      interpolate (valueAt sorted) (p.place sorted.size) ≤ w := by
  have hsize : sorted.size = other.size := hle.length_eq
  have hvalue {i : ℕ} (hi : i < sorted.size) : valueAt sorted i ≤ valueAt other i := by
    have hi' : i < other.size := hsize ▸ hi
    simpa [valueAt, hi, hi'] using hle.get hi hi'
  have hceil := p.ceil_place_lt hpos
  refine ⟨_, percentileOfSorted_eq (hsize ▸ hpos) p, ?_⟩
  rw [← hsize]
  exact interpolate_le_interpolate (p.place_nonneg _)
    (hvalue ((Nat.floor_le_ceil _).trans_lt hceil)) (hvalue hceil)

/-- The percentiles of values are those of the same values sorted. -/
theorem quantiles_exact (xs : List ℚ) :
    TrendSummary.quantiles .exact xs = percentileOfSorted (xs.mergeSort (· ≤ ·)).toArray := rfl

/-- Latencies that are lower one by one have no higher percentiles, whatever their order. -/
theorem exists_quantile_le (hsorted : sorted.toList.Pairwise (· ≤ ·)) (hpos : 0 < sorted.size)
    {latencies lower : List ℚ} (hperm : sorted.toList.Perm latencies)
    (hle : List.Forall₂ (· ≤ ·) lower latencies) (p : Percentile) :
    ∃ w, TrendSummary.quantiles .exact lower p = some w ∧
      w ≤ interpolate (valueAt sorted) (p.place sorted.size) := by
  have hlower := forall₂_le_of_sorted hle (List.mergeSort_perm lower _) hperm
    (List.pairwise_mergeSort' _ lower) hsorted
  have hsize : (lower.mergeSort (· ≤ ·)).toArray.size = sorted.size := hlower.length_eq
  have hpos' : 0 < (lower.mergeSort (· ≤ ·)).toArray.size := hsize ▸ hpos
  obtain ⟨w, hw, hge⟩ := exists_percentile_ge hpos' hlower p
  rw [percentileOfSorted_eq hpos] at hw
  obtain rfl := Option.some.inj hw
  refine ⟨_, ?_, hge⟩
  rw [quantiles_exact, percentileOfSorted_eq hpos']

/-- **Exact percentiles are ordered and bounded.** -/
theorem percentiles_are_ordered (hne : sorted ≠ #[]) (hsorted : sorted.toList.Pairwise (· ≤ ·)) :
    ∃ value, OrderedPercentiles sorted value := by
  have hpos : 0 < sorted.size := Array.size_pos_iff.mpr hne
  have hvalues := monotoneOn_valueAt hsorted hpos
  have hback : sorted.back? = some (valueAt sorted (sorted.size - 1)) := by
    rw [Array.back?, getElem?_eq_valueAt (by omega)]
  have hmono {s t : ℚ} (hs : 0 ≤ s) (hst : s ≤ t) (ht : t ≤ (sorted.size - 1 : ℕ)) :
      interpolate (valueAt sorted) s ≤ interpolate (valueAt sorted) t :=
    interpolate_mono hvalues hs hst ht
  refine ⟨fun p => interpolate (valueAt sorted) (p.place sorted.size),
    percentileOfSorted_eq hpos, ?between, ?within, ?last, ?mono, ?raised, ?lowered⟩
  case between =>
    intro p
    have hceil := p.ceil_place_lt hpos
    have hfloor := (Nat.floor_le_ceil (p.place sorted.size)).trans_lt hceil
    have hsegment := hvalues (Nat.le_pred_of_lt hfloor) (Nat.le_pred_of_lt hceil)
      (Nat.floor_le_ceil (p.place sorted.size))
    exact ⟨_, _, getElem?_eq_valueAt hfloor, getElem?_eq_valueAt hceil,
      floor_le_interpolate (p.place_nonneg _) hsegment, interpolate_le_ceil hsegment⟩
  case within =>
    intro p
    refine ⟨_, _, getElem?_eq_valueAt hpos, hback, ?_, ?_⟩
    · rw [← interpolate_natCast (valueAt sorted) 0, Nat.cast_zero]
      exact hmono le_rfl (p.place_nonneg _) (p.place_le _)
    · rw [← interpolate_natCast (valueAt sorted) (sorted.size - 1)]
      exact hmono (p.place_nonneg _) (p.place_le _) le_rfl
  case last => rw [hback, Percentile.place_greatest, interpolate_natCast]
  case mono =>
    intro p q hpq
    exact hmono (p.place_nonneg _) (Percentile.place_mono hpq _) (q.place_le _)
  case raised => exact fun other hle p => exists_percentile_ge hpos hle p
  case lowered => exact fun _ _ hperm hle p => exists_quantile_le hsorted hpos hperm hle p

/-- Three latencies, two of which are the same. -/
theorem twoFastOneSlow_is_ordered :
    #[1, 1, 4] ≠ (#[] : Array ℚ) ∧ (#[1, 1, 4] : Array ℚ).toList.Pairwise (· ≤ ·) ∧
      ∃ value, OrderedPercentiles #[1, 1, 4] value :=
  ⟨by simp, by decide, percentiles_are_ordered (by simp) (by decide)⟩

end

end StagedLoad
