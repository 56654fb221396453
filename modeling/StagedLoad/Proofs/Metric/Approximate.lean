import StagedLoad.Proofs.Decimal.Literal
import StagedLoad.Proofs.Metric.Histogram
import StagedLoad.Proofs.Metric.Trend

/-!
# Approximate percentiles

A histogram counts microseconds, and observations are milliseconds in doubles.  An observation that
was made of whole microseconds is counted as that many of them, whatever the roundings on the way
were, so an approximate percentile is the end of the slot of the very value that has the rank: it
is never below that value and not more than a share of it above.  All else that a trend reports
does not depend on the histogram.

## Main definitions

* `IsMicros` — an observation that stands for whole microseconds.
* `Percentile.rank` — the rank of a percentile among some values.
* `Histogram.Within` — what three digits leave of a value.
* `TrendSummary.Approximates` — what an approximate trend has to do with an exact one.

## Main results

* `Duration.isMicros_toMillis` — times of whole microseconds are such observations.
* `Percentile.rank_le`, `Percentile.withinRanks` — the ranks are those of values.
* `TrendSummary.approximates_ofValues` — **approximate percentiles are within three digits of the
  sorted observations**.
-/

namespace StagedLoad

open Binary64

/-! ### Observations of whole microseconds -/

/-- A number of microseconds as an observation: milliseconds in a double, with room for what
roundings change. -/
structure IsMicros (x : Float) (k : Nat) : Prop where
  /-- It is finite. -/
  finite : isFinite x = true
  /-- It is nearest to this number of microseconds. -/
  near : |1000 * value x - k| ≤ 1 / 4

variable {x : Float} {k n : Nat}

theorem Binary64.nearestWord_eq (hx : isFinite x = true) (h : |value x - k| < 1 / 2)
    (hk : k ≤ maxWord) : nearestWord x = k := by
  have hround : round x = k := round_eq hx (by exact_mod_cast h)
  obtain ⟨negative, m, q, hdecode⟩ := exists_decode_of_isFinite hx
  simp only [nearestWord, hdecode, hround, Int.toNat_natCast, clampWord]
  exact Nat.min_eq_left hk

theorem Histogram.lt_two_pow_of_le_greatest (hk : k ≤ greatest) : k < 2 ^ 53 := by
  unfold greatest at hk
  omega

theorem Histogram.cast_le_greatest (hk : k ≤ greatest) : (k : ℚ) ≤ 3600000000 := by
  exact_mod_cast hk

/-- Such an observation is counted as that many microseconds. -/
theorem IsMicros.micros_eq (h : IsMicros x k) (hpos : 1 ≤ k) (hk : k ≤ Histogram.greatest) :
    TrendSummary.micros x = k := by
  have hbound := Histogram.cast_le_greatest hk
  have hnonneg : (0 : ℚ) ≤ k := Nat.cast_nonneg k
  have hnear := abs_le.mp h.near
  have hthousand : value (ofNat 1000) = 1000 := value_ofNat (by decide)
  have hrounds := rounds_mul h.finite (isFinite_ofNat (n := 1000) (by decide))
  rw [hthousand] at hrounds
  have hle : |value x * 1000| ≤ 3600000001 := by
    rw [abs_le]
    constructor <;> linarith
  obtain ⟨hfinite, hnear'⟩ := hrounds.near_of_abs_le hle (by norm_num)
  have hclose := abs_le.mp hnear'
  have hnearest : nearestWord (x * ofNat 1000) = k := by
    refine nearestWord_eq hfinite ?_ ?_
    · rw [abs_lt]
      constructor <;> linarith
    · exact (Histogram.lt_two_pow_of_le_greatest hk).le.trans (by decide)
  change Nat.max 1 (nearestWord (x * ofNat 1000)) = k
  rw [hnearest]
  exact Nat.max_eq_right hpos

/-- The double nearest to a number of thousandths. -/
theorem isMicros_div (hk : k ≤ Histogram.greatest) : IsMicros (ofNat k / ofNat 1000) k := by
  have hword : k ≤ maxWord := (Histogram.lt_two_pow_of_le_greatest hk).le.trans (by decide)
  have hthousand : value (ofNat 1000) = 1000 := value_ofNat (by decide)
  have hrounds := rounds_div (isFinite_ofNat hword) (isFinite_ofNat (n := 1000) (by decide))
    (by rw [hthousand]; norm_num)
  rw [hthousand, value_ofNat (Histogram.lt_two_pow_of_le_greatest hk)] at hrounds
  have hle : |(k : ℚ) / 1000| ≤ 3600000 := by
    rw [abs_of_nonneg (div_nonneg (Nat.cast_nonneg k) (by norm_num)), div_le_iff₀ (by norm_num)]
    exact (Histogram.cast_le_greatest hk).trans (by norm_num)
  obtain ⟨hfinite, hnear'⟩ := hrounds.near_of_abs_le hle (by norm_num)
  have hclose := abs_le.mp hnear'
  refine ⟨hfinite, ?_⟩
  rw [abs_le]
  constructor <;> linarith

/-- The seconds of a time of at most an hour, though whole ones and the part of one are rounded on
their own. -/
theorem Duration.abs_toSeconds_sub_le {d : Duration} (hd : d.wholeSeconds ≤ 3600) :
    isFinite d.toSeconds = true ∧ |value d.toSeconds - d.nanos / 10 ^ 9| ≤ 1 / 10 ^ 12 := by
  have hsub : d.subsecond < 1000000000 := Nat.mod_lt _ (by decide)
  have hsplit : (10 ^ 9 * d.wholeSeconds + d.subsecond : ℚ) = d.nanos := by
    exact_mod_cast Nat.div_add_mod d.nanos nanosPerSecond
  have hmax : 1000000000 ≤ maxWord := by decide
  have hfraction := rounds_div (isFinite_ofNat (hsub.le.trans hmax)) value_billion.1
    (by rw [value_billion.2]; norm_num)
  rw [value_billion.2, value_ofNat (by omega)] at hfraction
  have hpart : |(d.subsecond : ℚ) / 10 ^ 9| ≤ 1 := by
    rw [abs_of_nonneg (div_nonneg (Nat.cast_nonneg _) (by norm_num)), div_le_one (by norm_num)]
    exact_mod_cast hsub.le
  obtain ⟨hfinite, hfirst⟩ := hfraction.near_of_abs_le hpart (by norm_num)
  have hsum := rounds_add (isFinite_ofNat (show d.wholeSeconds ≤ maxWord by omega)) hfinite
  rw [value_ofNat (by omega)] at hsum
  have hwhole : (d.wholeSeconds : ℚ) ≤ 3600 := by exact_mod_cast hd
  have hnonneg : (0 : ℚ) ≤ d.wholeSeconds := Nat.cast_nonneg _
  rw [abs_le] at hpart hfirst
  have hhour : |(d.wholeSeconds : ℚ) + value (ofNat d.subsecond / 1e9)| ≤ 3602 := by
    rw [abs_le]
    constructor <;> linarith
  obtain ⟨hfinite', hsecond⟩ := hsum.near_of_abs_le hhour (by norm_num)
  refine ⟨hfinite', ?_⟩
  change |value (ofNat d.wholeSeconds + ofNat d.subsecond / 1e9) - _| ≤ _
  rw [abs_le] at hsecond ⊢
  constructor <;> linarith

/-- **Times of whole microseconds are observations of whole microseconds.** -/
theorem Duration.isMicros_toMillis {d : Duration} (hd : d.nanos = 1000 * k)
    (hk : k ≤ Histogram.greatest) : IsMicros d.toMillis k := by
  have hwhole : d.wholeSeconds ≤ 3600 := by
    unfold Histogram.greatest at hk
    unfold Duration.wholeSeconds nanosPerSecond
    omega
  obtain ⟨hfinite, hseconds⟩ := Duration.abs_toSeconds_sub_le hwhole
  have hrounds := rounds_mul hfinite value_thousand.1
  rw [value_thousand.2] at hrounds
  have hnanos : (d.nanos : ℚ) = 1000 * k := by exact_mod_cast hd
  have hbound := Histogram.cast_le_greatest hk
  have hnonneg : (0 : ℚ) ≤ k := Nat.cast_nonneg k
  rw [hnanos, abs_le] at hseconds
  have hmillis : |value d.toSeconds * 1000| ≤ 3601000 := by
    rw [abs_le]
    constructor <;> linarith
  obtain ⟨hfinite', hclose⟩ := hrounds.near_of_abs_le hmillis (by norm_num)
  refine ⟨hfinite', ?_⟩
  change |1000 * value (d.toSeconds * 1000) - k| ≤ _
  rw [abs_le] at hclose ⊢
  constructor <;> linarith

/-! ### Ranks -/

/-- The rank of a percentile among some values, counted from one: the least natural that is not
below its share of them, where the share and the product are doubles. -/
def Percentile.rank (p : Percentile) (n : Nat) : Nat :=
  max 1 ⌈value (ofNat p.hundredths / ofNat 10000 * ofNat n)⌉₊

theorem Percentile.quantile_eq (p : Percentile) :
    p.quantile = ofNat p.hundredths / ofNat 10000 := rfl

/-- It is the rank that is looked for in a histogram. -/
theorem Percentile.rankOf_quantile (p : Percentile) (n : Nat) :
    Histogram.rankOf p.quantile n = p.rank n := by
  change max 1 (ceilNat (p.quantile * ofNat n)) = p.rank n
  rw [ceilNat_eq, p.quantile_eq, rank]

/-- A percentile asks for nothing at least and for all at most. -/
theorem Percentile.value_quantile (p : Percentile) :
    isFinite p.quantile = true ∧ 0 ≤ value p.quantile ∧ value p.quantile ≤ 1 := by
  have hp := p.le
  have hone : value (ofNat 1) = 1 := by exact_mod_cast value_ofNat (n := 1) (by decide)
  have hzero : value (ofNat 0) = 0 := by exact_mod_cast value_ofNat (n := 0) (by decide)
  have hall : value (ofNat 10000) = 10000 := value_ofNat (by decide)
  have hshare := rounds_div (isFinite_ofNat (hp.trans (by decide : 10000 ≤ maxWord)))
    (isFinite_ofNat (n := 10000) (by decide)) (by rw [hall]; norm_num)
  rw [hall, value_ofNat (by omega), ← p.quantile_eq] at hshare
  have hnonneg : 0 ≤ (p.hundredths : ℚ) / 10000 := div_nonneg (Nat.cast_nonneg _) (by norm_num)
  have hle : (p.hundredths : ℚ) / 10000 ≤ 1 := by
    rw [div_le_one (by norm_num)]
    exact_mod_cast hp
  have habs : |(p.hundredths : ℚ) / 10000| ≤ 1 := by rwa [abs_of_nonneg hnonneg]
  obtain ⟨hfinite, -⟩ := hshare.near_of_abs_le habs (by norm_num)
  refine ⟨hfinite, ?_, ?_⟩
  · rw [← hzero] at hnonneg ⊢
    exact hshare.le_value hfinite (isFinite_ofNat (by decide)) hnonneg
  · rw [← hone] at hle ⊢
    exact hshare.value_le hfinite (isFinite_ofNat (by decide)) hle

/-- So the product with a natural does not exceed it, though it is rounded. -/
theorem Percentile.ceilNat_quantile_mul_le (p : Percentile) (hn : n < 2 ^ 53) :
    ceilNat (p.quantile * ofNat n) ≤ n := by
  obtain ⟨hfinite, hlow, hhigh⟩ := p.value_quantile
  have hword : n ≤ maxWord := hn.le.trans (by decide)
  have hrounds := rounds_mul hfinite (isFinite_ofNat hword)
  have hcast : 0 ≤ value (ofNat n) := by
    rw [value_ofNat hn]
    exact Nat.cast_nonneg n
  have hbound := mul_le_of_le_one_left hcast hhigh
  have habs : |value p.quantile * value (ofNat n)| ≤ n := by
    rwa [abs_of_nonneg (mul_nonneg hlow hcast), ← value_ofNat hn]
  have hsmall : (n : ℚ) ≤ 2 ^ 53 := by exact_mod_cast hn.le
  obtain ⟨hfinite', -⟩ := hrounds.near_of_abs_le habs (hsmall.trans (by norm_num))
  rw [ceilNat_le_iff hfinite', ← value_ofNat hn]
  exact hrounds.value_le hfinite' (isFinite_ofNat hword) hbound

/-- **The rank is that of a value.** -/
theorem Percentile.rank_le (p : Percentile) (hpos : 1 ≤ n) (hn : n < 2 ^ 53) : p.rank n ≤ n := by
  rw [← p.rankOf_quantile]
  exact Nat.max_le.mpr ⟨hpos, p.ceilNat_quantile_mul_le hn⟩

theorem Percentile.one_le_rank (p : Percentile) (n : Nat) : 1 ≤ p.rank n := Nat.le_max_left _ _

/-- And so is the one that interpolation starts from. -/
theorem Percentile.withinRanks (p : Percentile) (hn : n ≤ 2 ^ 53) : p.WithinRanks n :=
  p.ceilNat_quantile_mul_le (by omega)

/-! ### Trends -/

/-- What three digits leave of a value. -/
structure Histogram.Within (k v : Nat) : Prop where
  /-- It is not below the value. -/
  le : k ≤ v
  /-- It is above it by a small share at most. -/
  near : v ≤ k + k / 1024
  /-- Small values are left as they are. -/
  fine : k < 2048 → v = k

theorem Histogram.within_slotEnd (k : Nat) : Within k (slotEnd (slotOf k)) where
  le := le_slotEnd k
  near := by
    have hshare : slotEnd (slotOf k) - k ≤ k / 1024 :=
      (Nat.le_div_iff_mul_le (by decide)).mpr (by rw [Nat.mul_comm]; exact slotEnd_le k)
    omega
  fine := slotEnd_slotOf_of_lt

namespace TrendSummary

/-- What an approximate trend of some microseconds has to do with an exact one. -/
structure Approximates (ks : List Nat) (ps : List Percentile)
    (exact approximate : TrendSummary Float) : Prop where
  /-- They have as many observations. -/
  count : approximate.count = exact.count
  /-- They have the same mean. -/
  avg : approximate.avg = exact.avg
  /-- They have the same least observation. -/
  min : approximate.min = exact.min
  /-- They have the same greatest observation. -/
  max : approximate.max = exact.max
  /-- The rank of every percentile is that of a value. -/
  ranked : ks.length < 2 ^ 53 → ∀ p : Percentile, p.rank ks.length ≤ ks.length
  /-- The median is that of the value that has the rank, up to three digits. -/
  med : ∀ k, (ks.mergeSort (· ≤ ·))[Percentile.median.rank ks.length - 1]? = some k →
    ∃ v, Histogram.Within k v ∧ approximate.med = some (ofNat v / ofNat 1000)
  /-- So is each of the percentiles that were asked for. -/
  percentiles : ∀ p ∈ ps, ∀ k, (ks.mergeSort (· ≤ ·))[p.rank ks.length - 1]? = some k →
    ∃ v, Histogram.Within k v ∧ approximate.percentiles.get? p = some (ofNat v / ofNat 1000)

section

variable {xs : List Float} {ks : List Nat}

theorem filter_isFinite_eq_self (h : List.Forall₂ IsMicros xs ks) :
    xs.filter Scalar.isFinite = xs := by
  induction h with
  | nil => rfl
  | @cons x k xs ks hx _ ih =>
    have hfinite : Scalar.isFinite x = true := hx.finite
    rw [List.filter_cons_of_pos hfinite, ih]

theorem map_micros (h : List.Forall₂ IsMicros xs ks)
    (hrange : ∀ k ∈ ks, 1 ≤ k ∧ k ≤ Histogram.greatest) : xs.map micros = ks := by
  induction h with
  | nil => rfl
  | cons hx _ ih =>
    rw [List.forall_mem_cons] at hrange
    rw [List.map_cons, hx.micros_eq hrange.1.1 hrange.1.2, ih hrange.2]

/-- The percentile of a rank is the end of the slot of the value that has it. -/
theorem quantiles_approximate (h : List.Forall₂ IsMicros xs ks)
    (hrange : ∀ k ∈ ks, 1 ≤ k ∧ k ≤ Histogram.greatest) {p : Percentile} {k : Nat}
    (hk : (ks.mergeSort (· ≤ ·))[p.rank ks.length - 1]? = some k) :
    quantiles .approximate xs p =
      some (ofNat (Histogram.slotEnd (Histogram.slotOf k)) / ofNat 1000) := by
  have hsorted : (ks.mergeSort (· ≤ ·)).Pairwise (· ≤ ·) := List.pairwise_mergeSort' _ ks
  have hvalue := Histogram.valueAtRank_ofValues (List.mergeSort_perm ks _) hsorted
    (fun k hk => (hrange k hk).2) (p.one_le_rank ks.length) hk
  rw [← p.rankOf_quantile] at hvalue
  unfold quantiles
  dsimp only
  rw [Histogram.foldl_record, map_micros h hrange, Histogram.valueAt, Histogram.total_ofValues]
  exact congrArg (fun v => some (ofNat v / ofNat 1000)) hvalue

/-- **Approximate percentiles are within three digits of the sorted observations**, and nothing
else depends on the histogram. -/
theorem approximates_ofValues (ps : List Percentile) (h : List.Forall₂ IsMicros xs ks)
    (hne : ks ≠ []) (hrange : ∀ k ∈ ks, 1 ≤ k ∧ k ≤ Histogram.greatest) :
    Approximates ks ps (ofValues .exact ps xs) (ofValues .approximate ps xs) := by
  have hfilter := filter_isFinite_eq_self h
  have hnil : xs.filter Scalar.isFinite ≠ [] := by
    rw [hfilter]
    rintro rfl
    exact hne (List.forall₂_nil_left_iff.mp h)
  obtain ⟨r, hr, hexact⟩ := ofValues_of_ne_nil .exact ps hnil
  obtain ⟨r', hr', happroximate⟩ := ofValues_of_ne_nil .approximate ps hnil
  obtain rfl : r = r' := Option.some.inj (hr.symm.trans hr')
  rw [hfilter] at happroximate
  rw [hexact, happroximate]
  refine ⟨rfl, rfl, rfl, rfl, ?_, ?_, ?_⟩
  · intro hlength p
    exact p.rank_le (List.length_pos_iff.mpr hne) hlength
  · intro k hk
    exact ⟨_, Histogram.within_slotEnd k, quantiles_approximate h hrange hk⟩
  · intro p hp k hk
    refine ⟨_, Histogram.within_slotEnd k, ?_⟩
    rw [get?_tabulate, if_pos hp]
    exact quantiles_approximate h hrange hk

/-- Two values of one slot: the smaller one is reported as the end of it. -/
theorem approximates_ofValues_two : Approximates [2048, 2049] [Percentile.median]
    (ofValues .exact [Percentile.median]
      [ofNat 2048 / ofNat 1000, ofNat 2049 / ofNat 1000])
    (ofValues .approximate [Percentile.median]
      [ofNat 2048 / ofNat 1000, ofNat 2049 / ofNat 1000]) :=
  approximates_ofValues [Percentile.median]
    (.cons (isMicros_div (by decide)) (.cons (isMicros_div (by decide)) .nil)) (by decide)
    (by decide)

end

end TrendSummary

end StagedLoad
