import Mathlib.Algebra.BigOperators.Group.List.Basic
import Mathlib.Tactic.FieldSimp
import Mathlib.Tactic.Ring
import StagedLoad.Proofs.Decimal.Value
import StagedLoad.Proofs.Metric.Interpolation
import StagedLoad.Proofs.Metric.Trend

/-!
# Statistics in exact numbers

The statistics of a trend are kept up to date observation by observation, and what is not finite is
passed over.  If the finite ones are calculated with exactly, they are what they are called: the
mean times the number of observations is their sum after every observation, and the extremes are
the least and the greatest.  Extremes are only compared, so they are the same in doubles.

## Main definitions

* `ExactDouble` — doubles that are calculated with exactly.
* `Running.Summarises` — what the running statistics of some numbers are.
* `TrendSummary.IsDefinedBy` — what a trend of some numbers reports.
* `TrendSummary.SameExtremes` — trends that agree in what is only counted and compared.

## Main results

* `Running.Summarises.push`, `Running.Summarises.foldl_push` — the running statistics are right
  after one observation more, so after all.
* `TrendSummary.quantiles_map_finite` — percentiles are those of exact numbers.
* `TrendSummary.statistics_are_as_defined` — **the statistics of a trend equal their definitions**.
-/

namespace StagedLoad

/-- A double that is calculated with exactly. -/
inductive ExactDouble
  /-- A number. -/
  | finite (q : ℚ)
  /-- An infinity or none. -/
  | special
  deriving DecidableEq

namespace ExactDouble

/-- Calculates with numbers; what is not finite stays so. -/
def lift (f : ℚ → ℚ → ℚ) : ExactDouble → ExactDouble → ExactDouble
  | finite p, finite q => finite (f p q)
  | _, _ => special

/-- A quotient, which is not finite if the divisor is zero. -/
def quotient : ExactDouble → ExactDouble → ExactDouble
  | finite p, finite q => if q = 0 then special else finite (p / q)
  | _, _ => special

/-- Numbers are sorted before what is not finite. -/
def sorts : ExactDouble → ExactDouble → Bool
  | finite p, finite q => p ≤ q
  | finite _, special => true
  | special, finite _ => false
  | special, special => true

instance : Scalar ExactDouble where
  add := lift (· + ·)
  sub := lift (· - ·)
  mul := lift (· * ·)
  div := quotient
  ofNat n := finite n
  lt
    | finite p, finite q => p < q
    | _, _ => false
  le := sorts
  isFinite
    | finite _ => true
    | special => false
  floor
    | finite q => Scalar.floor q
    | special => 0
  ceil
    | finite q => Scalar.ceil q
    | special => 0
  nearest
    | finite q => Scalar.nearest q
    | special => 0

@[simp] theorem floor_finite (q : ℚ) : Scalar.floor (finite q) = Scalar.floor q := rfl

@[simp] theorem ceil_finite (q : ℚ) : Scalar.ceil (finite q) = Scalar.ceil q := rfl

theorem div_finite (p : ℚ) {q : ℚ} (hq : q ≠ 0) : finite p / finite q = finite (p / q) :=
  if_neg hq

theorem ofNat_div_ofNat (m : ℕ) {n : ℕ} (hn : n ≠ 0) :
    (Scalar.ofNat m / Scalar.ofNat n : ExactDouble) = finite (Scalar.ofNat m / Scalar.ofNat n) :=
  div_finite _ (Nat.cast_ne_zero.mpr hn)

/-- A double, to be calculated with exactly. -/
def ofFloat (x : Float) : ExactDouble :=
  if Binary64.isFinite x then finite (Binary64.value x) else special

theorem ofFloat_of_isFinite {x : Float} (h : Binary64.isFinite x = true) :
    ofFloat x = finite (Binary64.value x) := if_pos h

theorem isFinite_ofFloat (x : Float) : Scalar.isFinite (ofFloat x) = Binary64.isFinite x := by
  by_cases hx : Binary64.isFinite x = true
  · rw [ofFloat_of_isFinite hx, hx]
    rfl
  · rw [ofFloat, if_neg hx, eq_false_of_ne_true hx]
    rfl

/-- Finite doubles are compared as the numbers that they are. -/
theorem lt_ofFloat {x y : Float} (hx : Binary64.isFinite x = true)
    (hy : Binary64.isFinite y = true) : Scalar.lt (ofFloat x) (ofFloat y) = Scalar.lt x y := by
  rw [ofFloat_of_isFinite hx, ofFloat_of_isFinite hy]
  exact decide_eq_decide.mpr (Binary64.lt_iff hx hy).symm

/-- What is passed over is passed over in exact numbers. -/
theorem filter_map_ofFloat (values : List Float) :
    (values.map ofFloat).filter Scalar.isFinite =
      (values.filter Binary64.isFinite).map ofFloat := by
  rw [List.filter_map]
  congr 2
  exact funext isFinite_ofFloat

theorem map_ofFloat_filter (values : List Float) :
    (values.filter Binary64.isFinite).map ofFloat =
      ((values.filter Binary64.isFinite).map Binary64.value).map finite := by
  rw [List.map_map]
  exact List.map_congr_left fun x hx => ofFloat_of_isFinite (List.mem_filter.mp hx).2

end ExactDouble

open ExactDouble (finite)

/-! ### Running statistics -/

namespace Running

/-- The running statistics of some numbers. -/
structure Summarises (r : Running ExactDouble) (l : List ℚ) : Prop where
  /-- There are as many observations. -/
  count : r.count = l.length
  /-- The mean is the sum, divided by their number. -/
  mean : r.mean = finite (l.sum / l.length)
  /-- The least of them. -/
  min : ∃ m, r.min = finite m ∧ IsLeast {x | x ∈ l} m
  /-- The greatest of them. -/
  max : ∃ m, r.max = finite m ∧ IsGreatest {x | x ∈ l} m

theorem nextMean_finite (m x : ℚ) {n : ℕ} (hn : n ≠ 0) :
    nextMean (finite m) (finite x) n = finite (m + (x - m) / n) := by
  have hquotient : finite (x - m) / finite n = finite ((x - m) / n) :=
    ExactDouble.div_finite _ (Nat.cast_ne_zero.mpr hn)
  change finite m + finite (x - m) / finite n = _
  rw [hquotient]
  rfl

theorem summarises_first (x : ℚ) : (first (finite x)).Summarises [x] where
  count := rfl
  mean := by
    change nextMean (finite (0 : ℕ)) (finite x) 1 = _
    rw [nextMean_finite _ _ one_ne_zero]
    simp
  min := ⟨x, rfl, by simp⟩
  max := ⟨x, rfl, by simp⟩

variable {r : Running ExactDouble} {l : List ℚ}

theorem setOf_mem_concat (l : List ℚ) (x : ℚ) : {y | y ∈ l ++ [x]} = insert x {y | y ∈ l} := by
  ext y
  simp [or_comm]

theorem min_push {m : ℚ} (hm : r.min = finite m) (x : ℚ) :
    (r.push (finite x)).min = finite (x ⊓ m) := by
  change (if Scalar.lt (finite x) r.min then finite x else r.min) = _
  rw [hm, min_def_lt, apply_ite finite]
  exact if_congr decide_eq_true_iff rfl rfl

theorem max_push {m : ℚ} (hm : r.max = finite m) (x : ℚ) :
    (r.push (finite x)).max = finite (x ⊔ m) := by
  change (if Scalar.lt r.max (finite x) then finite x else r.max) = _
  rw [hm, max_comm, max_def_lt, apply_ite finite]
  exact if_congr decide_eq_true_iff rfl rfl

/-- One observation more: the mean times the number of observations is their sum, before and
after. -/
theorem mean_push (hcount : r.count = l.length) (hmean : r.mean = finite (l.sum / l.length))
    (hne : l ≠ []) (x : ℚ) :
    (r.push (finite x)).mean = finite ((l ++ [x]).sum / (l ++ [x]).length) := by
  have hlength : (l.length : ℚ) ≠ 0 := by simpa using hne
  have hnext : (l.length : ℚ) + 1 ≠ 0 := by positivity
  change nextMean r.mean (finite x) (r.count + 1) = _
  rw [hmean, hcount, nextMean_finite _ _ (Nat.succ_ne_zero _), List.sum_append,
    List.sum_singleton, List.length_append, List.length_singleton]
  congr 1
  push_cast
  field_simp
  ring

/-- One observation more. -/
theorem Summarises.push (h : r.Summarises l) (hne : l ≠ []) (x : ℚ) :
    (r.push (finite x)).Summarises (l ++ [x]) := by
  obtain ⟨least, hmin, hleast⟩ := h.min
  obtain ⟨greatest, hmax, hgreatest⟩ := h.max
  refine ⟨?_, mean_push h.count h.mean hne x, ⟨_, min_push hmin x, ?_⟩, ⟨_, max_push hmax x, ?_⟩⟩
  · rw [List.length_append, List.length_singleton, ← h.count]
    rfl
  · rw [setOf_mem_concat]
    exact hleast.insert x
  · rw [setOf_mem_concat]
    exact hgreatest.insert x

/-- The running statistics are right after every observation. -/
theorem Summarises.foldl_push (h : r.Summarises l) (hne : l ≠ []) (l' : List ℚ) :
    ((l'.map finite).foldl Running.push r).Summarises (l ++ l') := by
  induction l' generalizing r l with
  | nil => simpa using h
  | cons x l' ih =>
    have hstep := ih (h.push hne x) (List.concat_ne_nil x l)
    simpa using hstep

theorem summarises_ofList (hne : l ≠ []) :
    ∃ r, ofList (l.map finite) = some r ∧ r.Summarises l := by
  cases l with
  | nil => exact absurd rfl hne
  | cons x l => exact ⟨_, rfl, (summarises_first x).foldl_push (List.cons_ne_nil x []) l⟩

end Running

/-! ### Percentiles -/

theorem place_eq_finite (p : Percentile) (n : ℕ) :
    (Scalar.ofNat p.hundredths / Scalar.ofNat 10000 * Scalar.ofNat (n - 1) : ExactDouble) =
      finite (p.place n) := by
  rw [ExactDouble.ofNat_div_ofNat _ (by decide)]
  rfl

/-- The percentile of sorted numbers is calculated as if there was nothing else. -/
theorem percentileOfSorted_map_finite (sorted : Array ℚ) (p : Percentile) :
    percentileOfSorted (sorted.map finite) p = (percentileOfSorted sorted p).map finite := by
  have hplace : (Scalar.ofNat p.hundredths / Scalar.ofNat 10000 *
      Scalar.ofNat (sorted.size - 1) : ℚ) = p.place sorted.size := rfl
  by_cases hempty : sorted = #[]
  · subst hempty
    simp [percentileOfSorted]
  · have hempty' : sorted.map finite ≠ #[] := fun h => hempty (Array.map_eq_empty_iff.mp h)
    simp only [percentileOfSorted, Array.isEmpty_iff, if_neg hempty, if_neg hempty',
      Array.size_map, Array.getElem?_map, place_eq_finite, hplace, ExactDouble.floor_finite,
      ExactDouble.ceil_finite]
    cases sorted[Scalar.floor (p.place sorted.size)]? <;>
      cases sorted[Scalar.ceil (p.place sorted.size)]? <;> rfl

namespace TrendSummary

/-- The percentiles of numbers are calculated as if there was nothing else. -/
theorem quantiles_map_finite (mode : PercentileMode) (l : List ℚ) (p : Percentile) :
    quantiles mode (l.map finite) p = (quantiles mode l p).map finite := by
  cases mode with
  | exact =>
    have hsort : (l.map finite).mergeSort Scalar.le = (l.mergeSort Scalar.le).map finite :=
      (List.map_mergeSort (f := finite) fun _ _ _ _ => rfl).symm
    change percentileOfSorted ((l.map finite).mergeSort Scalar.le).toArray p = _
    rw [hsort, ← List.map_toArray, percentileOfSorted_map_finite]
    rfl
  | approximate =>
    have hrecord : (l.map finite).foldl (fun h x => h.record (micros x)) Histogram.empty =
        l.foldl (fun h x => h.record (micros x)) Histogram.empty := List.foldl_map
    change some (Scalar.ofNat (Histogram.valueAt _ _) / Scalar.ofNat 1000) = _
    rw [hrecord, ExactDouble.ofNat_div_ofNat p.hundredths (by decide),
      ExactDouble.ofNat_div_ofNat _ (by decide)]
    rfl

/-- Numbers have every percentile. -/
theorem exists_quantile (mode : PercentileMode) {l : List ℚ} (hne : l ≠ []) (p : Percentile) :
    ∃ q, quantiles mode l p = some q := by
  cases mode with
  | approximate => exact ⟨_, rfl⟩
  | exact =>
    have hpos : 0 < (l.mergeSort (· ≤ ·)).toArray.size := by
      simpa [List.length_pos_iff] using hne
    exact ⟨_, (congrFun (quantiles_exact l) p).trans (percentileOfSorted_eq hpos p)⟩

/-! ### What is reported -/

/-- What a trend of some numbers reports. -/
structure IsDefinedBy (t : TrendSummary ExactDouble) (mode : PercentileMode) (ps : List Percentile)
    (xs : List ℚ) : Prop where
  /-- It counts them. -/
  count : t.count = xs.length
  /-- Without any there is nothing else. -/
  absent : xs = [] → t.avg = none ∧ t.min = none ∧ t.max = none ∧ t.med = none ∧
    ∀ p, t.percentiles.get? p = none
  /-- The mean is their sum, divided by their number. -/
  avg : xs ≠ [] → t.avg = some (finite (xs.sum / xs.length))
  /-- The least of them. -/
  min : xs ≠ [] → ∃ m, t.min = some (finite m) ∧ IsLeast {x | x ∈ xs} m
  /-- The greatest of them. -/
  max : xs ≠ [] → ∃ m, t.max = some (finite m) ∧ IsGreatest {x | x ∈ xs} m
  /-- There is a median, which is that of the numbers alone. -/
  med : xs ≠ [] → ∃ q, t.med = some (finite q) ∧ quantiles mode xs .median = some q
  /-- There is every percentile that was asked for, which is that of the numbers alone. -/
  percentile : xs ≠ [] → ∀ p ∈ ps, ∃ q, t.percentiles.get? p = some (finite q) ∧
    quantiles mode xs p = some q
  /-- There is no other percentile. -/
  unasked : ∀ p ∉ ps, t.percentiles.get? p = none

theorem isDefinedBy_empty (mode : PercentileMode) (ps : List Percentile) :
    (empty : TrendSummary ExactDouble).IsDefinedBy mode ps [] where
  count := rfl
  absent _ := ⟨rfl, rfl, rfl, rfl, fun _ => rfl⟩
  avg h := absurd rfl h
  min h := absurd rfl h
  max h := absurd rfl h
  med h := absurd rfl h
  percentile h := absurd rfl h
  unasked _ _ := rfl

theorem isDefinedBy_ofValues (mode : PercentileMode) (ps : List Percentile)
    {values : List ExactDouble} {xs : List ℚ}
    (hxs : values.filter Scalar.isFinite = xs.map finite) :
    (ofValues mode ps values).IsDefinedBy mode ps xs := by
  rcases eq_or_ne xs [] with rfl | hne
  · rw [ofValues_of_nil hxs]
    exact isDefinedBy_empty mode ps
  · have hne' : values.filter Scalar.isFinite ≠ [] := by simpa [hxs] using hne
    obtain ⟨r, hr, heq⟩ := ofValues_of_ne_nil mode ps hne'
    obtain ⟨r', hr', hsummary⟩ := Running.summarises_ofList hne
    rw [hxs, hr', Option.some.injEq] at hr
    subst hr
    have hquantile (p : Percentile) : ∃ q,
        quantiles mode (values.filter Scalar.isFinite) p = some (finite q) ∧
          quantiles mode xs p = some q := by
      obtain ⟨q, hq⟩ := exists_quantile mode hne p
      exact ⟨q, by rw [hxs, quantiles_map_finite, hq, Option.map_some], hq⟩
    rw [heq]
    refine ⟨hsummary.count, fun h => absurd h hne, fun _ => congrArg some hsummary.mean,
      fun _ => ?min, fun _ => ?max, fun _ => hquantile _, fun _ p hp => ?percentile,
      fun p hp => ?unasked⟩
    case min =>
      obtain ⟨m, hm, hleast⟩ := hsummary.min
      exact ⟨m, congrArg some hm, hleast⟩
    case max =>
      obtain ⟨m, hm, hgreatest⟩ := hsummary.max
      exact ⟨m, congrArg some hm, hgreatest⟩
    case percentile =>
      rw [get?_tabulate, if_pos hp]
      exact hquantile p
    case unasked => rw [get?_tabulate, if_neg hp]

end TrendSummary

/-! ### Extremes in doubles -/

/-- The same running statistics in doubles, as far as they are only compared. -/
structure Running.SameExtremes (s : Running Float) (r : Running ExactDouble) : Prop where
  /-- The least one is a number. -/
  isFinite_min : Binary64.isFinite s.min = true
  /-- The greatest one is a number. -/
  isFinite_max : Binary64.isFinite s.max = true
  /-- The same least one. -/
  min : r.min = .ofFloat s.min
  /-- The same greatest one. -/
  max : r.max = .ofFloat s.max

theorem Binary64.isFinite_ite {x y : Float} (keep : Bool) (hx : isFinite x = true)
    (hy : isFinite y = true) : isFinite (if keep then x else y) = true := by
  cases keep with
  | true => exact hx
  | false => exact hy

/-- One observation more. -/
theorem Running.SameExtremes.push {s : Running Float} {r : Running ExactDouble}
    (h : s.SameExtremes r) {x : Float} (hx : Binary64.isFinite x = true) :
    (s.push x).SameExtremes (r.push (.ofFloat x)) := by
  refine ⟨Binary64.isFinite_ite _ hx h.isFinite_min, Binary64.isFinite_ite _ hx h.isFinite_max,
    ?min, ?max⟩
  case min =>
    change (if Scalar.lt (.ofFloat x) r.min then .ofFloat x else r.min) = _
    rw [h.min, ExactDouble.lt_ofFloat hx h.isFinite_min, ← apply_ite ExactDouble.ofFloat]
    rfl
  case max =>
    change (if Scalar.lt r.max (.ofFloat x) then .ofFloat x else r.max) = _
    rw [h.max, ExactDouble.lt_ofFloat h.isFinite_max hx, ← apply_ite ExactDouble.ofFloat]
    rfl

theorem Running.SameExtremes.foldl_push {s : Running Float} {r : Running ExactDouble}
    (h : s.SameExtremes r) {xs : List Float} (hxs : ∀ x ∈ xs, Binary64.isFinite x = true) :
    (xs.foldl Running.push s).SameExtremes ((xs.map .ofFloat).foldl Running.push r) := by
  induction xs generalizing s r with
  | nil => exact h
  | cons x xs ih =>
    obtain ⟨hx, hxs⟩ := List.forall_mem_cons.mp hxs
    exact ih (h.push hx) hxs

theorem Running.sameExtremes_ofList {xs : List Float}
    (hxs : ∀ x ∈ xs, Binary64.isFinite x = true) {s : Running Float} {r : Running ExactDouble}
    (hs : ofList xs = some s) (hr : ofList (xs.map .ofFloat) = some r) : s.SameExtremes r := by
  cases xs with
  | nil => cases hs
  | cons x xs =>
    obtain ⟨hx, hxs⟩ := List.forall_mem_cons.mp hxs
    have hfirst : (first x).SameExtremes (first (.ofFloat x)) := ⟨hx, hx, rfl, rfl⟩
    cases hs
    cases hr
    exact hfirst.foldl_push hxs

namespace TrendSummary

/-- The same trend in doubles: what is only counted and compared is the same. -/
structure SameExtremes (s : TrendSummary Float) (t : TrendSummary ExactDouble) : Prop where
  /-- As many observations. -/
  count : t.count = s.count
  /-- The same least one. -/
  min : t.min = s.min.map .ofFloat
  /-- The same greatest one. -/
  max : t.max = s.max.map .ofFloat

theorem sameExtremes_ofValues (mode : PercentileMode) (ps : List Percentile)
    (values : List Float) :
    (ofValues mode ps values).SameExtremes (ofValues mode ps (values.map .ofFloat)) := by
  have hfilter := ExactDouble.filter_map_ofFloat values
  by_cases hempty : values.filter (Scalar.isFinite : Float → Bool) = []
  · have hempty' : (values.map .ofFloat).filter (Scalar.isFinite : ExactDouble → Bool) = [] :=
      hfilter.trans (congrArg (List.map ExactDouble.ofFloat) hempty)
    rw [ofValues_of_nil hempty, ofValues_of_nil hempty']
    exact ⟨rfl, rfl, rfl⟩
  · have hempty' : (values.map .ofFloat).filter (Scalar.isFinite : ExactDouble → Bool) ≠ [] :=
      fun h => hempty (List.map_eq_nil_iff.mp (hfilter.symm.trans h))
    obtain ⟨s, hs, hseq⟩ := ofValues_of_ne_nil mode ps hempty
    obtain ⟨r, hr, hreq⟩ := ofValues_of_ne_nil mode ps hempty'
    rw [hfilter] at hr
    have hsame := Running.sameExtremes_ofList (fun x hx => (List.mem_filter.mp hx).2) hs hr
    rw [hseq, hreq]
    refine ⟨?_, congrArg some hsame.min, congrArg some hsame.max⟩
    exact (Running.count_of_ofList hr).trans
      ((List.length_map _).trans (Running.count_of_ofList hs).symm)

/-- **The statistics of a trend equal their definitions.** -/
theorem statistics_are_as_defined (mode : PercentileMode) (ps : List Percentile)
    (values : List Float) :
    (ofValues mode ps (values.map .ofFloat)).IsDefinedBy mode ps
        ((values.filter Binary64.isFinite).map Binary64.value) ∧
      (ofValues mode ps values).SameExtremes (ofValues mode ps (values.map .ofFloat)) :=
  ⟨isDefinedBy_ofValues mode ps ((ExactDouble.filter_map_ofFloat values).trans
    (ExactDouble.map_ofFloat_filter values)), sameExtremes_ofValues mode ps values⟩

/-- What is not finite does not count, and alone it has no mean. -/
example :
    let t := ofValues .exact [] [ExactDouble.finite 3, .special]
    t.count = 1 ∧ t.avg = some (.finite 3) ∧ t.med = some (.finite 3) ∧
      (ofValues .exact [] [ExactDouble.special]).avg = none := by
  decide +kernel

end TrendSummary

end StagedLoad
