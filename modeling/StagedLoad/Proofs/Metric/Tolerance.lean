import StagedLoad.Metric.Percentile
import StagedLoad.Proofs.Decimal.Literal

/-!
# How near a number has to be to a percentile

A percentile is looked for in doubles: the number is rounded to one, and so is its hundredfold,
which may then be off from a whole number of hundredths by a millionth.  So every number with at
most two decimals is found, and so are all that lie within a millionth of a hundredth of one, up to
what three roundings may add or take away.

## Main definitions

* `Percentile.allowance`, `Percentile.blur` — the tolerance, and what roundings do to it.
* `Percentile.ReadFor` — which percentiles are read for a number.

## Main results

* `Percentile.ofPercent?_eq_some_iff` — what is asked of a double.
* `Percentile.readFor_ofPercent?` — **which percentiles are read for a double** that stands for
  a number.
-/

namespace StagedLoad.Percentile

open Binary64

/-- How far from a whole number of hundredths a number may lie. -/
def allowance : ℚ := 1 / 10 ^ 6

/-- More than roundings may add to that or take away from it. -/
def blur : ℚ := 1 / 10 ^ 11

/-- Which percentiles are read for a number: none that it is not near to, and each that it is well
within the tolerance of. -/
structure ReadFor (v : ℚ) (reads : Percentile → Prop) : Prop where
  /-- What is read is near. -/
  near : ∀ p, reads p → |100 * v - p.hundredths| ≤ allowance + blur
  /-- What is near enough is read. -/
  of_near : ∀ p : Percentile, |100 * v - p.hundredths| ≤ allowance - blur → reads p

/-- Where there is no number of two decimals that is near without being the same, a percentile is
read exactly if it is the number. -/
theorem ReadFor.reads_iff {v : ℚ} {reads : Percentile → Prop} (h : ReadFor v reads)
    (hfar : ∀ n : Nat, 100 * v ≠ n → allowance + blur < |100 * v - n|) (p : Percentile) :
    reads p ↔ 100 * v = p.hundredths := by
  constructor
  · intro hp
    by_contra hne
    exact absurd (h.near p hp) (not_le.mpr (hfar p.hundredths hne))
  · intro hp
    refine h.of_near p ?_
    rw [hp, sub_self, abs_zero, allowance, blur]
    norm_num

/-- A number of at most two decimals is not near to another one. -/
theorem far_of_whole {v : ℚ} {k : Int} (hv : 100 * v = k) :
    ∀ n : Nat, 100 * v ≠ n → allowance + blur < |100 * v - n| := by
  intro n hn
  rw [hv] at hn ⊢
  have hne : k - n ≠ 0 := fun hzero => hn (by exact_mod_cast sub_eq_zero.mp hzero)
  have hone : (1 : ℚ) ≤ |(k : ℚ) - n| := by exact_mod_cast Int.one_le_abs hne
  refine lt_of_lt_of_le ?_ hone
  rw [allowance, blur]
  norm_num

/-! ### What is asked of a double -/

theorem ofPercent?_eq_some_iff {percent : Float} {p : Percentile} :
    ofPercent? percent = some p ↔
      isFinite (percent * 100) = true ∧ round (percent * 100) = p.hundredths ∧
        ¬ tolerance < percent * 100 - ofNat p.hundredths ∧
        ¬ tolerance < -(percent * 100 - ofNat p.hundredths) := by
  have hpos := p.pos
  have hle := p.le
  constructor
  · intro h
    unfold ofPercent? at h
    dsimp only at h
    split at h
    case isTrue => cases h
    case isFalse hfinite =>
      split at h
      case isTrue hrange =>
        split at h
        case isTrue => cases h
        case isFalse hoff =>
          simp only [gt_iff_lt, Bool.or_eq_true, decide_eq_true_eq, not_or] at hoff
          cases h
          refine ⟨by simpa using hfinite, ?_, hoff⟩
          dsimp only
          omega
      case isFalse => cases h
  · rintro ⟨hfinite, hround, hoff⟩
    have hn : (round (percent * 100)).toNat = p.hundredths := by omega
    have hrange : 1 ≤ (round (percent * 100)).toNat ∧ (round (percent * 100)).toNat ≤ 10000 := by
      omega
    unfold ofPercent?
    dsimp only
    rw [if_neg (by simp [hfinite]), dif_pos hrange, if_neg ?_]
    · exact congrArg some (Percentile.ext hn)
    · simp only [gt_iff_lt, Bool.or_eq_true, decide_eq_true_eq, not_or, hn]
      exact hoff

/-! ### Roundings on the way -/

variable {x : Float} {v : ℚ}

/-- The tolerance is the double nearest to a millionth. -/
theorem value_tolerance :
    isFinite tolerance = true ∧ |value tolerance - allowance| ≤ 1 / 10 ^ 20 := by
  have hdecode : decode tolerance = .finite false 4722366482869645 (-72) := by decide +kernel
  refine ⟨by rw [isFinite, hdecode], ?_⟩
  rw [value_of_decode hdecode]
  change |weight 4722366482869645 (-72) - allowance| ≤ _
  rw [weight, allowance, abs_le]
  norm_num

theorem rounds_scaled (hx : isFinite x = true) : Rounds (x * 100) (value x * 100) := by
  have h := rounds_mul hx value_hundred.1
  rwa [value_hundred.2] at h

/-- The hundredfold of a number that is not far out of range. -/
theorem abs_scaled_sub_le (h : Rounds x v) (hv : |100 * v| ≤ 10004) :
    isFinite (x * 100) = true ∧ |value (x * 100) - 100 * v| ≤ 5 / 10 ^ 12 := by
  have hv' : |v| ≤ 10004 / 100 := by
    rw [abs_mul, abs_of_pos (by norm_num : (0 : ℚ) < 100)] at hv
    linarith
  obtain ⟨hx, hfirst⟩ := h.near_of_abs_le hv' (by norm_num)
  have hvalue : |value x * 100| ≤ 10005 := by
    rw [abs_le] at hfirst hv ⊢
    constructor <;> linarith
  obtain ⟨hs, hsecond⟩ := (rounds_scaled hx).near_of_abs_le hvalue (by norm_num)
  refine ⟨hs, ?_⟩
  rw [abs_le] at hfirst hsecond ⊢
  constructor <;> linarith

/-- A number whose hundredfold is in range as a double is not far out of it. -/
theorem abs_le_of_scaled (h : Rounds x v) (hs : isFinite (x * 100) = true)
    (hbound : |value (x * 100)| ≤ 10001) : |100 * v| ≤ 10004 := by
  have hx := isFinite_left_of_mul hs
  have hfirst := h.abs_sub_le hx
  have hsecond := (rounds_scaled hx).abs_sub_le hs
  have hleast := Rounds.least_le
  have habs : |value x * 100| ≤ |value (x * 100)| + |value (x * 100) - value x * 100| := by
    rw [abs_sub_comm]
    have := abs_add_le (value (x * 100)) (value x * 100 - value (x * 100))
    rwa [add_sub_cancel] at this
  have habs' : |v| ≤ |value x| + |value x - v| := by
    rw [abs_sub_comm]
    have := abs_add_le (value x) (v - value x)
    rwa [add_sub_cancel] at this
  rw [abs_mul, abs_of_pos (by norm_num : (0 : ℚ) < 100)] at habs hsecond ⊢
  linarith

/-- The difference that is compared with the tolerance. -/
theorem value_off {s : Float} {n : Nat} (hs : isFinite s = true) (hn : n ≤ 10000)
    (hclose : |value s - n| ≤ 1 / 2) :
    isFinite (s - ofNat n) = true ∧ |value (s - ofNat n) - (value s - n)| ≤ 1 / 10 ^ 15 := by
  have hword : n ≤ maxWord := by
    unfold maxWord
    omega
  have hrounds := rounds_sub hs (isFinite_ofNat hword)
  rw [value_ofNat (by omega)] at hrounds
  obtain ⟨hfinite, hnear⟩ := hrounds.near_of_abs_le hclose (by norm_num)
  exact ⟨hfinite, hnear.trans (by norm_num)⟩

/-- The two comparisons are one of the magnitude. -/
theorem not_tolerance_lt_iff {y : Float} (hy : isFinite y = true) :
    ¬ tolerance < y ∧ ¬ tolerance < -y ↔ |value y| ≤ value tolerance := by
  rw [lt_iff value_tolerance.1 hy, lt_iff value_tolerance.1 (isFinite_neg hy), value_neg hy, not_lt,
    not_lt, abs_le, neg_le, and_comm]

/-! ### What is read -/

/-- **Which percentiles are read for a double** that stands for a number. -/
theorem readFor_ofPercent? (h : Rounds x v) : ReadFor v fun p => ofPercent? x = some p where
  near := by
    intro p hp
    obtain ⟨hs, hround, hoff⟩ := ofPercent?_eq_some_iff.mp hp
    have hle := p.le
    have hn : (p.hundredths : ℚ) ≤ 10000 := by exact_mod_cast hle
    have hclose : |value (x * 100) - p.hundredths| ≤ 1 / 2 := by
      have := abs_round_sub_le hs
      rwa [hround, abs_sub_comm] at this
    obtain ⟨hfinite, hdifference⟩ := value_off hs hle hclose
    have hsmall := (not_tolerance_lt_iff hfinite).mp hoff
    have hmost := value_tolerance.2
    have hbound : |value (x * 100)| ≤ 10001 := by
      have : (0 : ℚ) ≤ p.hundredths := Nat.cast_nonneg _
      rw [abs_le] at hclose ⊢
      constructor <;> linarith
    have hscaled := (abs_scaled_sub_le h (abs_le_of_scaled h hs hbound)).2
    rw [abs_le] at hdifference hsmall hmost hscaled ⊢
    unfold blur
    constructor <;> linarith
  of_near := by
    intro p hp
    have hle := p.le
    have hn : (p.hundredths : ℚ) ≤ 10000 := by exact_mod_cast hle
    have hpos : (0 : ℚ) ≤ p.hundredths := Nat.cast_nonneg _
    unfold allowance blur at hp
    rw [abs_le] at hp
    obtain ⟨hs, hscaled⟩ := abs_scaled_sub_le h (by rw [abs_le]; constructor <;> linarith)
    rw [abs_le] at hscaled
    have hclose : |value (x * 100) - p.hundredths| ≤ 1 / 10 ^ 6 - 4 / 10 ^ 12 := by
      rw [abs_le]
      constructor <;> linarith
    have hround : round (x * 100) = p.hundredths :=
      round_eq hs (by rw [Int.cast_natCast]; exact hclose.trans_lt (by norm_num))
    obtain ⟨hfinite, hdifference⟩ := value_off hs hle (hclose.trans (by norm_num))
    have hmost := value_tolerance.2
    refine ofPercent?_eq_some_iff.mpr ⟨hs, hround, (not_tolerance_lt_iff hfinite).mpr ?_⟩
    unfold allowance at hmost
    rw [abs_le] at hclose hdifference hmost ⊢
    constructor <;> linarith

end StagedLoad.Percentile
