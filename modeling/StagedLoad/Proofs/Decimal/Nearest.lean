import StagedLoad.Proofs.Decimal.Value

/-!
# What a number is rounded to

Rounding drops the bits for which there is no room, and what they tell decides between the two
neighbours.  A rounded number lies on the same side of every double as the number itself, so a
number that is that of a double is not changed; and it is off by half a unit of its last place at
most.

## Main definitions

* `Binary64.Tells` — what a mantissa and its dropped bits tell of a number.
* `Binary64.Nearest` — what has been rounded, and from which number.
* `Binary64.Rounds` — the same of a double, which may be out of range.

## Main results

* `Binary64.nearest_roundWithAccuracy`, `Binary64.nearest_round` — rounding does that.
* `Binary64.Rounds.isFinite`, `Binary64.Rounds.abs_sub_le`, `Binary64.Rounds.value_le`,
  `Binary64.Rounds.near_of_abs_le` — what is known of such a double.
-/

namespace StagedLoad.Binary64

open Float.Model Float.Model.UnpackedFloat

/-! ### Dropped bits -/

/-- A number lies at a mantissa or above it: half a unit if the round bit is set, and something
more, but less than half a unit, if the sticky bit is. -/
def Tells (em : ExtendedMantissa) (t : ℚ) : Prop :=
  ∃ rest : ℚ, 0 ≤ rest ∧ rest < 1 / 2 ∧ (em.stickyBit = true ↔ 0 < rest) ∧
    t = em.mantissa + em.roundBit.toNat / 2 + rest

variable {em : ExtendedMantissa} {t : ℚ} {s : Sign} {m n : Nat} {e : Int} {x y : Float}

theorem tells_exact (m : Nat) : Tells ⟨m, false, false⟩ m :=
  ⟨0, le_rfl, by norm_num, by simp, by simp⟩

theorem tells_fraction (m : Nat) {num den : Nat} (h : num < den) :
    Tells (.ofMantissaAndAccuracy m (accuracyOfFraction num den)) (m + num / den) := by
  have hden : (0 : ℚ) < den := Nat.cast_pos.mpr (Nat.zero_lt_of_lt h)
  have hlt : (num : ℚ) / den < 1 := (div_lt_one hden).mpr (Nat.cast_lt.mpr h)
  unfold accuracyOfFraction
  by_cases hzero : num = 0
  · rw [if_pos hzero, hzero, Nat.cast_zero, zero_div, add_zero]
    exact tells_exact m
  · have hpos : (0 : ℚ) < num / den := div_pos (Nat.cast_pos.mpr (Nat.pos_of_ne_zero hzero)) hden
    rw [if_neg hzero]
    cases hcompare : compare (2 * num) den with
    | lt =>
      have hhalf : (num : ℚ) / den < 1 / 2 := by
        have : (2 * num : ℚ) < den := by exact_mod_cast Nat.compare_eq_lt.mp hcompare
        rw [div_lt_div_iff₀ hden two_pos]
        linarith
      exact ⟨num / den, hpos.le, hhalf, iff_of_true rfl hpos,
        by simp [ExtendedMantissa.ofMantissaAndAccuracy]⟩
    | eq =>
      have hhalf : (num : ℚ) / den = 1 / 2 := by
        have : (2 * num : ℚ) = den := by exact_mod_cast Nat.compare_eq_eq.mp hcompare
        rw [div_eq_div_iff hden.ne' two_ne_zero]
        linarith
      exact ⟨0, le_rfl, by norm_num, iff_of_false Bool.false_ne_true (lt_irrefl 0),
        by simp [ExtendedMantissa.ofMantissaAndAccuracy, hhalf]⟩
    | gt =>
      have hhalf : 1 / 2 < (num : ℚ) / den := by
        have : (den : ℚ) < 2 * num := by exact_mod_cast Nat.compare_eq_gt.mp hcompare
        rw [div_lt_div_iff₀ two_pos hden]
        linarith
      refine ⟨num / den - 1 / 2, by linarith, by linarith, iff_of_true rfl (by linarith), ?_⟩
      simp only [ExtendedMantissa.ofMantissaAndAccuracy, Bool.toNat_true, Nat.cast_one]
      ring

/-- Dropping one bit more. -/
theorem Tells.shiftRightOne (h : Tells em t) : Tells em.shiftRightOne (t / 2) := by
  obtain ⟨m, roundBit, stickyBit⟩ := em
  obtain ⟨rest, hnonneg, hlt, hsticky, rfl⟩ := h
  dsimp only at hsticky
  have hsplit : (m : ℚ) = 2 * (m / 2 : Nat) + (m % 2 : Nat) := by
    exact_mod_cast (Nat.div_add_mod m 2).symm
  have hbit : (m % 2 != 0).toNat = m % 2 := by
    rcases Nat.mod_two_eq_zero_or_one m with hm | hm <;> rw [hm] <;> rfl
  have hround : (0 : ℚ) ≤ roundBit.toNat ∧ (roundBit.toNat : ℚ) ≤ 1 := by
    cases roundBit <;> simp
  -- the bit that was the round bit is among the rest now
  refine ⟨roundBit.toNat / 4 + rest / 2, by linarith, by linarith, ?_, ?_⟩
  · cases roundBit with
    | false =>
      simp only [ExtendedMantissa.shiftRightOne, Bool.false_or, hsticky, Bool.toNat_false,
        Nat.cast_zero]
      constructor <;> intro h <;> linarith
    | true =>
      simp only [ExtendedMantissa.shiftRightOne, Bool.true_or, true_iff, Bool.toNat_true,
        Nat.cast_one]
      linarith
  · simp only [ExtendedMantissa.shiftRightOne, hbit]
    linarith

/-- Dropping some bits more. -/
theorem Tells.shiftRight (h : Tells em t) (n : Nat) : Tells (em >>> n) (t / 2 ^ n) := by
  induction n with
  | zero =>
    rw [pow_zero, div_one]
    exact h
  | succ n ih =>
    have hstep : em >>> (n + 1) = (em >>> n).shiftRightOne := rfl
    rw [hstep, pow_succ, ← div_div]
    exact ih.shiftRightOne

theorem Tells.mantissa_le (h : Tells em t) : (em.mantissa : ℚ) ≤ t := by
  obtain ⟨rest, hnonneg, -, -, rfl⟩ := h
  have : (0 : ℚ) ≤ em.roundBit.toNat := Nat.cast_nonneg _
  linarith

theorem Tells.lt_mantissa_add_one (h : Tells em t) : t < em.mantissa + 1 := by
  obtain ⟨rest, -, hlt, -, rfl⟩ := h
  have : (em.roundBit.toNat : ℚ) ≤ 1 := by exact_mod_cast Bool.toNat_le em.roundBit
  linarith

/-- The rounded mantissa is half a unit away at most. -/
theorem Tells.abs_sub_le (h : Tells em t) : |(em.roundedMantissa : ℚ) - t| ≤ 1 / 2 := by
  obtain ⟨m, roundBit, stickyBit⟩ := em
  obtain ⟨rest, hnonneg, hlt, hsticky, rfl⟩ := h
  dsimp only at hsticky
  have hparity : (0 : ℚ) ≤ (m % 2 : Nat) ∧ ((m % 2 : Nat) : ℚ) ≤ 1 := by
    rcases Nat.mod_two_eq_zero_or_one m with hm | hm <;> rw [hm] <;> simp
  rw [abs_le]
  cases roundBit <;> cases stickyBit <;>
    simp only [ExtendedMantissa.roundedMantissa, ExtendedMantissa.accuracy,
      Accuracy.roundToNearestEven, Bool.toNat_false, Bool.toNat_true, Nat.cast_add, Nat.cast_zero,
      Nat.cast_one, Bool.false_eq_true, false_iff, true_iff, not_lt] at hsticky ⊢ <;>
    constructor <;> linarith

/-- Rounding passes no mantissa above the number. -/
theorem Tells.roundedMantissa_le (h : Tells em t) {k : Nat} (hk : t ≤ k) :
    em.roundedMantissa ≤ k := by
  have hfloor : em.mantissa ≤ k := Nat.cast_le.mp (h.mantissa_le.trans hk)
  rcases Nat.eq_or_lt_of_le (mantissa_le_roundedMantissa em) with heq | hlt
  · omega
  · have hup := Binary64.roundedMantissa_le em
    have hround := roundBit_of_lt_roundedMantissa hlt
    obtain ⟨rest, hnonneg, -, -, rfl⟩ := h
    rw [hround, Bool.toNat_true, Nat.cast_one] at hk
    have hstrict : (em.mantissa : ℚ) < k := by linarith
    have := Nat.cast_lt.mp hstrict
    omega

/-- Nor does it pass one below it. -/
theorem Tells.le_roundedMantissa (h : Tells em t) {k : Nat} (hk : k ≤ t) :
    k ≤ em.roundedMantissa := by
  have hstrict : (k : ℚ) < (em.mantissa + 1 : Nat) := by
    push_cast
    exact lt_of_le_of_lt hk h.lt_mantissa_add_one
  have := Nat.cast_lt.mp hstrict
  have := mantissa_le_roundedMantissa em
  omega

/-! ### Rounding -/

/-- What a number is rounded to, as if there were no greatest exponent. -/
structure Nearest (t : ℚ) (u : UnpackedFloat) : Prop where
  /-- It has a mantissa and an exponent as they stand in a double. -/
  rounded : IsRounded u
  /-- It is off by half a unit of its last place at most. -/
  near : |rational u - t| ≤ |t| / 2 ^ 53 + 2 ^ (-1075 : Int)
  /-- It passes nothing that lies above the number. -/
  le : ∀ v, IsRounded v → t ≤ rational v → rational u ≤ rational v
  /-- It passes nothing that lies below the number. -/
  ge : ∀ v, IsRounded v → rational v ≤ t → rational v ≤ rational u

theorem Nearest.neg {u : UnpackedFloat} (h : Nearest t u) : Nearest (-t) u.neg where
  rounded := h.rounded.neg
  near := by
    rw [rational_neg, abs_neg, neg_sub_neg, abs_sub_comm]
    exact h.near
  le := by
    intro v hv hle
    rw [rational_neg, neg_le, ← rational_neg]
    exact h.ge _ hv.neg (by rw [rational_neg]; exact neg_le.mp hle)
  ge := by
    intro v hv hle
    rw [rational_neg, le_neg, ← rational_neg]
    exact h.le _ hv.neg (by rw [rational_neg]; exact le_neg.mp hle)

/-- What needs no rounding. -/
theorem nearest_self {u : UnpackedFloat} (h : IsRounded u) : Nearest (rational u) u where
  rounded := h
  near := by
    rw [sub_self, abs_zero]
    have : (0 : ℚ) ≤ |rational u| / 2 ^ 53 := div_nonneg (abs_nonneg _) (by norm_num)
    have : (0 : ℚ) ≤ 2 ^ (-1075 : Int) := zpow_nonneg zero_le_two _
    linarith
  le := fun _ _ hle => hle
  ge := fun _ _ hle => hle

/-- What becomes of a rounded mantissa: it is halved if rounding has made one bit too many. -/
def settle (s : Sign) (r : Nat) (e : Int) : UnpackedFloat :=
  let (em, e') := shiftToTargetExponent Format.binary64 r e .exact
  if h : em.mantissa = 0 then .zero s else .finite s em.mantissa e' (Nat.pos_of_ne_zero h)

/-- A mantissa of at most 53 bits stays where it is, and halving keeps the number. -/
theorem settle_spec (s : Sign) {r : Nat} {e : Int} (hr : r ≤ 2 ^ 53) (hmin : -1074 ≤ e)
    (hfull : 2 ^ 52 ≤ r ∨ e = -1074) :
    IsRounded (settle s r e) ∧ rational (settle s r e) = signed s (weight r e) := by
  unfold settle
  by_cases hlt : r < 2 ^ 53
  · rw [shiftToTargetExponent_of_lt hlt hmin]
    dsimp only
    split
    case isTrue hzero =>
      refine ⟨.zero s, ?_⟩
      rw [hzero]
      cases s <;> simp [rational, signed, weight]
    case isFalse => exact ⟨.finite s _ ⟨hlt, hmin, hfull⟩, rfl⟩
  · obtain rfl : r = 2 ^ 53 := by omega
    obtain ⟨hmantissa, hexponent⟩ := shiftToTargetExponent_of_eq hmin
    simp only [hmantissa, hexponent]
    rw [dif_neg (by omega)]
    refine ⟨.finite s _ ⟨by omega, by omega, .inl le_rfl⟩, ?_⟩
    exact congrArg (signed s) (weight_add (2 ^ 52) 1 e)

/-- The number of an unpacked double has a mantissa and an exponent, also if it is zero. -/
theorem IsRounded.exists_weight {v : UnpackedFloat} (h : IsRounded v) :
    ∃ s m e, Canonical m e ∧ rational v = signed s (weight m e) := by
  cases h with
  | zero s =>
    refine ⟨s, 0, -1074, ⟨by omega, le_rfl, .inr rfl⟩, ?_⟩
    cases s <;> simp [rational, signed, weight]
  | finite s pos h => exact ⟨s, _, _, h, rfl⟩

/-- A number and its rounded mantissa at an exponent that leaves 53 bits, unless it is the least
exponent. -/
structure RoundedAt (t : ℚ) (r : Nat) (e : Int) : Prop where
  /-- The exponent is in range. -/
  min : -1074 ≤ e
  /-- There are 53 bits at most, and what rounding may add. -/
  le_full : r ≤ 2 ^ 53
  /-- There are as many, or the exponent cannot be less. -/
  full : 2 ^ 52 ≤ t ∧ 2 ^ 52 ≤ r ∨ e = -1074
  /-- Rounding is off by half a unit at most. -/
  near : |(r : ℚ) - t| ≤ 1 / 2
  /-- It passes no mantissa above the number. -/
  le : ∀ k : Nat, t ≤ k → r ≤ k
  /-- It passes no mantissa below the number. -/
  ge : ∀ k : Nat, k ≤ t → k ≤ r

namespace RoundedAt

variable {r m' : Nat} {e' : Int}

/-- No double between the number and what it is rounded to: none above the number. -/
theorem weight_le (h : RoundedAt t r e) (hc : Canonical m' e')
    (hle : t * 2 ^ e ≤ weight m' e') : weight r e ≤ weight m' e' := by
  rcases le_or_gt e e' with he | he
  · obtain ⟨n, rfl⟩ : ∃ n : Nat, e' = e + n := ⟨(e' - e).toNat, by omega⟩
    rw [weight_add] at hle ⊢
    have ht : t ≤ (m' * 2 ^ n : Nat) := le_of_mul_le_mul_right hle (zpow_pos two_pos e)
    exact weight_le_weight (h.le _ ht) le_rfl
  · -- a double of a smaller exponent is not above a number with 53 bits before this one
    have hmin := hc.min
    have hfull := (h.full.resolve_right (by omega)).1
    have hlt : weight m' e' < weight (2 ^ 52) e :=
      weight_lt_of_exponent_lt hc ⟨by omega, h.min, .inl le_rfl⟩ he
    have hnumber : weight (2 ^ 52) e ≤ t * 2 ^ e := by
      refine mul_le_mul_of_nonneg_right ?_ (zpow_nonneg zero_le_two e)
      exact_mod_cast hfull
    exact absurd hle (not_le.mpr (hlt.trans_le hnumber))

/-- And none below it. -/
theorem le_weight (h : RoundedAt t r e) (hc : Canonical m' e')
    (hle : weight m' e' ≤ t * 2 ^ e) : weight m' e' ≤ weight r e := by
  rcases le_or_gt e e' with he | he
  · obtain ⟨n, rfl⟩ : ∃ n : Nat, e' = e + n := ⟨(e' - e).toNat, by omega⟩
    rw [weight_add] at hle ⊢
    have ht : ((m' * 2 ^ n : Nat) : ℚ) ≤ t := le_of_mul_le_mul_right hle (zpow_pos two_pos e)
    exact weight_le_weight (h.ge _ ht) le_rfl
  · have hmin := hc.min
    have hfull := (h.full.resolve_right (by omega)).2
    have hlt : weight m' e' < weight (2 ^ 52) e :=
      weight_lt_of_exponent_lt hc ⟨by omega, h.min, .inl le_rfl⟩ he
    exact hlt.le.trans (weight_le_weight hfull le_rfl)

/-- Half a unit of the last place. -/
theorem abs_weight_sub_le (h : RoundedAt t r e) (ht : 0 ≤ t) :
    |weight r e - t * 2 ^ e| ≤ t * 2 ^ e / 2 ^ 53 + 2 ^ (-1075 : Int) := by
  have hunit : (0 : ℚ) < 2 ^ e := zpow_pos two_pos e
  have hleast : (0 : ℚ) < 2 ^ (-1075 : Int) := zpow_pos two_pos _
  have hhalf : |weight r e - t * 2 ^ e| ≤ 1 / 2 * 2 ^ e := by
    rw [weight, ← sub_mul, abs_mul, abs_of_pos hunit]
    exact mul_le_mul_of_nonneg_right h.near hunit.le
  rcases h.full with hfull | hmin
  · have hshare : 1 / 2 * 2 ^ e ≤ t * 2 ^ e / 2 ^ 53 := by
      rw [le_div_iff₀ (by norm_num)]
      calc 1 / 2 * 2 ^ e * 2 ^ 53 = 2 ^ 52 * (2 : ℚ) ^ e := by ring
        _ ≤ t * 2 ^ e := mul_le_mul_of_nonneg_right hfull.1 hunit.le
    linarith
  · have hsmall : 1 / 2 * (2 : ℚ) ^ e = 2 ^ (-1075 : Int) := by
      rw [hmin, show (-1074 : Int) = -1075 + 1 by decide, zpow_add₀ two_ne_zero]
      ring
    have : 0 ≤ t * 2 ^ e / 2 ^ 53 := div_nonneg (mul_nonneg ht hunit.le) (by norm_num)
    linarith

theorem nearest_positive (h : RoundedAt t r e) (ht : 0 ≤ t) :
    Nearest (t * 2 ^ e) (settle .positive r e) := by
  obtain ⟨hrounded, hrational⟩ := settle_spec .positive h.le_full h.min (h.full.imp_left And.right)
  have hunit : (0 : ℚ) < 2 ^ e := zpow_pos two_pos e
  have hnumber : 0 ≤ t * 2 ^ e := mul_nonneg ht hunit.le
  have hpos : rational (settle .positive r e) = weight r e := hrational
  refine ⟨hrounded, ?_, ?_, ?_⟩
  · rw [hpos, abs_of_nonneg hnumber]
    exact h.abs_weight_sub_le ht
  · intro v hv hle
    obtain ⟨s, m', e', hc, hvalue⟩ := hv.exists_weight
    rw [hvalue] at hle ⊢
    rw [hpos]
    cases s with
    | positive => exact h.weight_le hc hle
    | negative =>
      -- then all of them are zero
      have hw := weight_nonneg m' e'
      simp only [signed] at hle ⊢
      have hzero : t * 2 ^ e = 0 := le_antisymm (by linarith) hnumber
      have hr : r ≤ 0 := h.le 0 (by
        rw [Nat.cast_zero]
        exact ((mul_eq_zero.mp hzero).resolve_right hunit.ne').le)
      have hnone : weight r e = 0 := by rw [Nat.le_zero.mp hr, weight, Nat.cast_zero, zero_mul]
      linarith
  · intro v hv hle
    obtain ⟨s, m', e', hc, hvalue⟩ := hv.exists_weight
    rw [hvalue] at hle ⊢
    rw [hpos]
    cases s with
    | positive => exact h.le_weight hc hle
    | negative =>
      exact (neg_nonpos.mpr (weight_nonneg m' e')).trans (weight_nonneg r e)

end RoundedAt

theorem settle_negative (r : Nat) (e : Int) :
    settle .negative r e = (settle .positive r e).neg := by
  unfold settle
  dsimp only
  split <;> rfl

/-- A rounded mantissa is what its number is rounded to. -/
theorem RoundedAt.nearest {r : Nat} (h : RoundedAt t r e) (ht : 0 ≤ t) (s : Sign) :
    Nearest (signed s (t * 2 ^ e)) (settle s r e) := by
  cases s with
  | positive => exact h.nearest_positive ht
  | negative =>
    rw [settle_negative]
    exact (h.nearest_positive ht).neg

/-- The first shift leaves 53 bits, or as many as the least exponent leaves. -/
theorem roundedAt_shift {acc : Accuracy} (h : Tells (.ofMantissaAndAccuracy m acc) t)
    (hroom : 52 ≤ m.log2 ∨ e ≤ -1074) :
    ∃ n : Nat, RoundedAt (t / 2 ^ n)
      (shiftToTargetExponent Format.binary64 m e acc).1.roundedMantissa (e + n) ∧
      (shiftToTargetExponent Format.binary64 m e acc).2 = e + n := by
  have hshift : shiftToTargetExponent Format.binary64 m e acc =
      (ExtendedMantissa.ofMantissaAndAccuracy m acc >>>
        (max (m.log2 + 1 + e - 53) (-1074) - e).toNat,
        e + (max (m.log2 + 1 + e - 53) (-1074) - e).toNat) := rfl
  rw [hshift]
  dsimp only
  generalize hn : (max (m.log2 + 1 + e - 53) (-1074) - e).toNat = n
  have htells := h.shiftRight n
  have hmantissa : (ExtendedMantissa.ofMantissaAndAccuracy m acc >>> n).mantissa = m / 2 ^ n := by
    rw [mantissa_shiftRight]
    cases acc with
    | exact => rfl
    | inexact o => cases o <;> rfl
  generalize ExtendedMantissa.ofMantissaAndAccuracy m acc >>> n = em at htells hmantissa
  have hhigh : m / 2 ^ n < 2 ^ 53 := by
    rw [Nat.div_lt_iff_lt_mul (Nat.two_pow_pos n), ← Nat.pow_add]
    exact Nat.lt_of_lt_of_le Nat.lt_log2_self (Nat.pow_le_pow_right (by decide) (by omega))
  have hlow : 2 ^ 52 ≤ m / 2 ^ n ∨ e + n = -1074 := by
    by_cases hmin : e + n = -1074
    · exact .inr hmin
    · left
      have hlog : m.log2 = 52 + n := by omega
      have hne : m ≠ 0 := by
        rintro rfl
        rw [Nat.log2_zero] at hlog
        omega
      rw [Nat.le_div_iff_mul_le (Nat.two_pow_pos n), ← Nat.pow_add, ← hlog]
      exact Nat.log2_self_le hne
  refine ⟨n, ⟨by omega, ?_, ?_, htells.abs_sub_le, fun k => htells.roundedMantissa_le,
    fun k => htells.le_roundedMantissa⟩, rfl⟩
  · have := roundedMantissa_le em
    omega
  · refine hlow.imp_left fun hq => ?_
    rw [← hmantissa] at hq
    refine ⟨le_trans ?_ htells.mantissa_le, hq.trans (mantissa_le_roundedMantissa em)⟩
    exact_mod_cast hq

theorem Tells.nonneg (h : Tells em t) : 0 ≤ t := (Nat.cast_nonneg _).trans h.mantissa_le

/-- **Rounding a mantissa** with enough bits. -/
theorem nearest_roundWithAccuracy (s : Sign) {acc : Accuracy}
    (h : Tells (.ofMantissaAndAccuracy m acc) t) (hroom : 52 ≤ m.log2 ∨ e ≤ -1074) :
    Nearest (signed s (t * 2 ^ e)) (roundWithAccuracy Format.binary64 s m e acc) := by
  obtain ⟨n, hat, hexponent⟩ := roundedAt_shift h hroom
  have hround : roundWithAccuracy Format.binary64 s m e acc =
      settle s (shiftToTargetExponent Format.binary64 m e acc).1.roundedMantissa
        (shiftToTargetExponent Format.binary64 m e acc).2 := rfl
  have hsame : t * 2 ^ e = t / 2 ^ n * 2 ^ (e + n) := by
    rw [zpow_add₀ two_ne_zero, zpow_natCast]
    field_simp
  rw [hround, hexponent, hsame]
  exact hat.nearest (div_nonneg h.nonneg (pow_nonneg zero_le_two n)) s

/-- Rounding a mantissa that may need more bits first. -/
theorem nearest_round (s : Sign) (hm : m ≠ 0) (e : Int) :
    Nearest (signed s (weight m e)) (UnpackedFloat.round Format.binary64 s m e) := by
  obtain ⟨n, hn⟩ : ∃ n, (e - max (m.log2 + 1 + e - 53) (-1074)).toNat = n := ⟨_, rfl⟩
  rw [round_eq_roundWithAccuracy s hn]
  have hsame : weight m e = (m * 2 ^ n : Nat) * 2 ^ (e - n) := by
    rw [← weight, ← weight_add, sub_add_cancel]
  have hroom : 52 ≤ (m * 2 ^ n).log2 ∨ e - n ≤ -1074 := by
    by_cases hmin : e - n ≤ -1074
    · exact .inr hmin
    · left
      have hlog : 52 ≤ m.log2 + n := by omega
      refine hlog.trans ((Nat.le_log2 (Nat.mul_ne_zero hm (Nat.two_pow_pos n).ne')).mpr ?_)
      rw [Nat.pow_add]
      exact Nat.mul_le_mul_right _ (Nat.log2_self_le hm)
  rw [hsame]
  exact nearest_roundWithAccuracy s (tells_exact _) hroom

theorem nearest_zero (s : Sign) : Nearest 0 (.zero s) := nearest_self (.zero s)

/-- Rounding a mantissa with its sign. -/
theorem nearest_normalize (n : Int) (e : Int) (s : Sign) :
    Nearest (n * 2 ^ e) (UnpackedFloat.normalize Format.binary64 n e s) := by
  unfold UnpackedFloat.normalize
  cases hcompare : compare n 0 with
  | lt =>
    have hneg : n < 0 := Int.compare_eq_lt.mp hcompare
    have hcast : (((-n).toNat : Nat) : ℚ) = -n := by
      exact_mod_cast Int.toNat_of_nonneg (by omega : 0 ≤ -n)
    have hvalue : (n : ℚ) * 2 ^ e = signed .negative (weight (-n).toNat e) := by
      rw [signed, weight, hcast]
      ring
    rw [hvalue]
    exact nearest_round .negative (by omega) e
  | eq =>
    have hzero : n = 0 := Int.compare_eq_eq.mp hcompare
    rw [hzero, Int.cast_zero, zero_mul]
    exact nearest_zero s
  | gt =>
    have hpos : 0 < n := Int.compare_eq_gt.mp hcompare
    have hcast : ((n.toNat : Nat) : ℚ) = n := by
      exact_mod_cast Int.toNat_of_nonneg hpos.le
    have hvalue : (n : ℚ) * 2 ^ e = signed .positive (weight n.toNat e) := by
      rw [signed, weight, hcast]
    rw [hvalue]
    exact nearest_round .positive (by omega) e

/-! ### Doubles -/

/-- A double is what a number is rounded to; it is an infinity if that is out of range. -/
def Rounds (x : Float) (t : ℚ) : Prop := ∃ u, x.toModel = Float.Model.pack u ∧ Nearest t u

/-- A number with a mantissa of at most 53 bits needs no rounding. -/
theorem exists_isRounded_weight (hm : m < 2 ^ 53) (he : -1074 ≤ e) :
    ∃ v, IsRounded v ∧ rational v = weight m e := by
  -- bits are put in front until there are 53 of them, or the exponent is the least
  by_cases hzero : m = 0
  · exact ⟨.zero .positive, .zero _, by rw [hzero, weight, Nat.cast_zero, zero_mul]; rfl⟩
  · have hlog : m.log2 < 53 := (Nat.log2_lt hzero).mpr hm
    obtain ⟨n, hn⟩ : ∃ n : Nat, n = min (52 - m.log2) (e + 1074).toNat := ⟨_, rfl⟩
    have hpos : 0 < m * 2 ^ n := Nat.mul_pos (Nat.pos_of_ne_zero hzero) (Nat.two_pow_pos n)
    have hsame : weight (m * 2 ^ n) (e - n) = weight m e := by
      rw [← weight_add, sub_add_cancel]
    refine ⟨.finite .positive (m * 2 ^ n) (e - n) hpos, .finite _ hpos ⟨?_, by omega, ?_⟩, hsame⟩
    · calc m * 2 ^ n < 2 ^ (m.log2 + 1) * 2 ^ n :=
            Nat.mul_lt_mul_of_pos_right Nat.lt_log2_self (Nat.two_pow_pos n)
        _ = 2 ^ (m.log2 + 1 + n) := (Nat.pow_add ..).symm
        _ ≤ 2 ^ 53 := Nat.pow_le_pow_right (by decide) (by omega)
    · by_cases hmin : e - n = -1074
      · exact .inr hmin
      · left
        calc 2 ^ 52 = 2 ^ m.log2 * 2 ^ n := by rw [← Nat.pow_add]; congr 1; omega
          _ ≤ m * 2 ^ n := Nat.mul_le_mul_right _ (Nat.log2_self_le hzero)

/-- The number of a double of whose exponent is out of range. -/
theorem exponent_le_of_weight_le {m : Nat} {e : Int} (hc : Canonical m e)
    (h : weight m e ≤ 2 ^ (1023 : Int)) : e ≤ 971 := by
  by_contra hlt
  have hmin : Canonical (2 ^ 52) 971 := ⟨by omega, by omega, .inl le_rfl⟩
  have hpower : weight (2 ^ 52) 971 = 2 ^ (1023 : Int) := by
    rw [weight, show (1023 : Int) = (52 : Nat) + 971 by decide, zpow_add₀ two_ne_zero, zpow_natCast]
    norm_num
  have := weight_lt_of_exponent_lt hmin hc (by omega)
  linarith

namespace Rounds

/-- What is rounded to a finite double is unpacked as it was rounded. -/
theorem nearest (h : Rounds x t) (hx : isFinite x = true) : Nearest t x.toModel.unpack := by
  obtain ⟨u, hu, hnearest⟩ := h
  have hmax : ∀ s m e pos, u = .finite s m e pos → e ≤ 971 := by
    rintro s m e pos rfl
    by_contra hlt
    rw [not_isFinite_of_pack hu (by omega)] at hx
    cases hx
  rw [hu, unpack_pack hnearest.rounded hmax]
  exact hnearest

/-- What is not too great is rounded to a finite double. -/
theorem isFinite (h : Rounds x t) (ht : |t| ≤ 2 ^ (1023 : Int)) : isFinite x = true := by
  obtain ⟨u, hu, hnearest⟩ := h
  have hgreat : ∃ v, IsRounded v ∧ rational v = 2 ^ (1023 : Int) := by
    obtain ⟨v, hv, hvalue⟩ := exists_isRounded_weight (m := 1) (e := 1023) (by decide) (by decide)
    exact ⟨v, hv, by rw [hvalue, weight, Nat.cast_one, one_mul]⟩
  obtain ⟨v, hv, hvalue⟩ := hgreat
  have habs : |rational u| ≤ 2 ^ (1023 : Int) := by
    rw [abs_le] at ht ⊢
    constructor
    · have := hnearest.ge v.neg hv.neg (by rw [rational_neg, hvalue]; exact ht.1)
      rwa [rational_neg, hvalue] at this
    · have := hnearest.le v hv (by rw [hvalue]; exact ht.2)
      rwa [hvalue] at this
  have hmax : ∀ s m e pos, u = .finite s m e pos → e ≤ 971 := by
    rintro s m e pos rfl
    cases hnearest.rounded with
    | finite _ _ hc =>
      refine exponent_le_of_weight_le hc ?_
      rwa [rational, abs_signed, abs_of_nonneg (weight_nonneg m e)] at habs
  apply isFinite_of_isRounded
  rw [hu, unpack_pack hnearest.rounded hmax]
  exact hnearest.rounded

/-- It is off by half a unit of its last place at most. -/
theorem abs_sub_le (h : Rounds x t) (hx : Binary64.isFinite x = true) :
    |value x - t| ≤ |t| / 2 ^ 53 + 2 ^ (-1075 : Int) := (h.nearest hx).near

/-- It passes no double that lies above the number. -/
theorem value_le (h : Rounds x t) (hx : Binary64.isFinite x = true)
    (hy : Binary64.isFinite y = true) (hle : t ≤ value y) : value x ≤ value y :=
  (h.nearest hx).le _ (isRounded_unpack hy) hle

/-- It passes no double that lies below the number. -/
theorem le_value (h : Rounds x t) (hx : Binary64.isFinite x = true)
    (hy : Binary64.isFinite y = true) (hle : value y ≤ t) : value y ≤ value x :=
  (h.nearest hx).ge _ (isRounded_unpack hy) hle

/-- A number with a mantissa of at most 53 bits is not changed. -/
theorem value_eq (h : Rounds x t) (hx : Binary64.isFinite x = true) (hm : m < 2 ^ 53)
    (he : -1074 ≤ e) (ht : t = weight m e) : value x = t := by
  obtain ⟨v, hv, hvalue⟩ := exists_isRounded_weight hm he
  rw [ht, ← hvalue]
  exact le_antisymm ((h.nearest hx).le v hv (by rw [ht, hvalue]))
    ((h.nearest hx).ge v hv (by rw [ht, hvalue]))

theorem least_le : (2 : ℚ) ^ (-1075 : Int) ≤ 1 / 10 ^ 30 := by
  calc (2 : ℚ) ^ (-1075 : Int) ≤ 2 ^ (-100 : Int) := zpow_le_zpow_right₀ one_le_two (by decide)
    _ ≤ 1 / 10 ^ 30 := by norm_num

/-- What is not great is in range, and a rounding changes a small share of it. -/
theorem near_of_abs_le {b : ℚ} (h : Rounds x t) (ht : |t| ≤ b) (hb : b ≤ 2 ^ 100) :
    Binary64.isFinite x = true ∧ |value x - t| ≤ b / 2 ^ 53 + 1 / 10 ^ 30 := by
  have hx : Binary64.isFinite x = true := by
    refine h.isFinite (ht.trans (hb.trans ?_))
    rw [← zpow_natCast]
    exact zpow_le_zpow_right₀ one_le_two (by decide)
  have hnear := h.abs_sub_le hx
  have hshare : |t| / 2 ^ 53 ≤ b / 2 ^ 53 := div_le_div_of_nonneg_right ht (by norm_num)
  have := least_le
  exact ⟨hx, by linarith⟩

end Rounds

end StagedLoad.Binary64
