import StagedLoad.Proofs.Decimal.Magnitude

/-!
# How far rounding goes

A double with all of its 53 bits is at most one unit of its last place above the number that it was
rounded from.  So a product is finite if the exact one, with a unit for each rounding on the way,
is below the least number that is rounded beyond the doubles.

## Main definitions

* `Binary64.weight` — the number that a mantissa and an exponent stand for.
* `Binary64.overflow` — the least number that is rounded beyond the doubles.
* `Binary64.Normal` — an unpacked double is at least one, and does not exceed a number.

## Main results

* `Binary64.normal_roundWithAccuracy` — what rounding makes of a number below `overflow`.
* `Binary64.normal_unpack_ofNat`, `Binary64.normal_unpack_mul` — words and products.
* `Binary64.Normal.isFinite` — such doubles are finite.
-/

namespace StagedLoad.Binary64

open Float.Model Float.Model.UnpackedFloat

/-- The number `m · 2 ^ e`. -/
def weight (m : Nat) (e : Int) : ℚ := m * 2 ^ e

/-- The least number that is rounded beyond the doubles: half a unit above the greatest of them. -/
def overflow : ℚ := (2 ^ 54 - 1) * 2 ^ (970 : Int)

/-- What one rounding may add to a number, as a factor. -/
def slack : ℚ := 1 + 1 / 2 ^ 52

/-- A double has all of its bits, its magnitude is at least one and does not exceed a number. -/
def Normal (b : ℚ) (u : UnpackedFloat) : Prop :=
  ∃ s m e pos, u = .finite s m e pos ∧ 2 ^ 52 ≤ m ∧ m < 2 ^ 53 ∧ -52 ≤ e ∧ e ≤ 971 ∧ weight m e ≤ b

variable {s : Sign} {m n r : Nat} {e : Int} {u v : UnpackedFloat} {a b : ℚ} {x y : Float}

/-! ### Weights -/

theorem Normal.mono (h : Normal a u) (hab : a ≤ b) : Normal b u := by
  obtain ⟨s, m, e, pos, hu, hlow, hhigh, hmin, hmax, hle⟩ := h
  exact ⟨s, m, e, pos, hu, hlow, hhigh, hmin, hmax, hle.trans hab⟩

theorem weight_add (m n : Nat) (e : Int) : weight m (e + n) = weight (m * 2 ^ n) e := by
  rw [weight, weight, zpow_add₀ two_ne_zero, zpow_natCast]
  push_cast
  ring

theorem weight_mul (m m' : Nat) (e e' : Int) :
    weight (m * m') (e + e') = weight m e * weight m' e' := by
  rw [weight, weight, weight, zpow_add₀ two_ne_zero]
  push_cast
  ring

theorem weight_le_weight {e' : Int} (h : m ≤ n) (he : e ≤ e') : weight m e ≤ weight n e' :=
  mul_le_mul (Nat.cast_le.mpr h) (zpow_le_zpow_right₀ one_le_two he) (zpow_nonneg zero_le_two _)
    (Nat.cast_nonneg _)

theorem weight_nonneg (m : Nat) (e : Int) : 0 ≤ weight m e :=
  mul_nonneg (Nat.cast_nonneg _) (zpow_nonneg zero_le_two _)

/-- The exponent of a number that is not rounded beyond the doubles. -/
theorem exponent_le_of_weight_lt (hm : 2 ^ 52 ≤ m) (h : weight m e < overflow) : e ≤ 971 := by
  by_contra hlt
  have hpower : (2 : ℚ) ^ (972 : Int) ≤ 2 ^ e := zpow_le_zpow_right₀ one_le_two (by omega)
  have hmantissa : ((2 ^ 52 : Nat) : ℚ) ≤ m := Nat.cast_le.mpr hm
  have hmany : ((2 ^ 52 : Nat) : ℚ) * 2 ^ (972 : Int) ≤ weight m e :=
    mul_le_mul hmantissa hpower (zpow_nonneg zero_le_two _) (Nat.cast_nonneg _)
  have hover : overflow ≤ ((2 ^ 52 : Nat) : ℚ) * 2 ^ (972 : Int) := by
    have hunit : (0 : ℚ) ≤ 2 ^ (970 : Int) := zpow_nonneg zero_le_two _
    have hstep : (2 : ℚ) ^ (972 : Int) = 2 ^ (970 : Int) * 2 ^ 2 := zpow_add₀ two_ne_zero 970 2
    rw [overflow, hstep]
    generalize (2 : ℚ) ^ (970 : Int) = unit at hunit ⊢
    push_cast
    linarith
  exact absurd h (not_lt.mpr (hover.trans hmany))

/-! ### Rounding -/

/-- How many bits of a mantissa there is no room for. -/
theorem shiftToTargetExponent_exact (m : Nat) (e : Int) :
    shiftToTargetExponent Format.binary64 m e .exact =
      ((⟨m, false, false⟩ : ExtendedMantissa) >>>
        (max (m.log2 + 1 + e - 53) (-1074) - e).toNat,
        e + (max (m.log2 + 1 + e - 53) (-1074) - e).toNat) := rfl

/-- A mantissa of at most 53 bits stays where it is. -/
theorem shiftToTargetExponent_of_lt (hm : m < 2 ^ 53) (he : -1074 ≤ e) :
    shiftToTargetExponent Format.binary64 m e .exact = (⟨m, false, false⟩, e) := by
  have hlog : m.log2 < 53 := by
    by_cases hzero : m = 0
    · rw [hzero]
      decide
    · exact (Nat.log2_lt hzero).mpr hm
  have hnone : (max (m.log2 + 1 + e - 53) (-1074) - e).toNat = 0 := by omega
  rw [shiftToTargetExponent_exact, hnone]
  exact congrArg (Prod.mk _) (add_zero e)

/-- One bit too many is dropped. -/
theorem shiftToTargetExponent_of_eq (he : -1074 ≤ e) :
    (shiftToTargetExponent Format.binary64 (2 ^ 53) e .exact).1.mantissa = 2 ^ 52 ∧
      (shiftToTargetExponent Format.binary64 (2 ^ 53) e .exact).2 = e + 1 := by
  have hone : (max (((2 ^ 53 : Nat).log2 : Int) + 1 + e - 53) (-1074) - e).toNat = 1 := by
    rw [Nat.log2_two_pow]
    omega
  rw [shiftToTargetExponent_exact, hone, mantissa_shiftRight]
  exact ⟨rfl, rfl⟩

theorem mantissa_le_roundedMantissa (em : ExtendedMantissa) :
    em.mantissa ≤ em.roundedMantissa := by
  obtain ⟨m, roundBit, stickyBit⟩ := em
  cases roundBit <;> cases stickyBit <;>
    simp [ExtendedMantissa.roundedMantissa, ExtendedMantissa.accuracy,
      Accuracy.roundToNearestEven]

/-- Nothing is rounded up unless the first bit that was dropped is set. -/
theorem roundBit_of_lt_roundedMantissa {em : ExtendedMantissa}
    (h : em.mantissa < em.roundedMantissa) : em.roundBit = true := by
  obtain ⟨m, roundBit, stickyBit⟩ := em
  cases roundBit
  · cases stickyBit <;>
      simp [ExtendedMantissa.roundedMantissa, ExtendedMantissa.accuracy,
        Accuracy.roundToNearestEven] at h
  · rfl

/-- What is rounded up to a full unit more was no less than half a unit below it. -/
theorem le_of_roundedMantissa_eq {q : Nat}
    (h : ((⟨m, false, false⟩ : ExtendedMantissa) >>> n).roundedMantissa = q + 1)
    (hlt : m / 2 ^ n < q + 1) : ∃ k, n = k + 1 ∧ (2 * q + 1) * 2 ^ k ≤ m := by
  have hle := roundedMantissa_le ((⟨m, false, false⟩ : ExtendedMantissa) >>> n)
  have hbit := @roundBit_of_lt_roundedMantissa ((⟨m, false, false⟩ : ExtendedMantissa) >>> n)
  rw [mantissa_shiftRight, h] at hle hbit
  dsimp only at hle hbit
  cases n with
  | zero => cases hbit hlt
  | succ k =>
    have hodd : m / 2 ^ k % 2 ≠ 0 := by
      have hset : ((((⟨m, false, false⟩ : ExtendedMantissa) >>> k).mantissa) % 2 != 0) = true :=
        hbit hlt
      rw [mantissa_shiftRight] at hset
      simpa using hset
    refine ⟨k, rfl, ?_⟩
    rw [Nat.pow_succ, ← Nat.div_div_eq_div_mul] at hle
    rw [← Nat.le_div_iff_mul_le (Nat.two_pow_pos k)]
    omega

/-- Without its last bits a mantissa has just as many as there is room for. -/
theorem mantissa_bounds (hm : m ≠ 0) (hn : m.log2 = 52 + n) :
    2 ^ 52 * 2 ^ n ≤ m ∧ 2 ^ 52 ≤ m / 2 ^ n ∧ m / 2 ^ n < 2 ^ 53 := by
  have hlow : 2 ^ 52 * 2 ^ n ≤ m := by
    rw [← Nat.pow_add, ← hn]
    exact Nat.log2_self_le hm
  refine ⟨hlow, (Nat.le_div_iff_mul_le (Nat.two_pow_pos n)).mpr hlow, ?_⟩
  rw [Nat.div_lt_iff_lt_mul (Nat.two_pow_pos n), ← Nat.pow_add]
  calc m < 2 ^ (m.log2 + 1) := Nat.lt_log2_self
    _ = 2 ^ (53 + n) := by rw [hn]; congr 1; omega

/-- A rounded mantissa and what it was rounded from. -/
theorem weight_le_mul_slack (hm : m ≠ 0) (hn : m.log2 = 52 + n) (hr : r ≤ m / 2 ^ n + 1) (e : Int) :
    weight (r * 2 ^ n) e ≤ weight m e * slack := by
  have hunit : 2 ^ 52 * 2 ^ n ≤ m := (mantissa_bounds hm hn).1
  have hquot : r * 2 ^ n ≤ m + 2 ^ n := by
    calc r * 2 ^ n ≤ (m / 2 ^ n + 1) * 2 ^ n := Nat.mul_le_mul_right _ hr
      _ = m / 2 ^ n * 2 ^ n + 2 ^ n := by rw [Nat.add_mul, Nat.one_mul]
      _ ≤ m + 2 ^ n := Nat.add_le_add_right (Nat.div_mul_le_self _ _) _
  have hexact : ((r * 2 ^ n : Nat) : ℚ) ≤ m * slack := by
    have hquot' : ((r * 2 ^ n : Nat) : ℚ) ≤ m + 2 ^ n := by exact_mod_cast hquot
    have hunit' : (2 : ℚ) ^ 52 * 2 ^ n ≤ m := by exact_mod_cast hunit
    rw [slack]
    linarith
  calc weight (r * 2 ^ n) e ≤ m * slack * 2 ^ e :=
        mul_le_mul_of_nonneg_right hexact (zpow_nonneg zero_le_two _)
    _ = weight m e * slack := by rw [weight]; ring

/-- The exponent of a number that is half a unit below one with a bit more. -/
theorem exponent_lt_of_weight_lt {k : Nat} (hk : (2 * (2 ^ 53 - 1) + 1) * 2 ^ k ≤ m)
    (h : weight m e < overflow) : e + k < 970 := by
  by_contra hlt
  have hpower : (2 : ℚ) ^ (970 : Int) ≤ 2 ^ (e + k) := zpow_le_zpow_right₀ one_le_two (by omega)
  have hmany : overflow ≤ weight m e := by
    calc overflow ≤ weight (2 * (2 ^ 53 - 1) + 1) (e + k) := by
          rw [overflow, weight]
          apply mul_le_mul_of_nonneg _ hpower (by norm_num) (zpow_nonneg zero_le_two _)
          norm_num
      _ = weight ((2 * (2 ^ 53 - 1) + 1) * 2 ^ k) e := weight_add _ _ _
      _ ≤ weight m e := weight_le_weight hk le_rfl
  exact absurd h (not_lt.mpr hmany)

/-- **What rounding makes of a number** from one up that has all of its bits, if it is not rounded
beyond the doubles. -/
theorem normal_roundWithAccuracy (hm : 2 ^ 52 ≤ m) (he : 0 ≤ m.log2 + e)
    (h : weight m e < overflow) :
    Normal (weight m e * slack) (roundWithAccuracy Format.binary64 s m e .exact) := by
  have hpos : m ≠ 0 := by omega
  have hlog : 52 ≤ m.log2 := (Nat.le_log2 hpos).mpr hm
  obtain ⟨n, hn⟩ : ∃ n, m.log2 = 52 + n := ⟨m.log2 - 52, by omega⟩
  obtain ⟨hlow, hquot, hhigh⟩ := mantissa_bounds hpos hn
  have hshift : (max (m.log2 + 1 + e - 53) (-1074) - e).toNat = n := by omega
  -- the exponent after the first shift
  have hexponent : e + n ≤ 971 := by
    apply exponent_le_of_weight_lt (m := 2 ^ 52) (Nat.le_refl _)
    rw [weight_add]
    exact lt_of_le_of_lt (weight_le_weight hlow le_rfl) h
  unfold roundWithAccuracy
  rw [shiftToTargetExponent_exact, hshift]
  dsimp only
  have hle := roundedMantissa_le ((⟨m, false, false⟩ : ExtendedMantissa) >>> n)
  have hge := mantissa_le_roundedMantissa ((⟨m, false, false⟩ : ExtendedMantissa) >>> n)
  have hhalf := le_of_roundedMantissa_eq (m := m) (n := n) (q := 2 ^ 53 - 1)
  rw [mantissa_shiftRight] at hle hge
  dsimp only at hle hge
  generalize ((⟨m, false, false⟩ : ExtendedMantissa) >>> n).roundedMantissa = r at hle hge hhalf ⊢
  have hweight := weight_le_mul_slack hpos hn hle e
  by_cases hfull : r < 2 ^ 53
  · -- all bits are there, and not one too many
    rw [shiftToTargetExponent_of_lt hfull (by omega)]
    dsimp only
    rw [dif_neg (by omega)]
    refine ⟨s, r, e + n, by omega, rfl, by omega, hfull, by omega, hexponent, ?_⟩
    rw [weight_add]
    exact hweight
  · -- rounding has made one bit more
    obtain rfl : r = 2 ^ 53 := by omega
    obtain ⟨k, rfl, hk⟩ := hhalf rfl (by omega)
    have hroom := exponent_lt_of_weight_lt hk h
    obtain ⟨hmantissa, hlast⟩ := shiftToTargetExponent_of_eq (e := e + (k + 1 : Nat)) (by omega)
    simp only [hmantissa, hlast]
    rw [dif_neg (by omega)]
    refine ⟨s, 2 ^ 52, e + (k + 1 : Nat) + 1, by omega, rfl, by omega, by omega, by omega, by omega,
      ?_⟩
    calc weight (2 ^ 52) (e + (k + 1 : Nat) + 1) = weight (2 ^ 53) (e + (k + 1 : Nat)) :=
          weight_add (2 ^ 52) 1 (e + (k + 1 : Nat))
      _ = weight (2 ^ 53 * 2 ^ (k + 1)) e := weight_add _ _ _
      _ ≤ weight m e * slack := hweight

/-- A mantissa that has too few bits is filled up with zeros before it is rounded. -/
theorem round_eq_roundWithAccuracy (s : Sign)
    (hn : (e - max (m.log2 + 1 + e - 53) (-1074)).toNat = n) :
    UnpackedFloat.round Format.binary64 s m e =
      roundWithAccuracy Format.binary64 s (m * 2 ^ n) (e - n) .exact := by
  have htarget : Format.binary64.targetExponent (totalExponent m e) =
      max (m.log2 + 1 + e - 53) (-1074) := rfl
  unfold UnpackedFloat.round decreaseExponent
  dsimp only
  rw [htarget, Nat.shiftLeft_eq, hn]

/-- So does rounding that has to make room for the bits first. -/
theorem normal_round (hm : 0 < m) (he : 0 ≤ m.log2 + e) (h : weight m e < overflow) :
    Normal (weight m e * slack) (UnpackedFloat.round Format.binary64 s m e) := by
  obtain ⟨n, hn⟩ : ∃ n, (e - max (m.log2 + 1 + e - 53) (-1074)).toNat = n := ⟨_, rfl⟩
  rw [round_eq_roundWithAccuracy s hn]
  have hsame : weight (m * 2 ^ n) (e - n) = weight m e := by
    rw [← weight_add, sub_add_cancel]
  have hbits : 2 ^ (m.log2 + n) ≤ m * 2 ^ n := by
    rw [Nat.pow_add]
    exact Nat.mul_le_mul_right _ (Nat.log2_self_le (Nat.ne_of_gt hm))
  have hlog : m.log2 + n ≤ (m * 2 ^ n).log2 :=
    (Nat.le_log2 (Nat.ne_of_gt (Nat.mul_pos hm (Nat.two_pow_pos n)))).mpr hbits
  have hfull : 2 ^ 52 ≤ 2 ^ (m.log2 + n) := Nat.pow_le_pow_right (by decide) (by omega)
  rw [← hsame] at h ⊢
  exact normal_roundWithAccuracy (Nat.le_trans hfull hbits) (by omega) h

/-! ### Packing -/

theorem exists_unpack_packComponents (s : Sign) (fraction : BitVec 52) {field : BitVec 11}
    (hzero : field ≠ 0#11) (hmax : field ≠ -1#11) :
    ∃ t pos, UnpackedFloat.unpack Format.binary64
        (packComponents Format.binary64 s field fraction) =
      .finite t (2 ^ 52 + fraction.toNat) (field.toNat - 1075) pos := by
  have hmantissa : (1#1 ++ fraction).toNat = 2 ^ 52 + fraction.toNat := by
    rw [BitVec.toNat_append, ← Nat.shiftLeft_add_eq_or_of_lt fraction.isLt]
    rfl
  unfold UnpackedFloat.unpack
  simp only [unpackMantissa_packComponents, unpackExponent_packComponents]
  rw [if_neg hmax, if_neg hzero]
  simp only [hmantissa]
  exact ⟨_, by omega, rfl⟩

theorem log2_of_full (hlow : 2 ^ 52 ≤ m) (hhigh : m < 2 ^ 53) : m.log2 = 52 := by
  have hne : m ≠ 0 := by omega
  have := (Nat.le_log2 hne).mpr hlow
  have := (Nat.log2_lt hne).mpr hhigh
  omega

/-- The exponent field of a packed number. -/
theorem biased_eq (e : Int) :
    (e + (Format.binary64.exponentBias : Nat) + (52 : Nat)).toNat = (e + 1075).toNat := by
  change (e + (1023 : Int) + (52 : Int)).toNat = _
  omega

/-- It is neither the one of what is too small nor the one of what is too great. -/
theorem exponentField_spec (hmin : -1074 ≤ e) (hmax : e ≤ 971) :
    ((BitVec.ofNat 11 (e + 1075).toNat).toNat : Int) - 1075 = e ∧
      BitVec.ofNat 11 (e + 1075).toNat ≠ 0#11 ∧ BitVec.ofNat 11 (e + 1075).toNat ≠ -1#11 := by
  have hfield : (BitVec.ofNat 11 (e + 1075).toNat).toNat = (e + 1075).toNat := by
    rw [BitVec.toNat_ofNat]
    exact Nat.mod_eq_of_lt (by omega)
  refine ⟨by omega, ?_, ?_⟩
  · intro hzero
    have hnone : (0#11).toNat = 0 := rfl
    rw [hzero] at hfield
    omega
  · intro hmost
    have hall : (-1#11).toNat = 2047 := rfl
    rw [hmost] at hfield
    omega

/-- The first bit of a mantissa with all of its bits is not stored. -/
theorem fraction_of_full (hlow : 2 ^ 52 ≤ m) (hhigh : m < 2 ^ 53) :
    2 ^ 52 + (BitVec.ofNat 52 m).toNat = m := by
  rw [BitVec.toNat_ofNat]
  omega

/-- Packing keeps a double with all of its bits. -/
theorem Normal.unpack_pack (h : Normal b u) : Normal b (Float.Model.pack u).unpack := by
  obtain ⟨s, m, e, pos, rfl, hlow, hhigh, hmin, hmax, hle⟩ := h
  change Normal b (UnpackedFloat.unpack Format.binary64 (UnpackedFloat.pack Format.binary64 _))
  have hbits : m.log2 + 1 = Format.binary64.mantissaBits := by
    rw [log2_of_full hlow hhigh]
    rfl
  obtain ⟨hfield, hzero, hmost⟩ := exponentField_spec (by omega) hmax
  simp only [UnpackedFloat.pack, biased_eq]
  rw [if_neg (by omega), if_pos hbits]
  obtain ⟨t, pos', hunpack⟩ := exists_unpack_packComponents s (BitVec.ofNat 52 m) hzero hmost
  refine ⟨t, m, e, pos, hunpack.trans ?_, hlow, hhigh, hmin, hmax, hle⟩
  congr 1
  exact fraction_of_full hlow hhigh

/-- A double with all of its bits is finite. -/
theorem Normal.isFinite (h : Normal b x.toModel.unpack) : isFinite x = true := by
  obtain ⟨s, m, e, pos, hx, -, hlt, -⟩ := h
  apply isFinite_of_below (k := 53 + e)
  rw [hx]
  exact .finite s pos hlt (Int.le_refl _)

/-! ### Words and products -/

theorem normal_unpack_ofNat (hpos : 0 < n) (hn : n ≤ maxWord) :
    Normal (n * slack) (ofNat n).toModel.unpack := by
  have hexact : (UInt64.ofNat n).toNat = n := UInt64.toNat_ofNat_of_lt' (Nat.lt_succ_of_le hn)
  rw [ofNat, if_pos hn]
  change Normal _ (Float.Model.pack (UnpackedFloat.ofNat Format.binary64
    (UInt64.ofNat n).toNat)).unpack
  rw [hexact]
  apply Normal.unpack_pack
  have hnormalize : UnpackedFloat.ofNat Format.binary64 n =
      UnpackedFloat.round Format.binary64 .positive n 0 := by
    have hcompare : compare (n : Int) 0 = .gt := by
      rw [Int.compare_eq_gt]
      omega
    unfold UnpackedFloat.ofNat UnpackedFloat.ofInt UnpackedFloat.normalize
    rw [hcompare]
    rfl
  have hweight : weight n 0 = n := by rw [weight, zpow_zero, mul_one]
  have hsmall : (n : ℚ) < overflow := by
    have hunit : (2 : ℚ) ^ (11 : Int) ≤ 2 ^ (970 : Int) :=
      zpow_le_zpow_right₀ one_le_two (by decide)
    have hword : (n : ℚ) ≤ 18446744073709551615 := by exact_mod_cast hn
    rw [overflow]
    generalize (2 : ℚ) ^ (970 : Int) = unit at hunit ⊢
    norm_num at hunit ⊢
    linarith
  rw [hnormalize, ← hweight]
  apply normal_round hpos (by omega)
  rw [hweight]
  exact hsmall

theorem normal_unpack_mul (hx : Normal a x.toModel.unpack) (hy : Normal b y.toModel.unpack)
    (h : a * b < overflow) : Normal (a * b * slack) (x * y).toModel.unpack := by
  obtain ⟨s, m, e, pos, hx, hlow, -, hmin, -, hle⟩ := hx
  obtain ⟨t, m', e', pos', hy, hlow', -, hmin', -, hle'⟩ := hy
  change Normal _ (Float.Model.pack (UnpackedFloat.mul Format.binary64
    x.toModel.unpack y.toModel.unpack)).unpack
  rw [hx, hy]
  apply Normal.unpack_pack
  have hbits : 2 ^ 52 * 2 ^ 52 ≤ m * m' := Nat.mul_le_mul hlow hlow'
  have hlog : 104 ≤ (m * m').log2 := (Nat.le_log2 (by omega)).mpr hbits
  have hproduct : weight (m * m') (e + e') ≤ a * b := by
    rw [weight_mul]
    exact mul_le_mul hle hle' (weight_nonneg _ _) ((weight_nonneg _ _).trans hle)
  have hrounded := normal_roundWithAccuracy (s := s * t) (m := m * m') (e := e + e') (by omega)
    (by omega) (lt_of_le_of_lt hproduct h)
  exact hrounded.mono (mul_le_mul_of_nonneg_right hproduct (by norm_num [slack]))

end StagedLoad.Binary64
