import StagedLoad.Proofs.Decimal.Nearest

/-!
# Arithmetic of doubles

Every operation on finite doubles is exact up to one rounding: products and quotients are computed
with enough bits to tell how they are rounded, and sums without loss.

* `Binary64.rounds_mul`, `Binary64.rounds_div`, `Binary64.rounds_add`, `Binary64.rounds_sub` —
  **the operations are exact up to one rounding**.
* `Binary64.rounds_ofNat`, `Binary64.value_ofNat` — words are rounded once, and small ones are not
  changed.
-/

namespace StagedLoad.Binary64

open Float.Model Float.Model.UnpackedFloat

variable {n : Nat} {x y : Float}

/-! ### Products and quotients -/

/-- Mantissas as they stand in doubles have enough bits in their product. -/
theorem room_mul {m m' : Nat} {e e' : Int} (h : Canonical m e) (h' : Canonical m' e') (hm : 0 < m)
    (hm' : 0 < m') : 52 ≤ (m * m').log2 ∨ e + e' ≤ -1074 := by
  have hpos : m * m' ≠ 0 := (Nat.mul_pos hm hm').ne'
  have hmin := h.min
  have hmin' := h'.min
  rcases h.full with hfull | he
  · exact .inl ((Nat.le_log2 hpos).mpr (hfull.trans (Nat.le_mul_of_pos_right m hm')))
  · rcases h'.full with hfull' | he'
    · exact .inl ((Nat.le_log2 hpos).mpr (hfull'.trans (Nat.le_mul_of_pos_left m' hm)))
    · exact .inr (by omega)

theorem nearest_mul {u v : UnpackedFloat} (hu : IsRounded u) (hv : IsRounded v) :
    Nearest (rational u * rational v) (UnpackedFloat.mul Format.binary64 u v) := by
  cases hu with
  | zero s =>
    have hzero : rational (.zero s) * rational v = 0 := zero_mul _
    rw [hzero]
    cases hv <;> exact nearest_zero _
  | @finite s m e pos h =>
    cases hv with
    | zero s' =>
      have hzero : rational (.finite s m e pos) * rational (.zero s') = 0 := mul_zero _
      rw [hzero]
      exact nearest_zero _
    | @finite s' m' e' pos' h' =>
      have hproduct : rational (.finite s m e pos) * rational (.finite s' m' e' pos') =
          signed (s * s') ((m * m' : Nat) * 2 ^ (e + e')) := by
        rw [rational, rational, ← signed_mul, ← weight_mul, weight]
      rw [hproduct]
      exact nearest_roundWithAccuracy (s * s') (tells_exact _) (room_mul h h' pos pos')

/-- The quotient that division computes has enough bits. -/
theorem room_div {m m' : Nat} (e e' : Int) (hm : 0 < m) (hm' : 0 < m') {target : Int}
    (htarget : target = min (e - e') (max (m.log2 + 1 + e - (m'.log2 + 1 + e') - 53) (-1074))) :
    52 ≤ (m * 2 ^ (e - e' - target).toNat / m').log2 ∨ target ≤ -1074 := by
  by_cases hmin : target ≤ -1074
  · exact .inr hmin
  · left
    have hbits : 53 + m'.log2 ≤ m.log2 + (e - e' - target).toNat := by omega
    generalize (e - e' - target).toNat = n at hbits
    have hlow : 2 ^ 52 * m' ≤ m * 2 ^ n := by
      calc 2 ^ 52 * m' ≤ 2 ^ 52 * 2 ^ (m'.log2 + 1) :=
            Nat.mul_le_mul_left _ (Nat.lt_log2_self).le
        _ = 2 ^ (53 + m'.log2) := by rw [← Nat.pow_add]; congr 1; omega
        _ ≤ 2 ^ (m.log2 + n) := Nat.pow_le_pow_right (by decide) hbits
        _ = 2 ^ m.log2 * 2 ^ n := Nat.pow_add ..
        _ ≤ m * 2 ^ n := Nat.mul_le_mul_right _ (Nat.log2_self_le hm.ne')
    have hquot : 2 ^ 52 ≤ m * 2 ^ n / m' := (Nat.le_div_iff_mul_le hm').mpr hlow
    exact (Nat.le_log2 (by omega)).mpr hquot

/-- Two mantissas of any size, with any exponents. -/
theorem nearest_div_finite (s s' : Sign) {m m' : Nat} (e e' : Int) (pos : 0 < m) (pos' : 0 < m') :
    Nearest (rational (.finite s m e pos) / rational (.finite s' m' e' pos'))
      (UnpackedFloat.div Format.binary64 (.finite s m e pos) (.finite s' m' e' pos')) := by
  have hcore : divCore Format.binary64 m e m' e' =
      let target := min (e - e') (max (m.log2 + 1 + e - (m'.log2 + 1 + e') - 53) (-1074))
      (m <<< (e - e' - target).toNat / m', target,
        accuracyOfFraction (m <<< (e - e' - target).toNat % m') m') := rfl
  generalize htarget :
    min (e - e') (max (m.log2 + 1 + e - (m'.log2 + 1 + e') - 53) (-1074) : Int) = target at hcore
  dsimp only at hcore
  have hroom := room_div e e' pos pos' htarget.symm
  have hle : target ≤ e - e' := by omega
  have hm' : (m' : ℚ) ≠ 0 := Nat.cast_ne_zero.mpr pos'.ne'
  simp only [UnpackedFloat.div, hcore]
  rw [Nat.shiftLeft_eq]
  generalize hn : (e - e' - target).toNat = n at hroom
  have htells := tells_fraction (m * 2 ^ n / m') (Nat.mod_lt (m * 2 ^ n) pos')
  have hquot : ((m * 2 ^ n / m' : Nat) : ℚ) + ((m * 2 ^ n % m' : Nat) : ℚ) / m' =
      (m * 2 ^ n : Nat) / m' := by
    have hsplit : ((m * 2 ^ n : Nat) : ℚ) =
        m' * (m * 2 ^ n / m' : Nat) + (m * 2 ^ n % m' : Nat) := by
      exact_mod_cast (Nat.div_add_mod (m * 2 ^ n) m').symm
    rw [hsplit]
    field_simp
  have hvalue : rational (.finite s m e pos) / rational (.finite s' m' e' pos') =
      signed (s / s') ((m * 2 ^ n : Nat) / m' * 2 ^ target) := by
    have hexponent : e - e' = target + n := by omega
    have hpower : (2 : ℚ) ^ e / 2 ^ e' = 2 ^ target * 2 ^ n := by
      rw [← zpow_sub₀ two_ne_zero, hexponent, zpow_add₀ two_ne_zero, zpow_natCast]
    rw [rational, rational, ← signed_div, weight, weight, mul_div_mul_comm, hpower]
    push_cast
    congr 1
    ring
  rw [hvalue, ← hquot]
  exact nearest_roundWithAccuracy (s / s') htells hroom

theorem nearest_div {u v : UnpackedFloat} (hu : IsRounded u) (hv : IsRounded v)
    (hne : rational v ≠ 0) :
    Nearest (rational u / rational v) (UnpackedFloat.div Format.binary64 u v) := by
  cases hv with
  | zero s' => exact absurd rfl hne
  | @finite s' m' e' pos' h' =>
    cases hu with
    | zero s =>
      have hzero : rational (.zero s) / rational (.finite s' m' e' pos') = 0 := zero_div _
      rw [hzero]
      exact nearest_zero _
    | @finite s m e pos h => exact nearest_div_finite s s' e e' pos pos'

/-! ### Sums and differences -/

theorem cast_apply (s : Sign) (n : Nat) : ((s.apply n : Int) : ℚ) = signed s n := by
  cases s
  · exact Int.cast_neg _
  · rfl

/-- A mantissa that is brought to a smaller exponent. -/
theorem weight_decreaseExponent (m : Nat) {e j : Int} (h : j ≤ e) :
    weight (decreaseExponent m e j).1 j = weight m e := by
  unfold decreaseExponent
  dsimp only
  rw [Nat.shiftLeft_eq, ← weight_add]
  congr 1
  omega

theorem signed_weight (s : Sign) (m : Nat) (e : Int) :
    signed s (weight m e) = signed s m * 2 ^ e := by
  cases s
  · exact (neg_mul _ _).symm
  · rfl

theorem nearest_add {u v : UnpackedFloat} (hu : IsRounded u) (hv : IsRounded v) :
    Nearest (rational u + rational v) (UnpackedFloat.add Format.binary64 u v) := by
  cases hu with
  | zero s =>
    cases hv with
    | zero s' =>
      have hzero : rational (.zero s) + rational (.zero s') = 0 := add_zero _
      rw [hzero]
      simp only [UnpackedFloat.add]
      split <;> exact nearest_zero _
    | @finite s' m' e' pos' h' =>
      have hsame : rational (.zero s) + rational (.finite s' m' e' pos') =
          rational (.finite s' m' e' pos') := zero_add _
      rw [hsame]
      exact nearest_self (.finite s' pos' h')
  | @finite s m e pos h =>
    cases hv with
    | zero s' =>
      have hsame : rational (.finite s m e pos) + rational (.zero s') =
          rational (.finite s m e pos) := add_zero _
      rw [hsame]
      exact nearest_self (.finite s pos h)
    | @finite s' m' e' pos' h' =>
      have hsum : rational (.finite s m e pos) + rational (.finite s' m' e' pos') =
          ((s.apply (decreaseExponent m e (min e e')).1 +
            s'.apply (decreaseExponent m' e' (min e e')).1 : Int) : ℚ) * 2 ^ min e e' := by
        rw [rational, rational, ← weight_decreaseExponent m (min_le_left e e'),
          ← weight_decreaseExponent m' (min_le_right e e'), signed_weight, signed_weight,
          Int.cast_add, cast_apply, cast_apply, add_mul]
      rw [hsum]
      exact nearest_normalize _ _ .positive

/-- Subtracting is adding the opposite. -/
theorem sub_eq_add_opposite {u v : UnpackedFloat} (hu : IsRounded u) (hv : IsRounded v) :
    UnpackedFloat.sub Format.binary64 u v = UnpackedFloat.add Format.binary64 u v.neg := by
  cases hu with
  | zero s => cases hv <;> rfl
  | finite s pos h =>
    cases hv with
    | zero s' => rfl
    | @finite s' m' e' pos' h' =>
      have hsign : ∀ n m : Int, n - s'.apply m = n + (-s').apply m := by
        intro n m
        cases s'
        · exact Int.sub_neg n m
        · rfl
      simp only [UnpackedFloat.sub, UnpackedFloat.add, UnpackedFloat.neg, hsign]

theorem nearest_sub {u v : UnpackedFloat} (hu : IsRounded u) (hv : IsRounded v) :
    Nearest (rational u - rational v) (UnpackedFloat.sub Format.binary64 u v) := by
  rw [sub_eq_add_opposite hu hv, sub_eq_add_neg, ← rational_neg]
  exact nearest_add hu hv.neg

/-! ### Doubles -/

section

variable (hx : isFinite x = true) (hy : isFinite y = true)

include hx hy

theorem rounds_mul : Rounds (x * y) (value x * value y) :=
  ⟨_, rfl, nearest_mul (isRounded_unpack hx) (isRounded_unpack hy)⟩

theorem rounds_div (hne : value y ≠ 0) : Rounds (x / y) (value x / value y) :=
  ⟨_, rfl, nearest_div (isRounded_unpack hx) (isRounded_unpack hy) hne⟩

theorem rounds_add : Rounds (x + y) (value x + value y) :=
  ⟨_, rfl, nearest_add (isRounded_unpack hx) (isRounded_unpack hy)⟩

theorem rounds_sub : Rounds (x - y) (value x - value y) :=
  ⟨_, rfl, nearest_sub (isRounded_unpack hx) (isRounded_unpack hy)⟩

end

/-- What is not finite does not become finite in a product. -/
theorem isFinite_left_of_mul (h : isFinite (x * y) = true) : isFinite x = true := by
  have hnan : (Float.Model.pack .notANumber).unpack = .notANumber := unpack_packComponents _ _ _
  have hinfinity : ∀ s, (Float.Model.pack (.infinity s)).unpack = .infinity s :=
    fun s => unpack_packComponents s (-1#11) 0
  have hrounded := isRounded_unpack h
  have hmul : (x * y).toModel = Float.Model.pack
      (UnpackedFloat.mul Format.binary64 x.toModel.unpack y.toModel.unpack) := rfl
  have hx := unpack_eq x
  rw [hmul] at hrounded
  cases hdecode : decode x with
  | finite negative m q => rw [isFinite, hdecode]
  | nan =>
    rw [hdecode, Value.unpacked] at hx
    rw [hx, UnpackedFloat.mul, hnan] at hrounded
    cases hrounded
  | infinite negative =>
    rw [hdecode, Value.unpacked] at hx
    cases hv : y.toModel.unpack <;>
      simp only [hx, hv, UnpackedFloat.mul, hnan, hinfinity] at hrounded <;> cases hrounded

theorem rounds_toFloat (w : UInt64) : Rounds w.toFloat w.toNat := by
  refine ⟨_, rfl, ?_⟩
  have hnormalize := nearest_normalize (w.toNat : Int) 0 .positive
  rw [zpow_zero, mul_one, Int.cast_natCast] at hnormalize
  exact hnormalize

/-- Words are rounded once. -/
theorem rounds_ofNat (hn : n ≤ maxWord) : Rounds (ofNat n) n := by
  have hexact : (UInt64.ofNat n).toNat = n := UInt64.toNat_ofNat_of_lt' (Nat.lt_succ_of_le hn)
  have hword := rounds_toFloat (UInt64.ofNat n)
  rw [hexact] at hword
  rw [ofNat, if_pos hn]
  exact hword

theorem isFinite_ofNat (hn : n ≤ maxWord) : isFinite (ofNat n) = true := by
  refine (rounds_ofNat hn).isFinite ?_
  have hword : (n : ℚ) ≤ 2 ^ 64 := by
    have : maxWord ≤ 2 ^ 64 := by decide
    exact_mod_cast hn.trans this
  have hpower : (2 : ℚ) ^ (64 : Int) ≤ 2 ^ (1023 : Int) :=
    zpow_le_zpow_right₀ one_le_two (by decide)
  rw [abs_of_nonneg (Nat.cast_nonneg n)]
  exact hword.trans hpower

/-- A word with at most 53 bits is not changed. -/
theorem value_ofNat (hn : n < 2 ^ 53) : value (ofNat n) = n := by
  have hword : n ≤ maxWord := by
    unfold maxWord
    omega
  refine (rounds_ofNat hword).value_eq (isFinite_ofNat hword) hn (by decide : -1074 ≤ (0 : Int)) ?_
  rw [weight, zpow_zero, mul_one]

end StagedLoad.Binary64
