import Mathlib
import StagedLoad.Duration.Basic

/-!
# How large doubles get

A sum, product or quotient of doubles is finite unless it is too large.  To see that it is not,
it is enough to know the power of two that each of them is below: the exponents add up as those
of exact numbers do, and each rounding costs one more at most.

## Main definitions

* `Binary64.Below` — an unpacked double is below a power of two.

## Main results

* `Binary64.below_add`, `Binary64.below_mul`, `Binary64.below_div` — and so are sums, products
  and quotients.
* `Binary64.isFinite_of_below` — what is below a power of two is finite.
* `Duration.isFinite_toMillis` — **the milliseconds of a duration are finite**.
-/

namespace StagedLoad.Binary64

open Float.Model Float.Model.UnpackedFloat

/-- A double is finite, and its magnitude is below `2 ^ k`. -/
inductive Below (k : Int) : UnpackedFloat → Prop
  /-- Zero is. -/
  | zero (s : Sign) : Below k (.zero s)
  /-- The mantissa has no more bits than the exponent leaves for it. -/
  | finite (s : Sign) {m : Nat} {e : Int} (pos : 0 < m) {a : Nat} (lt : m < 2 ^ a)
      (le : a + e ≤ k) : Below k (.finite s m e pos)

theorem Below.mono {j k : Int} {u : UnpackedFloat} (h : Below j u) (hjk : j ≤ k) : Below k u := by
  cases h with
  | zero s => exact .zero s
  | finite s pos lt le => exact .finite s pos lt (Int.le_trans le hjk)

/-! ### Rounding -/

theorem mantissa_shiftRight (em : ExtendedMantissa) (n : Nat) :
    (em >>> n).mantissa = em.mantissa / 2 ^ n := by
  induction n with
  | zero => exact (Nat.div_one _).symm
  | succ n ih =>
    change (em >>> n).mantissa / 2 = _
    rw [ih, Nat.div_div_eq_div_mul, Nat.pow_succ]

/-- Shifting drops bits of the mantissa, and only as many as the format has no room for. -/
theorem shiftToTargetExponent_spec (m : Nat) (e : Int) (acc : Accuracy) :
    ∃ n : Nat, (shiftToTargetExponent Format.binary64 m e acc).1.mantissa = m / 2 ^ n ∧
      (shiftToTargetExponent Format.binary64 m e acc).2 = e + n ∧
      (n = 0 ∨ e + n = max (m.log2 + 1 + e - 53) (-1074)) := by
  have htarget : Format.binary64.targetExponent (totalExponent m e) =
      max (m.log2 + 1 + e - 53) (-1074) := rfl
  refine ⟨(Format.binary64.targetExponent (totalExponent m e) - e).toNat, ?_, rfl, ?_⟩
  · refine (mantissa_shiftRight _ _).trans ?_
    cases acc with
    | exact => rfl
    | inexact o => cases o <;> rfl
  · rw [htarget]
    omega

theorem roundedMantissa_le (em : ExtendedMantissa) : em.roundedMantissa ≤ em.mantissa + 1 := by
  obtain ⟨m, roundBit, stickyBit⟩ := em
  cases roundBit <;> cases stickyBit <;>
    simp only [ExtendedMantissa.roundedMantissa, ExtendedMantissa.accuracy,
      Accuracy.roundToNearestEven] <;>
    omega

/-- What the first shift leaves of a mantissa needs one bit more at most when it is rounded. -/
theorem exists_lt_two_pow_of_shift {m r a n : Nat} {e k : Int} (ha : 0 < a) (hm : m < 2 ^ a)
    (hk : a + e < k) (hmin : -1073 ≤ k) (hr : r ≤ m / 2 ^ n + 1)
    (hn : n = 0 ∨ e + n = max (m.log2 + 1 + e - 53) (-1074)) :
    ∃ b : Nat, r < 2 ^ b ∧ b + (e + n) ≤ k := by
  rcases Nat.le_total n a with hle | hlt
  · have hquot : m / 2 ^ n < 2 ^ (a - n) := by
      rw [Nat.div_lt_iff_lt_mul (Nat.two_pow_pos n), ← Nat.pow_add, Nat.sub_add_cancel hle]
      exact hm
    refine ⟨a - n + 1, ?_, by omega⟩
    generalize m / 2 ^ n = q at hr hquot
    rw [Nat.pow_succ]
    omega
  · -- nothing is left but what rounding makes of it
    have hquot : m / 2 ^ n = 0 := by
      apply Nat.div_eq_of_lt
      exact Nat.lt_of_lt_of_le hm (Nat.pow_le_pow_right (by decide) hlt)
    have hlog : m.log2 < a := by
      by_cases hzero : m = 0
      · rw [hzero]
        exact ha
      · exact (Nat.log2_lt hzero).mpr hm
    refine ⟨1, by omega, by omega⟩

/-- Rounding costs one bit at most. -/
theorem below_roundWithAccuracy {s : Sign} {m a : Nat} {e k : Int} {acc : Accuracy}
    (ha : 0 < a) (hm : m < 2 ^ a) (hk : a + e < k) (hmin : -1073 ≤ k) :
    Below k (roundWithAccuracy Format.binary64 s m e acc) := by
  obtain ⟨n, hmantissa, hexponent, hn⟩ := shiftToTargetExponent_spec m e acc
  unfold roundWithAccuracy
  generalize shiftToTargetExponent Format.binary64 m e acc = first at hmantissa hexponent
  obtain ⟨em, e'⟩ := first
  dsimp only at hmantissa hexponent ⊢
  have hr := roundedMantissa_le em
  rw [hmantissa] at hr
  obtain ⟨b, hb, hbk⟩ := exists_lt_two_pow_of_shift ha hm hk hmin hr hn
  -- the second shift only makes room for the bit that rounding may have added
  obtain ⟨n', hmantissa', hexponent', -⟩ :=
    shiftToTargetExponent_spec em.roundedMantissa e' .exact
  generalize shiftToTargetExponent Format.binary64 em.roundedMantissa e' .exact = second
    at hmantissa' hexponent'
  split
  case isTrue => exact .zero s
  case isFalse hpos =>
    rw [hmantissa'] at hpos
    have hle : 2 ^ n' ≤ em.roundedMantissa := by
      apply Nat.le_of_not_lt
      intro hlt
      exact hpos (Nat.div_eq_of_lt hlt)
    have hlt : n' < b := (Nat.pow_lt_pow_iff_right (by decide)).mp (Nat.lt_of_le_of_lt hle hb)
    refine .finite s _ (a := b - n') ?_ ?_
    · rw [hmantissa', Nat.div_lt_iff_lt_mul (Nat.two_pow_pos n'), ← Nat.pow_add,
        Nat.sub_add_cancel (Nat.le_of_lt hlt)]
      exact hb
    · rw [hexponent', hexponent]
      omega

theorem pos_of_lt_two_pow {m a : Nat} (pos : 0 < m) (lt : m < 2 ^ a) : 0 < a := by
  apply Nat.pos_of_ne_zero
  rintro rfl
  omega

theorem shiftLeft_lt_two_pow {m a : Nat} (hm : m < 2 ^ a) (n : Nat) : m <<< n < 2 ^ (a + n) := by
  rw [Nat.shiftLeft_eq, Nat.pow_add]
  exact Nat.mul_lt_mul_of_pos_right hm (Nat.two_pow_pos n)

theorem below_round {s : Sign} {m a : Nat} {e k : Int} (ha : 0 < a) (hm : m < 2 ^ a)
    (hk : a + e < k) (hmin : -1073 ≤ k) :
    Below k (UnpackedFloat.round Format.binary64 s m e) := by
  unfold UnpackedFloat.round decreaseExponent
  dsimp only
  generalize (e - Format.binary64.targetExponent (totalExponent m e)).toNat = n
  apply below_roundWithAccuracy (a := a + n) (by omega) (shiftLeft_lt_two_pow hm n) _ hmin
  omega

theorem below_normalize {s : Sign} {n : Int} {a : Nat} {e k : Int} (ha : 0 < a)
    (hn : n.natAbs < 2 ^ a) (hk : a + e < k) (hmin : -1073 ≤ k) :
    Below k (UnpackedFloat.normalize Format.binary64 n e s) := by
  unfold UnpackedFloat.normalize
  split
  · exact below_round ha (by omega) hk hmin
  · exact .zero s
  · exact below_round ha (by omega) hk hmin

/-! ### Operations -/

theorem below_ofNat {n a : Nat} (ha : 0 < a) (hn : n < 2 ^ a) :
    Below (a + 1) (UnpackedFloat.ofNat Format.binary64 n) := by
  apply below_normalize ha
  · rw [Int.natAbs_natCast]
    exact hn
  · omega
  · omega

theorem natAbs_apply (s : Sign) (n : Nat) : (s.apply n).natAbs = n := by
  cases s with
  | negative => exact (Int.natAbs_neg n).trans (Int.natAbs_natCast n)
  | positive => exact Int.natAbs_natCast n

/-- Two mantissas that are brought to one exponent stay below the power of two. -/
theorem decreaseExponent_lt {m a : Nat} {e k j : Int} (hm : m < 2 ^ a) (hle : a + e ≤ k)
    (hj : j ≤ e) : (decreaseExponent m e j).1 < 2 ^ (k - j).toNat := by
  unfold decreaseExponent
  apply Nat.lt_of_lt_of_le (shiftLeft_lt_two_pow hm _)
  apply Nat.pow_le_pow_right (by decide)
  omega

theorem below_add {u v : UnpackedFloat} {k : Int} (hu : Below k u) (hv : Below k v)
    (hmin : -1075 ≤ k) : Below (k + 2) (UnpackedFloat.add Format.binary64 u v) := by
  have hk : k ≤ k + 2 := by omega
  cases hu with
  | zero s =>
    cases hv with
    | zero t =>
      simp only [UnpackedFloat.add]
      split
      · exact .zero s
      · exact .zero _
    | finite t pos lt le => exact (Below.finite t pos lt le).mono hk
  | @finite s m e pos a lt le =>
    cases hv with
    | zero t => exact (Below.finite s pos lt le).mono hk
    | @finite t m' e' pos' a' lt' le' =>
      -- both are written with the smaller exponent, so that their mantissas can be added
      have hfirst := decreaseExponent_lt lt le (Int.min_le_left e e')
      have hsecond := decreaseExponent_lt lt' le' (Int.min_le_right e e')
      simp only [UnpackedFloat.add]
      apply below_normalize (a := (k - min e e').toNat + 1) (by omega)
      · refine Nat.lt_of_le_of_lt (Int.natAbs_add_le _ _) ?_
        rw [natAbs_apply, natAbs_apply, Nat.pow_succ]
        omega
      · have := pos_of_lt_two_pow pos lt
        omega
      · omega

theorem below_mul {u v : UnpackedFloat} {j k : Int} (hu : Below j u) (hv : Below k v)
    (hmin : -1074 ≤ j + k) : Below (j + k + 1) (UnpackedFloat.mul Format.binary64 u v) := by
  cases hu with
  | zero s => cases hv <;> exact .zero _
  | @finite s m e pos a lt le =>
    cases hv with
    | zero t => exact .zero _
    | @finite t m' e' pos' a' lt' le' =>
      simp only [UnpackedFloat.mul]
      have hproduct : m * m' < 2 ^ (a + a') := by
        rw [Nat.pow_add]
        exact Nat.mul_lt_mul'' lt lt'
      apply below_roundWithAccuracy (pos_of_lt_two_pow (Nat.mul_pos pos pos') hproduct) hproduct
      · omega
      · omega

/-- A quotient is below the dividend, but for the exponent of the divisor. -/
theorem below_div {u : UnpackedFloat} {j : Int} {s : Sign} {m : Nat} {e : Int} {pos : 0 < m}
    (hu : Below j u) (hmin : -1074 ≤ j - e) :
    Below (j - e + 1) (UnpackedFloat.div Format.binary64 u (.finite s m e pos)) := by
  cases hu with
  | zero t => exact .zero _
  | @finite t m' e' pos' a lt le =>
    simp only [UnpackedFloat.div, divCore]
    generalize htarget : min (e' - e) _ = target
    have hle : target ≤ e' - e := by omega
    have hquot : m' <<< (e' - e - target).toNat / m < 2 ^ (a + (e' - e - target).toNat) :=
      Nat.lt_of_le_of_lt (Nat.div_le_self _ _) (shiftLeft_lt_two_pow lt _)
    have := pos_of_lt_two_pow pos' lt
    apply below_roundWithAccuracy (by omega) hquot
    · omega
    · omega

/-! ### Packing -/

/-- What is read off the fields of a double is below the power of two that its exponent field
says. -/
theorem below_unpack {s : Sign} {field : BitVec 11} {fraction : BitVec 52}
    (h : field ≠ -1#11) :
    Below (max ((field.toNat : Int) - 1022) (-1022))
      (UnpackedFloat.unpack Format.binary64
        (packComponents Format.binary64 s field fraction)) := by
  have hbias : ((Format.binary64.exponentBias : Nat) : Int) = 1023 := rfl
  unfold UnpackedFloat.unpack
  simp only [unpackMantissa_packComponents, unpackExponent_packComponents]
  rw [if_neg h]
  split
  case isTrue hzero =>
    split
    · exact .zero _
    · refine .finite _ _ (a := 52) fraction.isLt ?_
      rw [hzero, hbias]
      decide
  case isFalse =>
    refine .finite _ _ (a := 53) (1#1 ++ fraction).isLt ?_
    rw [hbias]
    omega

/-- Packing keeps a double below a power of two, if there is no overflow. -/
theorem below_unpack_pack {u : UnpackedFloat} {k : Int} (hu : Below k u) (hmin : -1022 ≤ k)
    (hmax : k ≤ 972) : Below k (Float.Model.pack u).unpack := by
  change Below k (UnpackedFloat.unpack Format.binary64 (UnpackedFloat.pack Format.binary64 u))
  have hsmall : max (((0 : BitVec 11).toNat : Int) - 1022) (-1022) ≤ k := hmin
  cases hu with
  | zero s => exact (below_unpack (by decide)).mono hsmall
  | @finite s m e pos a lt le =>
    have ha := pos_of_lt_two_pow pos lt
    have hbias : (e + Format.binary64.exponentBias +
        Format.binary64.mantissaBitsWithoutImplicit).toNat = (e + 1075).toNat := by
      change (e + (1023 : Int) + (52 : Int)).toNat = _
      omega
    simp only [UnpackedFloat.pack, hbias]
    rw [if_neg (by omega)]
    split
    -- a mantissa of fewer bits is packed as a subnormal, whatever its exponent
    case isFalse => exact (below_unpack (by decide)).mono hsmall
    case isTrue hbits =>
      have hlog : m.log2 = 52 := by
        change m.log2 + 1 = 53 at hbits
        omega
      have hlt : 52 < a := by
        rw [← hlog]
        exact (Nat.log2_lt (Nat.ne_of_gt pos)).mpr lt
      have hfield : (BitVec.ofNat 11 (e + 1075).toNat).toNat = (e + 1075).toNat := by
        rw [BitVec.toNat_ofNat]
        exact Nat.mod_eq_of_lt (by omega)
      have hne : BitVec.ofNat 11 (e + 1075).toNat ≠ -1#11 := by
        intro heq
        have hmax : (-1#11).toNat = 2047 := rfl
        rw [heq, hmax] at hfield
        omega
      apply (below_unpack hne).mono
      rw [hfield]
      omega

/-- The mantissa of a double has 53 bits, and its exponent is in range. -/
theorem decode_bounds {x : Float} {negative : Bool} {m : Nat} {q : Int}
    (h : decode x = .finite negative m q) : m < 2 * fractionWeight ∧ q ≤ 971 := by
  have hfraction : x.toBits.toNat % fractionWeight < fractionWeight := Nat.mod_lt _ (by decide)
  have hfield : x.toBits.toNat / fractionWeight % 2048 < 2048 := Nat.mod_lt _ (by decide)
  unfold decode decodeBits at h
  dsimp only at h
  split at h
  · split at h <;> cases h
  · split at h
    · cases h
      omega
    · cases h
      omega

/-- The exponent field of a double. -/
theorem toNat_unpackExponent (x : Float) :
    (@unpackExponent Format.binary64 x.toBits.toBitVec).toNat =
      x.toBits.toNat / fractionWeight % 2048 := by
  unfold unpackExponent
  rw [BitVec.toNat_cast, BitVec.extractLsb_toNat, Nat.shiftRight_eq_div_pow]
  rfl

/-- What is below a power of two is finite. -/
theorem isFinite_of_below {x : Float} {k : Int} (h : Below k x.toModel.unpack) :
    isFinite x = true := by
  have hne : x.toBits.toNat / fractionWeight % 2048 ≠ 2047 := by
    intro hmax
    rw [← toNat_unpackExponent] at hmax
    have hfield : @unpackExponent Format.binary64 x.toModel.toBits.toBitVec = -1#11 :=
      BitVec.eq_of_toNat_eq hmax
    unfold Float.Model.unpack UnpackedFloat.unpack at h
    simp only [hfield, if_true] at h
    split at h <;> cases h
  unfold isFinite decode decodeBits
  by_cases hzero : x.toBits.toNat / fractionWeight % 2048 = 0
  · simp [hzero]
  · simp [hne, hzero]

theorem below_unpack_ofNat {n a : Nat} (ha : 0 < a) (hn : n < 2 ^ a) (hmax : a ≤ 64) :
    Below (a + 1) (ofNat n).toModel.unpack := by
  have hword : n < 2 ^ 64 := Nat.lt_of_lt_of_le hn (Nat.pow_le_pow_right (by decide) hmax)
  have hle : n ≤ maxWord := by
    unfold maxWord
    omega
  have hexact : (UInt64.ofNat n).toNat = n := UInt64.toNat_ofNat_of_lt' hword
  rw [ofNat, if_pos hle]
  change Below (a + 1) (Float.Model.pack
    (UnpackedFloat.ofNat Format.binary64 (UInt64.ofNat n).toNat)).unpack
  rw [hexact]
  apply below_unpack_pack (below_ofNat ha hn) <;> omega

theorem below_unpack_add {x y : Float} {k : Int} (hx : Below k x.toModel.unpack)
    (hy : Below k y.toModel.unpack) (hmin : -1022 ≤ k) (hmax : k ≤ 970) :
    Below (k + 2) (x + y).toModel.unpack := by
  apply below_unpack_pack (below_add hx hy (by omega)) <;> omega

theorem below_unpack_mul {x y : Float} {j k : Int} (hx : Below j x.toModel.unpack)
    (hy : Below k y.toModel.unpack) (hmin : -1022 ≤ j + k) (hmax : j + k ≤ 971) :
    Below (j + k + 1) (x * y).toModel.unpack := by
  apply below_unpack_pack (below_mul hx hy (by omega)) <;> omega

theorem below_unpack_div {x y : Float} {j : Int} {s : Sign} {m : Nat} {e : Int} {pos : 0 < m}
    (hx : Below j x.toModel.unpack) (hy : y.toModel.unpack = .finite s m e pos)
    (hmin : -1022 ≤ j - e) (hmax : j - e ≤ 971) : Below (j - e + 1) (x / y).toModel.unpack := by
  change Below (j - e + 1) (Float.Model.pack (UnpackedFloat.div Format.binary64
    x.toModel.unpack y.toModel.unpack)).unpack
  rw [hy]
  apply below_unpack_pack (below_div hx (by omega)) <;> omega

end StagedLoad.Binary64

namespace StagedLoad.Duration

open Binary64

/-- A billion, as it is unpacked. -/
theorem unpack_billion : (1e9 : Float).toModel.unpack =
    .finite .positive 8388608000000000 (-23) (by decide) := rfl

/-- A thousand is below `2 ^ 10`. -/
theorem below_thousand : Below 10 (1000 : Float).toModel.unpack :=
  .finite .positive (by decide) (show 8796093022208000 < 2 ^ 53 by decide) (by decide)

/-- The fraction of a second is not what counts: the whole seconds are below `2 ^ 64`. -/
theorem below_toSeconds (d : Duration) : Below 67 d.toSeconds.toModel.unpack := by
  have hwhole : d.wholeSeconds < 2 ^ 64 := by
    have := d.nanos_lt
    unfold wholeSeconds nanosPerSecond
    omega
  have hsub : d.subsecond < 2 ^ 30 := by
    unfold subsecond nanosPerSecond
    omega
  have hseconds : Below 65 (ofNat d.wholeSeconds).toModel.unpack :=
    below_unpack_ofNat (by decide) hwhole (by decide)
  have hnanos : Below 31 (ofNat d.subsecond).toModel.unpack :=
    below_unpack_ofNat (by decide) hsub (by decide)
  have hfraction : Below 55 (ofNat d.subsecond / 1e9 : Float).toModel.unpack :=
    below_unpack_div hnanos unpack_billion (by decide) (by decide)
  exact below_unpack_add hseconds (hfraction.mono (by decide)) (by decide) (by decide)

/-- **The milliseconds of a duration are finite**, however long it is. -/
theorem isFinite_toMillis (d : Duration) : isFinite d.toMillis = true :=
  isFinite_of_below (below_unpack_mul d.below_toSeconds below_thousand (by decide) (by decide))

end StagedLoad.Duration
