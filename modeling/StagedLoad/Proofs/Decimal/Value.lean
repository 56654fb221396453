import StagedLoad.Proofs.Decimal.Rounding

/-!
# The numbers that doubles stand for

A finite double stands for a rational number.  Its mantissa and exponent are the only ones
that a double may have for that number, so doubles are ordered as their numbers are, and a number
that has such a mantissa and exponent is unpacked as it was packed.

## Main definitions

* `Binary64.Canonical` — a mantissa and an exponent as they stand in a double.
* `Binary64.IsRounded` — an unpacked number with such a mantissa and exponent.
* `Binary64.value` — the number that a double stands for.

## Main results

* `Binary64.unpack_eq` — unpacking is decoding.
* `Binary64.unpack_pack` — what has been rounded is unpacked as it was packed.
* `Binary64.lt_iff` — finite doubles are ordered as their numbers.
* `Binary64.round_eq`, `Binary64.ceilNat_eq` — rounding doubles to whole numbers.
-/

namespace StagedLoad.Binary64

open Float.Model Float.Model.UnpackedFloat

/-- A mantissa and an exponent as they stand in a double: there are 53 bits, unless the exponent
is the least. -/
structure Canonical (m : Nat) (e : Int) : Prop where
  /-- There are at most 53 bits. -/
  lt : m < 2 ^ 53
  /-- The exponent is in range. -/
  min : -1074 ≤ e
  /-- The first bit is set, or the exponent cannot be less. -/
  full : 2 ^ 52 ≤ m ∨ e = -1074

/-- An unpacked number with a mantissa and an exponent as they stand in a double; the exponent
may be too great for one. -/
inductive IsRounded : UnpackedFloat → Prop
  /-- One of the zeros. -/
  | zero (s : Sign) : IsRounded (.zero s)
  /-- A number with a mantissa. -/
  | finite (s : Sign) {m : Nat} {e : Int} (pos : 0 < m) (h : Canonical m e) :
    IsRounded (.finite s m e pos)

/-- A number with its sign. -/
def signed : Sign → ℚ → ℚ
  | .positive, t => t
  | .negative, t => -t

/-- The number that an unpacked double stands for; zero for what is no number. -/
def rational : UnpackedFloat → ℚ
  | .finite s m e _ => signed s (weight m e)
  | _ => 0

/-- The number that a double stands for. -/
def value (x : Float) : ℚ := rational x.toModel.unpack

/-! ### Unpacking and decoding -/

/-- The sign of a number. -/
def signOf (negative : Bool) : Sign := if negative then .negative else .positive

/-- A decoded double, unpacked. -/
def Value.unpacked : Value → UnpackedFloat
  | .nan => .notANumber
  | .infinite negative => .infinity (signOf negative)
  | .finite negative m q =>
    if h : m = 0 then .zero (signOf negative)
    else .finite (signOf negative) m q (Nat.pos_of_ne_zero h)

theorem toNat_unpackMantissa (x : Float) :
    (@unpackMantissa Format.binary64 x.toBits.toBitVec).toNat =
      x.toBits.toNat % fractionWeight := by
  unfold unpackMantissa
  rw [BitVec.toNat_cast, BitVec.extractLsb_toNat]
  rfl

theorem ofBitVec_unpackSign (x : Float) :
    Sign.ofBitVec (@unpackSign Format.binary64 x.toBits.toBitVec) =
      signOf (x.toBits.toNat / signWeight == 1) := by
  have hlt : x.toBits.toNat / signWeight < 2 := by
    have : x.toBits.toNat < 2 * signWeight := UInt64.toNat_lt x.toBits
    rw [Nat.div_lt_iff_lt_mul (by decide)]
    exact this
  have hbit : (@unpackSign Format.binary64 x.toBits.toBitVec).toNat =
      x.toBits.toNat / signWeight := by
    unfold unpackSign
    rw [BitVec.toNat_cast, BitVec.extractLsb_toNat, Nat.shiftRight_eq_div_pow]
    exact Nat.mod_eq_of_lt hlt
  unfold Sign.ofBitVec signOf
  by_cases hzero : x.toBits.toNat / signWeight = 0
  · have hsign : @unpackSign Format.binary64 x.toBits.toBitVec = 0#1 :=
      BitVec.eq_of_toNat_eq (hbit.trans hzero)
    rw [if_pos hsign, hzero]
    rfl
  · have hsign : ¬ @unpackSign Format.binary64 x.toBits.toBitVec = 0#1 := by
      intro hsign
      rw [hsign] at hbit
      exact hzero hbit.symm
    have hone : x.toBits.toNat / signWeight = 1 := by omega
    rw [if_neg hsign, hone]
    rfl

/-- An unpacked double by its fields. -/
def ofFields (s : Sign) (field : BitVec 11) (fraction : BitVec 52) : UnpackedFloat :=
  if field = -1#11 then
    if fraction = 0#52 then .infinity s else .notANumber
  else if field = 0#11 then
    if h : fraction = 0#52 then .zero s
    else .finite s fraction.toNat (-1074) (by simpa [BitVec.toNat_pos, BitVec.pos_iff_ne_zero])
  else .finite s (2 ^ 52 + fraction.toNat) ((field.toNat : Int) - 1075) (by omega)

theorem unpack_eq_ofFields (b : BitVec 64) :
    UnpackedFloat.unpack Format.binary64 b =
      ofFields (Sign.ofBitVec (@unpackSign Format.binary64 b)) (@unpackExponent Format.binary64 b)
        (@unpackMantissa Format.binary64 b) := by
  have hbias : (Format.binary64.exponentBias : Int) = 1023 := rfl
  unfold UnpackedFloat.unpack ofFields
  dsimp only
  split
  case isTrue => rfl
  case isFalse =>
    split
    case isTrue hzero =>
      split
      case isTrue => rfl
      case isFalse =>
        congr 1
        rw [hzero]
        rfl
    case isFalse =>
      congr 1
      rw [BitVec.toNat_append, ← Nat.shiftLeft_add_eq_or_of_lt (BitVec.isLt _)]
      rfl

/-- Unpacking is decoding. -/
theorem unpack_eq (x : Float) : x.toModel.unpack = (decode x).unpacked := by
  have hfraction : ∀ w : BitVec 52, w = 0#52 ↔ w.toNat = 0 := by
    intro w
    rw [← BitVec.toNat_inj]
    rfl
  have hmax : ∀ w : BitVec 11, w = -1#11 ↔ w.toNat = 2047 := by
    intro w
    rw [← BitVec.toNat_inj]
    rfl
  have hmin : ∀ w : BitVec 11, w = 0#11 ↔ w.toNat = 0 := by
    intro w
    rw [← BitVec.toNat_inj]
    rfl
  refine (unpack_eq_ofFields x.toBits.toBitVec).trans ?_
  unfold ofFields decode decodeBits
  simp only [ofBitVec_unpackSign, hfraction, hmax, hmin, toNat_unpackMantissa,
    toNat_unpackExponent]
  generalize (x.toBits.toNat / signWeight == 1) = negative
  have hweight : fractionWeight = 2 ^ 52 := rfl
  split
  · split <;> rfl
  · split
    · rfl
    · rw [Value.unpacked, dif_neg (by omega)]
      rfl

/-- A finite double is decoded to a mantissa and an exponent as they stand in one. -/
theorem canonical_of_decode {x : Float} {negative : Bool} {m : Nat} {q : Int}
    (h : decode x = .finite negative m q) : Canonical m q ∧ q ≤ 971 := by
  have hfraction : x.toBits.toNat % fractionWeight < 2 ^ 52 := Nat.mod_lt _ (by decide)
  have hfield : x.toBits.toNat / fractionWeight % 2048 < 2048 := Nat.mod_lt _ (by decide)
  have hweight : fractionWeight = 2 ^ 52 := rfl
  unfold decode decodeBits at h
  dsimp only at h
  split at h
  · split at h <;> cases h
  · split at h
    · cases h
      exact ⟨⟨by omega, by omega, .inr rfl⟩, by omega⟩
    · cases h
      exact ⟨⟨by omega, by omega, .inl (by omega)⟩, by omega⟩

theorem exists_decode_of_isFinite {x : Float} (h : isFinite x = true) :
    ∃ negative m q, decode x = .finite negative m q := by
  unfold isFinite at h
  split at h
  case h_1 negative m q heq => exact ⟨negative, m, q, heq⟩
  case h_2 => cases h

theorem value_of_decode {x : Float} {negative : Bool} {m : Nat} {q : Int}
    (h : decode x = .finite negative m q) : value x = signed (signOf negative) (weight m q) := by
  rw [value, unpack_eq, h, Value.unpacked]
  split
  case isTrue hzero =>
    rw [hzero]
    cases negative <;> simp [rational, signed, signOf, weight]
  case isFalse => rfl

/-- A finite double is unpacked to a mantissa and an exponent as they stand in one. -/
theorem isRounded_unpack {x : Float} (h : isFinite x = true) : IsRounded x.toModel.unpack := by
  obtain ⟨negative, m, q, hdecode⟩ := exists_decode_of_isFinite h
  rw [unpack_eq, hdecode, Value.unpacked]
  split
  case isTrue => exact .zero _
  case isFalse => exact .finite _ _ (canonical_of_decode hdecode).1

/-! ### Packing -/

theorem unpackSign_packComponents {spec : Format} {s : Sign} {field fraction} :
    unpackSign (packComponents spec s field fraction) = s.toBitVec := by
  ext i hi
  have hzero : i = 0 := by omega
  subst hzero
  simp [unpackSign, packComponents, BitVec.getLsbD_append, BitVec.getElem_append]

theorem ofBitVec_toBitVec (s : Sign) : Sign.ofBitVec s.toBitVec = s := by
  cases s <;> rfl

theorem unpack_packComponents (s : Sign) (field : BitVec 11) (fraction : BitVec 52) :
    UnpackedFloat.unpack Format.binary64 (packComponents Format.binary64 s field fraction) =
      ofFields s field fraction := by
  rw [unpack_eq_ofFields, unpackSign_packComponents, ofBitVec_toBitVec,
    unpackMantissa_packComponents, unpackExponent_packComponents]

theorem ofFields_of_full (s : Sign) {m : Nat} {e : Int} (pos : 0 < m) (hlow : 2 ^ 52 ≤ m)
    (hhigh : m < 2 ^ 53) (hmin : -1074 ≤ e) (hmax : e ≤ 971) :
    ofFields s (BitVec.ofNat 11 (e + 1075).toNat) (BitVec.ofNat 52 m) = .finite s m e pos := by
  obtain ⟨hfield, hzero, hmost⟩ := exponentField_spec hmin hmax
  have hfraction := fraction_of_full hlow hhigh
  unfold ofFields
  rw [if_neg hmost, if_neg hzero]
  congr 1

theorem ofFields_of_lt (s : Sign) {m : Nat} (pos : 0 < m) (hhigh : m < 2 ^ 52) :
    ofFields s 0#11 (BitVec.ofNat 52 m) = .finite s m (-1074) pos := by
  have hfraction : (BitVec.ofNat 52 m).toNat = m := by
    rw [BitVec.toNat_ofNat]
    exact Nat.mod_eq_of_lt hhigh
  have hne : BitVec.ofNat 52 m ≠ 0#52 := by
    intro hzero
    rw [hzero] at hfraction
    exact absurd hfraction.symm (Nat.ne_of_gt pos)
  unfold ofFields
  rw [if_neg (by decide), if_pos rfl, dif_neg hne]
  congr 1

/-- **What has been rounded is unpacked as it was packed**, if it is in range. -/
theorem unpack_pack {u : UnpackedFloat} (h : IsRounded u)
    (hmax : ∀ s m e pos, u = .finite s m e pos → e ≤ 971) : (Float.Model.pack u).unpack = u := by
  change UnpackedFloat.unpack Format.binary64 (UnpackedFloat.pack Format.binary64 u) = u
  cases h with
  | zero s => exact unpack_packComponents s 0 0
  | @finite s m e pos hcanonical =>
    obtain ⟨hlt, hmin, hfull⟩ := hcanonical
    have he := hmax s m e pos rfl
    simp only [UnpackedFloat.pack, biased_eq]
    rw [if_neg (by omega)]
    by_cases hlow : 2 ^ 52 ≤ m
    · have hbits : m.log2 + 1 = Format.binary64.mantissaBits := by
        rw [log2_of_full hlow hlt]
        rfl
      rw [if_pos hbits]
      exact (unpack_packComponents _ _ _).trans (ofFields_of_full s pos hlow hlt hmin he)
    · obtain rfl : e = -1074 := hfull.resolve_left hlow
      have hbits : ¬ m.log2 + 1 = Format.binary64.mantissaBits := by
        have := (Nat.log2_lt (n := m) (k := 52) (by omega)).mpr (by omega)
        change ¬ m.log2 + 1 = 53
        omega
      rw [if_neg hbits]
      exact (unpack_packComponents _ _ _).trans (ofFields_of_lt s pos (by omega))

/-- A number that is out of range is packed as an infinity. -/
theorem not_isFinite_of_pack {x : Float} {s : Sign} {m : Nat} {e : Int} {pos : 0 < m}
    (h : x.toModel = Float.Model.pack (.finite s m e pos)) (he : 972 ≤ e) :
    isFinite x = false := by
  have hinfinite : x.toModel.unpack = .infinity s := by
    rw [h]
    change UnpackedFloat.unpack Format.binary64 (UnpackedFloat.pack Format.binary64 _) = _
    simp only [UnpackedFloat.pack, biased_eq]
    rw [if_pos (by omega)]
    exact unpack_packComponents s (-1#11) 0
  cases hfinite : isFinite x with
  | false => rfl
  | true =>
    have hrounded := isRounded_unpack hfinite
    rw [hinfinite] at hrounded
    cases hrounded

/-- A double that is unpacked to what has been rounded is finite. -/
theorem isFinite_of_isRounded {x : Float} (h : IsRounded x.toModel.unpack) :
    isFinite x = true := by
  rw [unpack_eq] at h
  unfold isFinite
  cases hdecode : decode x with
  | nan => rw [hdecode] at h; cases h
  | infinite negative => rw [hdecode] at h; cases h
  | finite negative m q => rfl

/-! ### Signs -/

theorem signed_neg (s : Sign) (t : ℚ) : signed (-s) t = -signed s t := by
  cases s
  · exact (neg_neg t).symm
  · rfl

theorem abs_signed (s : Sign) (t : ℚ) : |signed s t| = |t| := by
  cases s
  · exact abs_neg t
  · rfl

theorem signed_mul (s s' : Sign) (t t' : ℚ) :
    signed (s * s') (t * t') = signed s t * signed s' t' := by
  cases s <;> cases s'
  · exact (neg_mul_neg t t').symm
  · exact (neg_mul t t').symm
  · exact (mul_neg t t').symm
  · rfl

theorem signed_div (s s' : Sign) (t t' : ℚ) :
    signed (s / s') (t / t') = signed s t / signed s' t' := by
  cases s <;> cases s'
  · exact (neg_div_neg_eq t t').symm
  · exact (neg_div t' t).symm
  · exact (div_neg t).symm
  · rfl

theorem IsRounded.neg {u : UnpackedFloat} (h : IsRounded u) : IsRounded u.neg := by
  cases h with
  | zero s => exact .zero _
  | finite s pos hcanonical => exact .finite _ pos hcanonical

theorem rational_neg (u : UnpackedFloat) : rational u.neg = -rational u := by
  cases u with
  | finite s m e pos => exact signed_neg s (weight m e)
  | zero s | infinity s | notANumber => exact neg_zero.symm

theorem unpack_neg {x : Float} (h : isFinite x = true) :
    (-x).toModel.unpack = x.toModel.unpack.neg := by
  refine unpack_pack (isRounded_unpack h).neg ?_
  intro s m e pos heq
  obtain ⟨negative, m', q, hdecode⟩ := exists_decode_of_isFinite h
  have hq := (canonical_of_decode hdecode).2
  rw [unpack_eq, hdecode, Value.unpacked] at heq
  split at heq
  · cases heq
  · cases heq
    exact hq

theorem isFinite_neg {x : Float} (h : isFinite x = true) : isFinite (-x) = true := by
  apply isFinite_of_isRounded
  rw [unpack_neg h]
  exact (isRounded_unpack h).neg

theorem value_neg {x : Float} (h : isFinite x = true) : value (-x) = -value x := by
  rw [value, unpack_neg h, rational_neg, value]

/-! ### Order -/

theorem weight_pos {m : Nat} (e : Int) (h : 0 < m) : 0 < weight m e :=
  mul_pos (Nat.cast_pos.mpr h) (zpow_pos two_pos e)

theorem weight_lt_weight {m n : Nat} (h : m < n) (e : Int) : weight m e < weight n e :=
  mul_lt_mul_of_pos_right (Nat.cast_lt.mpr h) (zpow_pos two_pos e)

/-- The number with the smaller exponent is smaller, whatever the mantissas. -/
theorem weight_lt_of_exponent_lt {m m' : Nat} {e e' : Int} (h : Canonical m e)
    (h' : Canonical m' e') (he : e < e') : weight m e < weight m' e' := by
  have hmin := h.min
  have hfull : 2 ^ 52 ≤ m' := h'.full.resolve_right (by omega)
  calc weight m e < weight (2 ^ 53) e := weight_lt_weight h.lt e
    _ = weight (2 ^ 52) (e + (1 : Nat)) := (weight_add (2 ^ 52) 1 e).symm
    _ ≤ weight m' e' := weight_le_weight hfull (by omega)

/-- Numbers are compared by their exponents, then by their mantissas. -/
theorem compare_then_eq_lt_iff {m m' : Nat} {e e' : Int} (h : Canonical m e)
    (h' : Canonical m' e') :
    (compare e e').then (compare m m') = .lt ↔ weight m e < weight m' e' := by
  rw [Ordering.then_eq_lt, Int.compare_eq_lt, Int.compare_eq_eq, Nat.compare_eq_lt]
  constructor
  · rintro (he | ⟨rfl, hm⟩)
    · exact weight_lt_of_exponent_lt h h' he
    · exact weight_lt_weight hm e
  · intro hlt
    rcases lt_trichotomy e e' with he | rfl | he
    · exact .inl he
    · refine .inr ⟨rfl, ?_⟩
      by_contra hm
      exact absurd hlt (not_lt.mpr (weight_le_weight (by omega) le_rfl))
    · exact absurd hlt (not_lt.mpr (weight_lt_of_exponent_lt h' h he).le)

theorem eq_some_lt_iff {o : Ordering} : (some o == some Ordering.lt) = true ↔ o = .lt := by
  cases o <;> decide

theorem lt_iff_rational_lt {u v : UnpackedFloat} (hu : IsRounded u) (hv : IsRounded v) :
    u.lt v = true ↔ rational u < rational v := by
  cases hu with
  | zero s =>
    cases hv with
    | zero t => exact iff_of_false Bool.false_ne_true (lt_irrefl 0)
    | @finite t m e pos h =>
      have hpos := weight_pos e pos
      cases t with
      | positive => exact iff_of_true rfl hpos
      | negative => exact iff_of_false Bool.false_ne_true (not_lt.mpr (neg_nonpos.mpr hpos.le))
  | @finite s m e pos h =>
    have hpos := weight_pos e pos
    cases hv with
    | zero t =>
      cases s with
      | positive => exact iff_of_false Bool.false_ne_true (not_lt.mpr hpos.le)
      | negative => exact iff_of_true rfl (neg_lt_zero.mpr hpos)
    | @finite t m' e' pos' h' =>
      have hpos' := weight_pos e' pos'
      cases s with
      | positive =>
        cases t with
        | positive => exact eq_some_lt_iff.trans (compare_then_eq_lt_iff h h')
        | negative =>
          exact iff_of_false Bool.false_ne_true
            (not_lt.mpr ((neg_nonpos.mpr hpos'.le).trans hpos.le))
      | negative =>
        cases t with
        | positive => exact iff_of_true rfl ((neg_lt_zero.mpr hpos).trans hpos')
        | negative =>
          -- what is negative is compared the other way around
          have hswap : ((compare e e').then (compare m m')).swap =
              (compare e' e).then (compare m' m) := by
            rw [Ordering.swap_then, Int.compare_swap, Nat.compare_swap]
          refine eq_some_lt_iff.trans ?_
          rw [hswap, compare_then_eq_lt_iff h' h]
          exact neg_lt_neg_iff.symm

/-- Finite doubles are ordered as their numbers. -/
theorem lt_iff {x y : Float} (hx : isFinite x = true) (hy : isFinite y = true) :
    x < y ↔ value x < value y :=
  decide_eq_true_iff.trans (lt_iff_rational_lt (isRounded_unpack hx) (isRounded_unpack hy))

/-! ### Whole numbers -/

/-- A decoded magnitude is the quotient that whole parts and roundings are computed from. -/
theorem weight_eq_div (m : Nat) (q : Int) :
    weight m q = ((scaled m q).1 : ℚ) / ((scaled m q).2 : ℚ) := by
  unfold weight scaled
  split
  case isTrue hq =>
    obtain ⟨n, rfl⟩ := Int.eq_ofNat_of_zero_le hq
    rw [Nat.cast_one, div_one, Int.toNat_natCast, zpow_natCast, Nat.pow_eq]
    push_cast
    rfl
  case isFalse hq =>
    obtain ⟨n, rfl⟩ : ∃ n : Nat, q = -n := ⟨(-q).toNat, by omega⟩
    rw [neg_neg, Int.toNat_natCast, zpow_neg, zpow_natCast, Nat.pow_eq]
    push_cast
    rfl

/-- The nearest integer is half a unit away at most. -/
theorem abs_round_sub_le {x : Float} (hx : isFinite x = true) :
    |(round x : ℚ) - value x| ≤ 1 / 2 := by
  obtain ⟨negative, m, q, hdecode⟩ := exists_decode_of_isFinite hx
  have hden : (0 : ℚ) < (scaled m q).2 := Nat.cast_pos.mpr (scaled_snd_pos m q)
  have hlow := two_mul_le_roundDiv (scaled m q).1 (scaled_snd_pos m q) .away
  have hhigh := roundDiv_le_two_mul (scaled m q).1 (scaled m q).2 .away
  have hnear : |(roundDiv (scaled m q).1 (scaled m q).2 .away : ℚ) - weight m q| ≤ 1 / 2 := by
    have hlow' : (2 * (scaled m q).1 : ℚ) ≤
        (2 * roundDiv (scaled m q).1 (scaled m q).2 .away + 1) * (scaled m q).2 := by
      exact_mod_cast hlow
    have hhigh' : (2 * roundDiv (scaled m q).1 (scaled m q).2 .away * (scaled m q).2 : ℚ) ≤
        2 * (scaled m q).1 + (scaled m q).2 := by
      exact_mod_cast hhigh
    rw [weight_eq_div, abs_le, neg_le_sub_iff_le_add, sub_le_iff_le_add, div_le_iff₀ hden,
      ← sub_le_iff_le_add', le_div_iff₀ hden]
    constructor <;> linarith
  rw [value_of_decode hdecode]
  simp only [round, hdecode]
  cases negative with
  | false => exact hnear
  | true =>
    rw [if_pos rfl, Int.cast_neg, Int.cast_natCast]
    change |-_ - -_| ≤ _
    rw [neg_sub_neg, abs_sub_comm]
    exact hnear

/-- What is nearer to an integer than half a unit is rounded to it. -/
theorem round_eq {x : Float} {n : Int} (hx : isFinite x = true) (h : |value x - n| < 1 / 2) :
    round x = n := by
  have hnear := abs_round_sub_le hx
  have hclose : |((round x - n : Int) : ℚ)| < 1 := by
    rw [Int.cast_sub, ← sub_add_sub_cancel _ (value x) _]
    exact (abs_add_le _ _).trans_lt (by linarith)
  have hzero : |round x - n| < 1 := by exact_mod_cast hclose
  rw [Int.abs_lt_one_iff] at hzero
  omega

/-- The least natural that a double does not exceed. -/
theorem ceilNat_le_iff {x : Float} (hx : isFinite x = true) (n : Nat) :
    ceilNat x ≤ n ↔ value x ≤ n := by
  obtain ⟨negative, m, q, hdecode⟩ := exists_decode_of_isFinite hx
  rw [value_of_decode hdecode]
  simp only [ceilNat, hdecode]
  cases negative with
  | true =>
    have hneg : signed (signOf true) (weight m q) ≤ 0 := neg_nonpos.mpr (weight_nonneg m q)
    exact iff_of_true (Nat.zero_le n) (hneg.trans (Nat.cast_nonneg n))
  | false =>
    have hden := scaled_snd_pos m q
    change _ ↔ weight m q ≤ n
    rw [weight_eq_div, div_le_iff₀ (Nat.cast_pos.mpr hden), ← Nat.lt_succ_iff,
      Nat.div_lt_iff_lt_mul hden, Nat.succ_mul]
    norm_cast
    omega

/-- What is not finite stands for zero. -/
theorem value_of_not_isFinite {x : Float} (hx : isFinite x = false) : value x = 0 := by
  rw [value, unpack_eq]
  cases hdecode : decode x with
  | finite => simp [isFinite, hdecode] at hx
  | nan | infinite => rfl

theorem ceilNat_eq (x : Float) : ceilNat x = ⌈value x⌉₊ := by
  cases hx : isFinite x with
  | true => exact eq_of_forall_ge_iff fun n => (ceilNat_le_iff hx n).trans Nat.ceil_le.symm
  | false =>
    rw [value_of_not_isFinite hx, Nat.ceil_zero]
    unfold ceilNat
    split
    case h_1 hdecode => simp [isFinite, hdecode] at hx
    case h_2 => rfl

end StagedLoad.Binary64
