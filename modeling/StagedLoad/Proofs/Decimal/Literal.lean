import StagedLoad.Decimal.Reader
import StagedLoad.Proofs.Decimal.Arithmetic

/-!
# Reading decimals as doubles

A number in a text has an exact value, and the double that is read for it is that value, rounded
once, however many digits there are and however great the exponent is.

## Main definitions

* `Literal.rational` — the exact value of a number in a text.

## Main results

* `Binary64.rounds_ofScientific` — a mantissa times a power of ten is rounded once.
* `Literal.rounds_toFloat` — **a number in a text is rounded once**.
-/

namespace StagedLoad.Binary64

open Float.Model Float.Model.UnpackedFloat

variable {x : Float} {t : ℚ}

/-! ### Out of range -/

/-- What has an exponent that is too great is packed like an infinity. -/
theorem pack_of_exponent {s : Sign} {m : Nat} {e : Int} {pos : 0 < m} (he : 972 ≤ e) :
    Float.Model.pack (.finite s m e pos) = Float.Model.pack (.infinity s) := by
  unfold Float.Model.pack
  congr 2
  simp only [UnpackedFloat.pack, biased_eq]
  rw [if_pos (by omega)]

/-- A natural that is too great is rounded to infinity. -/
theorem rounds_infinity {n : Nat} (hx : x.toModel = Float.Model.pack (.infinity .positive))
    (hn : (2 : ℚ) ^ (1024 : Int) ≤ n) : Rounds x n := by
  have hlow : (0 : ℚ) < 2 ^ (1024 : Int) := zpow_pos two_pos _
  have hpos : n ≠ 0 := Nat.cast_ne_zero.mp (hlow.trans_le hn).ne'
  have hnearest := nearest_round .positive hpos 0
  have hvalue : signed .positive (weight n 0) = n := by rw [signed, weight, zpow_zero, mul_one]
  rw [hvalue] at hnearest
  refine ⟨_, ?_, hnearest⟩
  -- what it is rounded to is not below the least number that is out of range
  obtain ⟨v, hv, hgreat⟩ := exists_isRounded_weight (m := 1) (e := 1024) (by decide) (by decide)
  rw [weight, Nat.cast_one, one_mul] at hgreat
  have hle := hnearest.ge v hv (by rw [hgreat]; exact hn)
  rw [hgreat] at hle
  generalize UnpackedFloat.round Format.binary64 .positive n 0 = u at hnearest hle
  cases hnearest.rounded with
  | zero s => exact absurd hle (not_le.mpr hlow)
  | @finite s m e pos hc =>
    cases s with
    | negative =>
      exact absurd hle (not_le.mpr ((neg_nonpos.mpr (weight_nonneg m e)).trans_lt hlow))
    | positive =>
      have he : 972 ≤ e := by
        by_contra hlt
        have hmax : weight m e < weight (2 ^ 53) 971 :=
          (weight_lt_weight hc.lt e).trans_le (weight_le_weight le_rfl (by omega))
        have hpower : weight (2 ^ 53) 971 = 2 ^ (1024 : Int) := by
          rw [weight, show (1024 : Int) = (53 : Nat) + 971 by decide, zpow_add₀ two_ne_zero,
            zpow_natCast]
          norm_num
        rw [hpower] at hmax
        exact absurd hle (not_le.mpr hmax)
      rw [hx, pack_of_exponent he]

/-- A number that is too small is rounded to zero. -/
theorem nearest_zero_of_small (h0 : 0 ≤ t) (ht : t ≤ 2 ^ (-1075 : Int)) :
    Nearest t (.zero .positive) where
  rounded := .zero _
  near := by
    have hzero : rational (.zero .positive) = 0 := rfl
    rw [hzero, zero_sub, abs_neg, abs_of_nonneg h0]
    have : 0 ≤ t / 2 ^ 53 := div_nonneg h0 (by norm_num)
    linarith
  le := fun v _ hle => h0.trans hle
  ge := by
    intro v hv hle
    by_contra hpos
    change ¬ rational v ≤ 0 at hpos
    obtain ⟨s, m, e, hc, hvalue⟩ := hv.exists_weight
    rw [hvalue] at hle hpos
    cases s with
    | negative => exact hpos (neg_nonpos.mpr (weight_nonneg m e))
    | positive =>
      have hm : 1 ≤ m := by
        by_contra hzero
        obtain rfl : m = 0 := by omega
        exact hpos (by rw [signed, weight, Nat.cast_zero, zero_mul])
      have hleast : weight 1 (-1074) ≤ weight m e := weight_le_weight hm hc.min
      rw [weight, Nat.cast_one, one_mul] at hleast
      have hlt : (2 : ℚ) ^ (-1075 : Int) < 2 ^ (-1074 : Int) :=
        zpow_lt_zpow_right₀ one_lt_two (by decide)
      have : weight m e ≤ t := hle
      linarith

/-- The opposite number is rounded to the opposite double. -/
theorem Rounds.neg (h : Rounds x t) : Rounds (-x) (-t) := by
  obtain ⟨u, hu, hnearest⟩ := h
  refine ⟨u.neg, ?_, hnearest.neg⟩
  have hneg : (-x).toModel = Float.Model.pack x.toModel.unpack.neg := rfl
  rw [hneg, hu]
  by_cases hgreat : ∃ s m e pos, u = .finite s m e pos ∧ 972 ≤ e
  · obtain ⟨s, m, e, pos, rfl, he⟩ := hgreat
    have hinfinite : (Float.Model.pack (.infinity s)).unpack = .infinity s :=
      unpack_packComponents s (-1#11) 0
    rw [pack_of_exponent he, hinfinite]
    exact (pack_of_exponent he).symm
  · have hmax : ∀ s m e pos, u = .finite s m e pos → e ≤ 971 := by
      intro s m e pos heq
      by_contra hlt
      exact hgreat ⟨s, m, e, pos, heq, by omega⟩
    rw [unpack_pack hnearest.rounded hmax]

/-! ### Powers of ten -/

/-- A double is a natural. -/
def isNatural (x : Float) (n : Nat) : Bool :=
  match decode x with
  | .finite false m q => (scaled m q).1 == n * (scaled m q).2
  | _ => false

theorem value_of_isNatural {n : Nat} (h : isNatural x n = true) :
    isFinite x = true ∧ value x = n := by
  unfold isNatural at h
  split at h
  case h_1 m q hdecode =>
    have hden : ((scaled m q).2 : ℚ) ≠ 0 := Nat.cast_ne_zero.mpr (scaled_snd_pos m q).ne'
    refine ⟨by rw [isFinite, hdecode], ?_⟩
    rw [value_of_decode hdecode]
    change weight m q = n
    rw [weight_eq_div, div_eq_iff hden]
    exact_mod_cast eq_of_beq h
  case h_2 => cases h

theorem value_hundred : isFinite 100 = true ∧ value 100 = 100 := by
  have h : isNatural 100 100 = true := by decide +kernel
  exact_mod_cast value_of_isNatural h

theorem value_thousand : isFinite 1000 = true ∧ value 1000 = 1000 := by
  have h : isNatural 1000 1000 = true := by decide +kernel
  exact_mod_cast value_of_isNatural h

theorem value_billion : isFinite 1e9 = true ∧ value 1e9 = 1000000000 := by
  have h : isNatural 1e9 1000000000 = true := by decide +kernel
  exact_mod_cast value_of_isNatural h

theorem isNatural_powerOfTen : ∀ (e : Nat) (h : e < Float.exactlyRepresentablePowersOfTen.size),
    isNatural Float.exactlyRepresentablePowersOfTen[e] (10 ^ e) = true := by
  decide +kernel

/-- The mantissa and the power of ten are doubles, and their product or quotient is rounded. -/
theorem rounds_small {m e : Nat} (hm : m < 2 ^ 53)
    (he : e < Float.exactlyRepresentablePowersOfTen.size) :
    Rounds (m.toUInt64.toFloat * Float.exactlyRepresentablePowersOfTen[e]) (m * 10 ^ e) ∧
      Rounds (m.toUInt64.toFloat / Float.exactlyRepresentablePowersOfTen[e]) (m / 10 ^ e) := by
  have hword : m ≤ maxWord := by
    unfold maxWord
    omega
  have hsame : m.toUInt64.toFloat = ofNat m := (if_pos hword).symm
  obtain ⟨hpower, hvalue⟩ := value_of_isNatural (isNatural_powerOfTen e he)
  rw [Nat.cast_pow, Nat.cast_ofNat] at hvalue
  rw [hsame, ← hvalue, ← value_ofNat hm]
  refine ⟨rounds_mul (isFinite_ofNat hword) hpower,
    rounds_div (isFinite_ofNat hword) hpower ?_⟩
  rw [hvalue]
  exact pow_ne_zero e (by norm_num)

theorem one_le_cast {m : Nat} (hm : m ≠ 0) : (1 : ℚ) ≤ m :=
  Nat.one_le_cast.mpr (Nat.pos_of_ne_zero hm)

/-- An exponent of ten that is beyond those of two. -/
theorem rounds_of_great {m : Nat} {e : Int} (hm : m ≠ 0) (he : 2048 < e)
    (hx : x.toModel = Float.Model.pack (.infinity .positive)) : Rounds x (m * 10 ^ e) := by
  obtain ⟨k, rfl⟩ := Int.eq_ofNat_of_zero_le (by omega : 0 ≤ e)
  have hnatural : (m : ℚ) * 10 ^ (k : Int) = (m * 10 ^ k : Nat) := by
    rw [zpow_natCast]
    push_cast
    rfl
  rw [hnatural]
  refine rounds_infinity hx ?_
  rw [← hnatural]
  calc (2 : ℚ) ^ (1024 : Int) ≤ 2 ^ (k : Int) := zpow_le_zpow_right₀ one_le_two (by omega)
    _ ≤ 10 ^ (k : Int) := zpow_le_zpow_left₀ (by omega) zero_le_two (by norm_num)
    _ ≤ m * 10 ^ (k : Int) :=
      le_mul_of_one_le_left (zpow_nonneg (by norm_num) _) (one_le_cast hm)

/-- An exponent of ten that the mantissa cannot make up for. -/
theorem nearest_of_small {m : Nat} {e : Int} (he : e < -(2048 + m.log2 : Int)) :
    Nearest (m * 10 ^ e) (.zero .positive) := by
  have hten : (0 : ℚ) ≤ 10 ^ e := zpow_nonneg (by norm_num) _
  refine nearest_zero_of_small (mul_nonneg (Nat.cast_nonneg m) hten) ?_
  have hmantissa : (m : ℚ) ≤ 2 ^ ((m.log2 + 1 : Nat) : Int) := by
    rw [zpow_natCast]
    exact_mod_cast (Nat.lt_log2_self (n := m)).le
  have hpower : (10 : ℚ) ^ e ≤ 2 ^ e := by
    obtain ⟨k, rfl⟩ : ∃ k : Nat, e = -k := ⟨(-e).toNat, by omega⟩
    rw [zpow_neg, zpow_neg, zpow_natCast, zpow_natCast]
    exact inv_anti₀ (pow_pos two_pos k) (pow_le_pow_left₀ zero_le_two (by norm_num) k)
  calc (m : ℚ) * 10 ^ e ≤ 2 ^ ((m.log2 + 1 : Nat) : Int) * 2 ^ e :=
        mul_le_mul hmantissa hpower hten (zpow_nonneg zero_le_two _)
    _ = 2 ^ (((m.log2 + 1 : Nat) : Int) + e) := (zpow_add₀ two_ne_zero _ _).symm
    _ ≤ 2 ^ (-1075 : Int) := zpow_le_zpow_right₀ one_le_two (by omega)

/-- A product with a power of ten of any size. -/
theorem nearest_mul_powerOfTen {m : Nat} (k : Nat) (pos : 0 < m <<< 53) (pos' : 0 < 10 ^ k) :
    Nearest (m * 10 ^ k) (UnpackedFloat.mul Format.binary64
      (.finite .positive (m <<< 53) (-53) pos) (.finite .positive (10 ^ k) 0 pos')) := by
  have hvalue : (m : ℚ) * (10 : ℚ) ^ k =
      signed .positive (((m <<< 53 * 10 ^ k : Nat) : ℚ) * 2 ^ (-53 + 0 : Int)) := by
    rw [Nat.shiftLeft_eq, signed, add_zero, zpow_neg, ← div_eq_mul_inv]
    push_cast
    field_simp
  have hroom : 52 ≤ (m <<< 53 * 10 ^ k).log2 := by
    rw [Nat.shiftLeft_eq] at pos ⊢
    refine (Nat.le_log2 (Nat.mul_pos pos pos').ne').mpr ?_
    calc 2 ^ 52 ≤ 1 * 2 ^ 53 := by decide
      _ ≤ m * 2 ^ 53 := Nat.mul_le_mul_right _ (Nat.pos_of_mul_pos_right pos)
      _ ≤ m * 2 ^ 53 * 10 ^ k := Nat.le_mul_of_pos_right _ pos'
  rw [hvalue]
  exact nearest_roundWithAccuracy .positive (tells_exact _) (.inl hroom)

/-- A quotient by a power of ten of any size. -/
theorem nearest_div_powerOfTen {m : Nat} (k : Nat) (pos : 0 < m) (pos' : 0 < 10 ^ k) :
    Nearest (m / 10 ^ k) (UnpackedFloat.div Format.binary64
      (.finite .positive m 0 pos) (.finite .positive (10 ^ k) 0 pos')) := by
  have hdiv := nearest_div_finite .positive .positive 0 0 pos pos'
  have hm : rational (.finite .positive m 0 pos) = m := by
    rw [rational, signed, weight, zpow_zero, mul_one]
  have hk : rational (.finite .positive (10 ^ k) 0 pos') = 10 ^ k := by
    rw [rational, signed, weight, zpow_zero, mul_one]
    push_cast
    rfl
  rwa [hm, hk] at hdiv

/-- The exponent is out of reach of every double, or the product or quotient is rounded. -/
theorem rounds_model (m : Nat) (e : Int) :
    Rounds (Float.ofModel (Float.Model.ofScientific m e)) (m * 10 ^ e) := by
  have hmodel : (Float.ofModel (Float.Model.ofScientific m e)).toModel =
      Float.Model.pack (UnpackedFloat.ofScientific Format.binary64 m e) := rfl
  have hbits : (2 : Int) ^ Format.binary64.exponentBits = 2048 := rfl
  unfold UnpackedFloat.ofScientific at hmodel
  rw [hbits] at hmodel
  split at hmodel
  case isTrue hm =>
    refine ⟨_, hmodel, ?_⟩
    rw [hm, Nat.cast_zero, zero_mul]
    exact nearest_zero .positive
  case isFalse hm =>
    split at hmodel
    case isTrue hgreat => exact rounds_of_great hm hgreat hmodel
    case isFalse =>
      split at hmodel
      case isTrue hsmall => exact ⟨_, hmodel, nearest_of_small hsmall⟩
      case isFalse =>
        split at hmodel
        case isTrue hsign =>
          obtain ⟨k, rfl⟩ := Int.eq_ofNat_of_zero_le hsign
          refine ⟨_, hmodel, ?_⟩
          rw [zpow_natCast]
          exact nearest_mul_powerOfTen k _ _
        case isFalse hsign =>
          obtain ⟨k, rfl⟩ : ∃ k : Nat, e = -k := ⟨(-e).toNat, by omega⟩
          refine ⟨_, hmodel, ?_⟩
          rw [zpow_neg, zpow_natCast, ← div_eq_mul_inv]
          simp only [neg_neg, Int.toNat_natCast]
          exact nearest_div_powerOfTen k _ _

/-- **A mantissa times a power of ten is rounded once.** -/
theorem rounds_ofScientific (m e : Nat) :
    Rounds (Float.ofScientific m false e) (m * 10 ^ e) ∧
      Rounds (Float.ofScientific m true e) (m / 10 ^ e) := by
  unfold Float.ofScientific
  split
  case isTrue h =>
    have he : e < Float.exactlyRepresentablePowersOfTen.size := by
      have hsize : Float.exactlyRepresentablePowersOfTen.size = 23 := rfl
      omega
    exact rounds_small h.1 he
  case isFalse =>
    have hpos := rounds_model m (Int.ofNat e)
    have hneg := rounds_model m (Int.negOfNat e)
    rw [Int.ofNat_eq_natCast, zpow_natCast] at hpos
    rw [Int.negOfNat_eq, Int.ofNat_eq_natCast, zpow_neg, zpow_natCast, ← div_eq_mul_inv] at hneg
    exact ⟨hpos, hneg⟩

end StagedLoad.Binary64

namespace StagedLoad.Literal

open Binary64

/-- The exact value of a number in a text. -/
def rational (negative : Bool) (mantissa : Nat) (exponent : Int) : ℚ :=
  signed (signOf negative) (mantissa * 10 ^ exponent)

theorem rounds_magnitude (m : Nat) (e : Int) : Rounds (magnitude m e) (m * 10 ^ e) := by
  unfold magnitude
  split
  case isTrue hsign =>
    obtain ⟨k, rfl⟩ := Int.eq_ofNat_of_zero_le hsign
    rw [Int.toNat_natCast, zpow_natCast]
    exact (rounds_ofScientific m k).1
  case isFalse hsign =>
    obtain ⟨k, rfl⟩ : ∃ k : Nat, e = -k := ⟨(-e).toNat, by omega⟩
    rw [neg_neg, Int.toNat_natCast, zpow_neg, zpow_natCast, ← div_eq_mul_inv]
    exact (rounds_ofScientific m k).2

/-- **A number in a text is rounded once.** -/
theorem rounds_toFloat (negative : Bool) (m : Nat) (e : Int) :
    Rounds (Literal.number negative m e).toFloat (rational negative m e) := by
  cases negative with
  | false => exact rounds_magnitude m e
  | true => exact (rounds_magnitude m e).neg

end StagedLoad.Literal
