import StagedLoad.Json.Reader
import StagedLoad.Json.Writer
import StagedLoad.Proofs.Decimal.Digits
import StagedLoad.Proofs.Decimal.Rounding

/-!
# Literals are doubles

A literal is rounded more than once when it is read: its digits become a word, the word becomes a
double, and that is multiplied with a power of ten, which has been rounded on its own.  So it takes
an argument that a literal which is not too large is not beyond the doubles.

## Main definitions

* `Json.EndsNumber` — what may follow a number in a text.

## Main results

* `Literal.natOfDigits_digitChars` — the digits of a natural are read back.
* `Json.Literal.pow_lt_overflow_iff`, `Json.Literal.normal_powerOfTen` — powers of ten.
* `Json.Literal.exists_double?` — **a literal is a double**, if it is clear of `overflow`.
* `Json.literal?_point`, `Json.literal?_whole`, `Json.literal?_mark` — literals in a text.
-/

namespace StagedLoad

open Binary64

/-! ### Digits -/

namespace Literal

variable {acc : Nat} {ds : List Char}

theorem natOfDigits_eq (acc : Nat) (ds : List Char) :
    natOfDigits acc ds = Nat.ofDigitChars 10 ds acc := by
  induction ds generalizing acc with
  | nil => rfl
  | cons c ds ih =>
    rw [natOfDigits_cons, ih, Nat.ofDigitChars_cons, Nat.add_comm]
    rfl

theorem natOfDigits_append (acc : Nat) (ds es : List Char) :
    natOfDigits acc (ds ++ es) = natOfDigits (natOfDigits acc ds) es := by
  induction ds generalizing acc with
  | nil => rfl
  | cons c ds ih => exact ih _

theorem natOfDigits_digitChars (n : Nat) : natOfDigits 0 (Decimal.digitChars n) = n := by
  rw [natOfDigits_eq, Decimal.digitChars]
  exact Nat.ofDigitChars_ten_toDigits

theorem digitValue_lt {c : Char} (h : c.isDigit = true) : digitValue c < 10 := by
  have hle : c.toNat ≤ 57 := by
    rw [Char.isDigit, Bool.and_eq_true_iff] at h
    exact of_decide_eq_true h.2
  unfold digitValue
  omega

/-- More digits make a number larger. -/
theorem mul_le_natOfDigits (acc : Nat) (ds : List Char) :
    acc * 10 ^ ds.length ≤ natOfDigits acc ds := by
  induction ds generalizing acc with
  | nil => simp
  | cons c ds ih =>
    rw [natOfDigits_cons, List.length_cons, Nat.pow_succ']
    refine Nat.le_trans ?_ (ih _)
    rw [← Nat.mul_assoc]
    exact Nat.mul_le_mul_right _ (by omega)

theorem le_natOfDigits (acc : Nat) (ds : List Char) : acc ≤ natOfDigits acc ds :=
  Nat.le_trans (Nat.le_mul_of_pos_right _ (Nat.pow_pos (by decide))) (mul_le_natOfDigits acc ds)

theorem natOfDigits_lt (hds : ∀ c ∈ ds, c.isDigit = true) (acc : Nat) :
    natOfDigits acc ds < (acc + 1) * 10 ^ ds.length := by
  induction ds generalizing acc with
  | nil => simp
  | cons c ds ih =>
    have hc := digitValue_lt (hds c List.mem_cons_self)
    rw [natOfDigits_cons, List.length_cons, Nat.pow_succ', ← Nat.mul_assoc]
    refine Nat.lt_of_lt_of_le (ih (fun d hd => hds d (List.mem_cons_of_mem _ hd)) _) ?_
    exact Nat.mul_le_mul_right _ (by omega)

end Literal

/-! ### Literals as doubles -/

namespace Json.Literal

open StagedLoad.Literal (natOfDigits natOfDigits_cons mul_le_natOfDigits le_natOfDigits)

open Float.Model Float.Model.UnpackedFloat

variable {acc word e : Nat} {ds : List Char}

theorem absorb_le (h : acc ≤ maxWord) (ds : List Char) : (absorb acc ds).1 ≤ maxWord := by
  induction ds generalizing acc with
  | nil => exact h
  | cons c ds ih =>
    unfold absorb
    dsimp only
    split
    case isTrue hnext => exact ih hnext
    case isFalse => exact h

/-- The digits that are left over would only make the number larger. -/
theorem absorb_mul_le (acc : Nat) (ds : List Char) :
    (absorb acc ds).1 * 10 ^ (absorb acc ds).2 ≤ natOfDigits acc ds := by
  induction ds generalizing acc with
  | nil => simp [absorb]
  | cons c ds ih =>
    unfold absorb
    dsimp only
    split
    case isTrue => exact ih _
    case isFalse => exact mul_le_natOfDigits acc (c :: ds)

theorem absorb_snd_le (acc : Nat) (ds : List Char) : (absorb acc ds).2 ≤ ds.length := by
  induction ds generalizing acc with
  | nil => exact Nat.le_refl _
  | cons c ds ih =>
    unfold absorb
    dsimp only
    split
    case isTrue => exact Nat.le_succ_of_le (ih _)
    case isFalse => exact Nat.le_refl _

/-- Digits that fit a word are all read into it. -/
theorem absorb_of_le (h : natOfDigits acc ds ≤ maxWord) :
    absorb acc ds = (natOfDigits acc ds, 0) := by
  induction ds generalizing acc with
  | nil => rfl
  | cons c ds ih =>
    rw [natOfDigits_cons] at h ⊢
    unfold absorb
    dsimp only
    rw [if_pos (Nat.le_trans (le_natOfDigits _ ds) h)]
    exact ih h

theorem overflow_eq : overflow = ((2 ^ 54 - 1) * (2 ^ 194) ^ 5 : Nat) := by
  have hunit : (((2 ^ 194) ^ 5 : Nat) : ℚ) = 2 ^ (970 : Int) := by
    have hsplit : (970 : Int) = 194 * 5 := by decide
    rw [hsplit, zpow_mul, zpow_ofNat, zpow_ofNat, Nat.cast_pow, Nat.cast_pow, Nat.cast_ofNat]
  rw [overflow, Nat.cast_mul, hunit]
  generalize (2 : ℚ) ^ (970 : Int) = unit
  norm_num

/-- The powers of ten among the doubles are those that are not rounded beyond them. -/
theorem pow_lt_overflow_iff : (10 : ℚ) ^ e < overflow ↔ e ≤ greatestPower := by
  have hgreatest : greatestPower = 154 * 2 := rfl
  have hlast : (10 ^ 154) ^ 2 < (2 ^ 54 - 1) * (2 ^ 194) ^ 5 := by decide +kernel
  have hnext : (2 ^ 54 - 1) * (2 ^ 194) ^ 5 ≤ (10 ^ 154) ^ 2 * 10 := by decide +kernel
  rw [← Nat.pow_mul 10, ← hgreatest] at hlast
  rw [← Nat.pow_mul 10, ← hgreatest, ← Nat.pow_succ] at hnext
  rw [overflow_eq, ← Nat.cast_ofNat, ← Nat.cast_pow, Nat.cast_lt]
  generalize greatestPower = p at hlast hnext
  constructor
  · intro hlt
    by_contra hmore
    have hle : 10 ^ (p + 1) ≤ 10 ^ e := Nat.pow_le_pow_right (by decide) (by omega)
    exact absurd hlt (Nat.not_lt.mpr (Nat.le_trans hnext hle))
  · intro he
    exact Nat.lt_of_le_of_lt (Nat.pow_le_pow_right (by decide) he) hlast

/-- Small powers of ten are taken from a list, which holds the same doubles. -/
theorem powerOfTen_eq (e : Nat) :
    powerOfTen e = Float.ofModel (Float.Model.ofScientific 1 (Int.ofNat e)) := by
  by_cases hsmall : e < 23
  · revert e
    decide +kernel
  · unfold powerOfTen Float.ofScientific
    rw [dif_neg (by omega)]
    rfl

/-- A power of ten is rounded once. -/
theorem normal_powerOfTen (he : e ≤ greatestPower) :
    Normal (10 ^ e * slack) (powerOfTen e).toModel.unpack := by
  have hweight : weight ((1 <<< 53) * 10 ^ e) (-53 + 0) = 10 ^ e := by
    have hone : (9007199254740992 : ℚ) * 2 ^ (-53 : Int) = 1 := by norm_num
    rw [weight, Nat.shiftLeft_eq]
    push_cast
    rw [mul_right_comm, hone, one_mul]
  have hrange : e ≤ 308 := he
  rw [powerOfTen_eq]
  change Normal _ (Float.Model.pack (UnpackedFloat.ofScientific Format.binary64 1 (e : Int))).unpack
  apply Normal.unpack_pack
  have hproduct : UnpackedFloat.ofScientific Format.binary64 1 (e : Int) =
      roundWithAccuracy Format.binary64 (.positive * .positive) ((1 <<< 53) * 10 ^ e) (-53 + 0)
        .exact := by
    unfold UnpackedFloat.ofScientific
    rw [dif_neg Nat.one_ne_zero, if_neg, if_neg, if_pos (Int.natCast_nonneg e)]
    · rfl
    · change ¬(e : Int) < -((2 : Int) ^ 11 + 0)
      omega
    · change ¬(e : Int) > (2 : Int) ^ 11
      omega
  rw [hproduct, ← hweight]
  have hbits : 2 ^ 53 ≤ (1 <<< 53) * 10 ^ e :=
    Nat.le_mul_of_pos_right _ (Nat.pow_pos (by decide))
  have hlog : 53 ≤ ((1 <<< 53) * 10 ^ e).log2 := (Nat.le_log2 (by omega)).mpr hbits
  apply normal_roundWithAccuracy (by omega) (by omega)
  rw [hweight]
  exact pow_lt_overflow_iff.mpr he
/-- A word times a power of ten is finite, if the number is clear of `overflow`. -/
theorem isFinite_ofNat_mul (hword : word ≤ maxWord) (he : e ≤ greatestPower)
    (h : word * 10 ^ e * slack * slack < overflow) :
    Binary64.isFinite (Binary64.ofNat word * powerOfTen e) = true := by
  have hpower := normal_powerOfTen he
  rcases Nat.eq_zero_or_pos word with rfl | hpos
  · obtain ⟨s, m, q, pos, hunpack, -, hlt, -, hq, -⟩ := hpower
    have hzero : Below (-1024) (Binary64.ofNat 0).toModel.unpack := .zero _
    have hbelow : Below 1024 (powerOfTen e).toModel.unpack := by
      rw [hunpack]
      exact .finite s pos hlt (by omega)
    exact isFinite_of_below (below_unpack_mul hzero hbelow (by decide) (by decide))
  · apply (normal_unpack_mul (normal_unpack_ofNat hpos hword) hpower _).isFinite
    calc (word * slack) * (10 ^ e * slack) = word * 10 ^ e * slack * slack := by ring
      _ < overflow := h

/-- **A word times a power of ten is a double**, if the number is clear of `overflow`. -/
theorem exists_scale? (hword : word ≤ maxWord) (k : Int)
    (h : word * (10 : ℚ) ^ k * slack * slack < overflow) : ∃ x, scale? word k = some x := by
  unfold scale?
  dsimp only
  split
  case isFalse => exact ⟨_, rfl⟩
  case isTrue hk =>
    obtain ⟨e, rfl⟩ := Int.eq_ofNat_of_zero_le hk
    rw [zpow_natCast] at h
    rw [Int.toNat_natCast]
    unfold scaleUp?
    split
    case isTrue he =>
      dsimp only
      rw [if_pos (isFinite_ofNat_mul hword he h)]
      exact ⟨_, rfl⟩
    case isFalse he =>
      rcases Nat.eq_zero_or_pos word with rfl | hpos
      · exact ⟨_, if_pos rfl⟩
      · -- a greater power of ten would be too large by itself
        exfalso
        apply he
        apply pow_lt_overflow_iff.mp
        refine lt_of_le_of_lt ?_ h
        have hone : (1 : ℚ) ≤ word := Nat.one_le_cast.mpr hpos
        have hslack : (1 : ℚ) ≤ slack := by norm_num [slack]
        have hpower : (0 : ℚ) ≤ 10 ^ e := pow_nonneg (by norm_num) e
        calc (10 : ℚ) ^ e = 1 * 10 ^ e * 1 * 1 := by ring
          _ ≤ word * 10 ^ e * slack * slack := by gcongr

/-- **A literal is a double**, if the number that it is written for is clear of `overflow` and the
digits before its point fit a word. -/
theorem exists_double? {l : Literal} (hwhole : natOfDigits 0 l.whole ≤ maxWord)
    (h : natOfDigits (natOfDigits 0 l.whole) (l.fraction.getD []) *
      (10 : ℚ) ^ (l.exponent.getD 0 - (l.fraction.getD []).length) * slack * slack < overflow) :
    ∃ x, l.double? = some x := by
  unfold double?
  rw [absorb_of_le hwhole]
  dsimp only
  generalize natOfDigits 0 l.whole = w at hwhole h ⊢
  generalize l.fraction.getD [] = p at h ⊢
  generalize l.exponent.getD 0 = k at h ⊢
  have hword := absorb_le hwhole p
  have hleft := absorb_snd_le w p
  have hdigits : ((absorb w p).1 * 10 ^ (absorb w p).2 : ℚ) ≤ natOfDigits w p := by
    exact_mod_cast absorb_mul_le w p
  generalize absorb w p = r at hword hleft hdigits ⊢
  obtain ⟨word, left⟩ := r
  dsimp only at hword hleft hdigits ⊢
  have hexponent : (0 : Nat) - ((p.length - left : Nat) : Int) + k = left + (k - p.length) := by
    omega
  rw [hexponent]
  have hslack : (0 : ℚ) ≤ slack := by norm_num [slack]
  have hpower : (0 : ℚ) ≤ 10 ^ (k - (p.length : Int)) := zpow_nonneg (by norm_num) _
  have hlt : word * (10 : ℚ) ^ (left + (k - p.length)) * slack * slack < overflow := by
    calc word * (10 : ℚ) ^ (left + (k - p.length)) * slack * slack
        = word * 10 ^ left * 10 ^ (k - (p.length : Int)) * slack * slack := by
          rw [zpow_add₀ (by norm_num), zpow_natCast]
          ring
      _ ≤ natOfDigits w p * 10 ^ (k - (p.length : Int)) * slack * slack := by gcongr
      _ < overflow := h
  obtain ⟨x, hx⟩ := exists_scale? hword _ hlt
  rw [hx]
  exact ⟨_, rfl⟩

theorem value?_of_double? {l : Literal} {x : Float}
    (hl : l.fraction.isSome = true ∨ l.exponent.isSome = true) (h : l.double? = some x) :
    l.value? = some (.double x) := by
  have hinteger : l.integer? = none := by
    unfold integer?
    rw [if_pos (Bool.or_eq_true_iff.mpr hl)]
  unfold value?
  rw [hinteger, h]
  rfl

end Json.Literal

/-! ### Literals in a text -/

namespace Json

/-- What cannot go on with a number. -/
def EndsNumber (rest : List Char) : Prop :=
  ∀ c cs, rest = c :: cs → c.isDigit = false ∧ c ≠ '.' ∧ c ≠ 'e' ∧ c ≠ 'E'

variable {ds rest : List Char}

theorem digits?_append (hne : ds ≠ []) (hds : ∀ c ∈ ds, c.isDigit = true)
    (hrest : ∀ c cs, rest = c :: cs → c.isDigit = false) :
    digits? (ds ++ rest) = some (ds, rest) := by
  have htake : rest.takeWhile Char.isDigit = [] := by
    cases rest with
    | nil => rfl
    | cons c cs => rw [List.takeWhile_cons_of_neg]; simp [hrest c cs rfl]
  have hdrop : rest.dropWhile Char.isDigit = rest := by
    cases rest with
    | nil => rfl
    | cons c cs => rw [List.dropWhile_cons_of_neg]; simp [hrest c cs rfl]
  unfold digits?
  rw [List.takeWhile_append_of_pos hds, List.dropWhile_append_of_pos hds, htake, hdrop,
    List.append_nil, if_neg (by simpa using hne)]

theorem whole?_append (hne : ds ≠ []) (hds : ∀ c ∈ ds, c.isDigit = true)
    (hzero : ∀ c cs, ds = '0' :: c :: cs → False)
    (hrest : ∀ c cs, rest = c :: cs → c.isDigit = false) :
    whole? (ds ++ rest) = some (ds, rest) := by
  unfold whole?
  rw [digits?_append hne hds hrest]
  split
  case h_1 c cs rest' heq =>
    simp only [Option.some.injEq, Prod.mk.injEq] at heq
    exact absurd heq.1 (hzero _ _)
  case h_2 => rfl

theorem fraction?_point (hne : ds ≠ []) (hds : ∀ c ∈ ds, c.isDigit = true)
    (hrest : ∀ c cs, rest = c :: cs → c.isDigit = false) :
    fraction? ('.' :: (ds ++ rest)) = some (some ds, rest) := by
  change (digits? (ds ++ rest)).map (fun p => (some p.1, p.2)) = _
  rw [digits?_append hne hds hrest]
  rfl

theorem fraction?_none (hrest : ∀ c cs, rest = c :: cs → c ≠ '.') :
    fraction? rest = some (none, rest) := by
  unfold fraction?
  split
  case h_1 cs => exact absurd rfl (hrest _ _ rfl)
  case h_2 => rfl

theorem exponent?_none (hrest : EndsNumber rest) : exponent? rest = some (none, rest) := by
  cases rest with
  | nil => rfl
  | cons c cs =>
    obtain ⟨-, -, hlower, hupper⟩ := hrest c cs rfl
    unfold exponent?
    dsimp only
    rw [if_neg (not_or.mpr ⟨hlower, hupper⟩)]

theorem exponent?_mark {mark : Char} {negative : Bool} (n : Nat)
    (hmark : mark = if negative then '-' else '+')
    (hrest : ∀ c cs, rest = c :: cs → c.isDigit = false) :
    exponent? ('e' :: mark :: (Decimal.digitChars n ++ rest)) =
      some (some (if negative then -(n : Int) else n), rest) := by
  have hsplit : StagedLoad.Literal.splitSign (mark :: (Decimal.digitChars n ++ rest)) =
      (negative, Decimal.digitChars n ++ rest) := by
    cases negative <;> (rw [hmark]; rfl)
  have hne : Decimal.digitChars n ≠ [] := Nat.toDigits_ne_nil
  unfold exponent?
  dsimp only
  rw [if_pos (Or.inl rfl), hsplit]
  dsimp only
  rw [digits?_append hne (fun c => Decimal.isDigit_of_mem_digitChars) hrest]
  rw [Option.map_some, StagedLoad.Literal.natOfDigits_digitChars]

theorem splitMinus_sign (negative : Bool) {c : Char} {cs : List Char} (hc : c ≠ '-') :
    splitMinus (Binary64.sign negative ++ c :: cs) = (negative, c :: cs) := by
  cases negative
  · unfold splitMinus
    simp only [Binary64.sign, Bool.false_eq_true, if_false, List.nil_append]
    split
    case h_1 heq => cases heq; exact absurd rfl hc
    case h_2 => rfl
  · rfl

/-- A number starts with a digit. -/
theorem splitMinus_append (negative : Bool) (hne : ds ≠ []) (hds : ∀ c ∈ ds, c.isDigit = true) :
    splitMinus (Binary64.sign negative ++ (ds ++ rest)) = (negative, ds ++ rest) := by
  obtain ⟨c, cs, rfl⟩ := List.exists_cons_of_ne_nil hne
  apply splitMinus_sign
  rintro rfl
  exact absurd (hds '-' List.mem_cons_self) (by decide)

/-- A literal with a point and no exponent. -/
theorem literal?_point {w p : List Char} (negative : Bool) (hne : w ≠ [])
    (hwhole : ∀ c ∈ w, c.isDigit = true) (hzero : ∀ c cs, w = '0' :: c :: cs → False)
    (hne' : p ≠ []) (hplaces : ∀ c ∈ p, c.isDigit = true) (hrest : EndsNumber rest) :
    literal? (Binary64.sign negative ++ (w ++ '.' :: (p ++ rest))) =
      some (⟨negative, w, some p, none⟩, rest) := by
  have hpoint : ∀ c cs, '.' :: (p ++ rest) = c :: cs → c.isDigit = false := by
    intro c cs h
    cases h
    decide
  unfold literal?
  rw [splitMinus_append negative hne hwhole]
  simp only [Option.bind_eq_bind]
  rw [whole?_append hne hwhole hzero hpoint]
  simp only [Option.bind_some]
  rw [fraction?_point hne' hplaces fun c cs h => (hrest c cs h).1]
  simp only [Option.bind_some]
  rw [exponent?_none hrest]
  rfl

/-- A literal without a point and an exponent. -/
theorem literal?_whole {whole : List Char} (negative : Bool) (hne : whole ≠ [])
    (hwhole : ∀ c ∈ whole, c.isDigit = true) (hzero : ∀ c cs, whole = '0' :: c :: cs → False)
    (hrest : EndsNumber rest) :
    literal? (Binary64.sign negative ++ (whole ++ rest)) =
      some (⟨negative, whole, none, none⟩, rest) := by
  unfold literal?
  rw [splitMinus_append negative hne hwhole]
  simp only [Option.bind_eq_bind]
  rw [whole?_append hne hwhole hzero fun c cs h => (hrest c cs h).1]
  simp only [Option.bind_some]
  rw [fraction?_none fun c cs h => (hrest c cs h).2.1]
  simp only [Option.bind_some]
  rw [exponent?_none hrest]
  rfl

/-- A literal with one digit before the point and an exponent. -/
theorem literal?_mark {c mark : Char} {places : List Char} (negative small : Bool) (n : Nat)
    (hc : c.isDigit = true) (hplaces : ∀ c ∈ places, c.isDigit = true)
    (hmark : mark = if small then '-' else '+') (hrest : EndsNumber rest) :
    literal? (Binary64.sign negative ++ ([c] ++ ((if places.isEmpty then [] else '.' :: places) ++
        'e' :: mark :: (Decimal.digitChars n ++ rest)))) =
      some (⟨negative, [c], if places.isEmpty then none else some places,
        some (if small then -(n : Int) else n)⟩, rest) := by
  have hne : [c] ≠ [] := List.cons_ne_nil _ _
  have hdigit : ∀ d ∈ [c], d.isDigit = true := fun d hd => List.mem_singleton.mp hd ▸ hc
  have hexponent := exponent?_mark n hmark fun c cs h => (hrest c cs h).1
  unfold literal?
  rw [splitMinus_append negative hne hdigit]
  simp only [Option.bind_eq_bind]
  cases places with
  | nil =>
    rw [whole?_append hne hdigit (by rintro _ _ ⟨⟩) (by rintro _ _ ⟨⟩; rfl)]
    simp only [Option.bind_some, List.isEmpty_nil, if_true, List.nil_append]
    rw [fraction?_none (by rintro _ _ ⟨⟩; decide)]
    simp only [Option.bind_some]
    rw [hexponent]
    rfl
  | cons d places =>
    rw [whole?_append hne hdigit (by rintro _ _ ⟨⟩) (by rintro _ _ ⟨⟩; rfl)]
    simp only [Option.bind_some, List.isEmpty_cons, Bool.false_eq_true, if_false]
    rw [List.cons_append, fraction?_point (List.cons_ne_nil _ _) hplaces (by rintro _ _ ⟨⟩; rfl)]
    simp only [Option.bind_some]
    rw [hexponent]
    rfl

end Json

end StagedLoad
