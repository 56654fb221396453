import StagedLoad.Proofs.Decimal.Shortest
import StagedLoad.Proofs.Json.Literal

/-!
# Numbers are read back

Every integer of 64 bits is read back as it is, and every finite double as some double: its
shortest decimal is written as a literal, and the literal is not beyond the doubles.  The five
greatest doubles are too near to the end of the range for the general argument; they are read back
by computation.

## Main definitions

* `Decimal.literal` — the literal that a decimal is written as.
* `Decimal.PointAt` — where the point of positional notation is.

## Main results

* `Decimal.literal?_render` — a decimal is read as its literal.
* `Decimal.exists_double?` — the literal is a double, if the decimal is clear of `overflow`.
* `Json.exists_literal?_double`, `Json.literal?_integer` — **numbers are read back**.
-/

namespace StagedLoad

open Binary64

/-! ### Decimals in a text -/

namespace Decimal

open StagedLoad.Literal (natOfDigits natOfDigits_append natOfDigits_digitChars natOfDigits_lt)

variable {d : Decimal} {rest : List Char}

/-- The literal that a decimal is written as. -/
def literal (negative : Bool) (d : Decimal) : Json.Literal :=
  let ds := digitChars d.digits
  if -5 ≤ d.leading ∧ d.leading ≤ 15 then
    if 0 ≤ d.exponent then
      ⟨negative, ds ++ List.replicate d.exponent.toNat '0', some ['0'], none⟩
    else
      let padded := List.replicate ((-d.exponent).toNat + 1 - ds.length) '0' ++ ds
      ⟨negative, padded.take (padded.length - (-d.exponent).toNat),
        some (padded.drop (padded.length - (-d.exponent).toNat)), none⟩
  else
    ⟨negative, ds.take 1, if (ds.drop 1).isEmpty then none else some (ds.drop 1), some d.leading⟩

theorem not_zero_cons {n : Nat} (hn : 0 < n) {c : Char} {cs more : List Char} :
    digitChars n ++ more = '0' :: c :: cs → False := by
  intro h
  obtain ⟨d, ds, hds⟩ := exists_digitChars_eq_cons n
  rw [hds, List.cons_append, List.cons.injEq] at h
  exact head_digitChars_ne hn hds h.1

/-- Positional notation is a literal with a point: there are digits on both sides of it, and no
zero stands before another digit. -/
structure PointAt (d : Decimal) (w p : List Char) : Prop where
  /-- The digits before the point are not too many. -/
  length_le : w.length ≤ 1 ∨ (w.length : Int) = d.leading + 1
  /-- There is one. -/
  ne_nil : w ≠ []
  /-- They are digits. -/
  whole : ∀ c ∈ w, c.isDigit = true
  /-- A zero before the point stands alone. -/
  zero : ∀ c cs, w = '0' :: c :: cs → False
  /-- There is a digit behind the point. -/
  places_ne_nil : p ≠ []
  /-- Those behind it are digits, too. -/
  places : ∀ c ∈ p, c.isDigit = true

theorem isDigit_of_mem_padded {n : Nat} {c : Char}
    (hc : c ∈ List.replicate n '0' ++ digitChars d.digits) : c.isDigit = true := by
  rcases List.mem_append.mp hc with hc | hc
  · rw [List.eq_of_mem_replicate hc]
    rfl
  · exact isDigit_of_mem_digitChars hc

theorem leading_eq (d : Decimal) : d.leading = d.exponent + (digitChars d.digits).length - 1 := rfl

/-- Zeros behind the digits fill the places up to the point. -/
theorem pointAt_whole (hd : 0 < d.digits ∨ d.exponent = 0) (hexp : 0 ≤ d.exponent) :
    d.PointAt (digitChars d.digits ++ List.replicate d.exponent.toNat '0') ['0'] where
  length_le := by
    rw [List.length_append, List.length_replicate, leading_eq]
    omega
  ne_nil := List.append_ne_nil_of_left_ne_nil Nat.toDigits_ne_nil _
  whole := by
    intro c hc
    exact isDigit_of_mem_padded (List.mem_append.mpr (List.mem_append.mp hc).symm)
  zero := by
    intro c cs h
    rcases Nat.eq_zero_or_pos d.digits with hzero | hpos
    · rw [hzero, hd.resolve_left (by omega)] at h
      cases h
    · exact not_zero_cons hpos h
  places_ne_nil := List.cons_ne_nil _ _
  places := by
    intro c hc
    rw [List.mem_singleton.mp hc]
    rfl

/-- Zeros before the digits leave one place before the point. -/
theorem pointAt_padded (hpos : 0 < d.digits) {n : Nat} (hn : 0 < n) (hexp : d.exponent = -n)
    {padded : List Char}
    (hpadded : List.replicate (n + 1 - (digitChars d.digits).length) '0' ++ digitChars d.digits =
      padded) :
    d.PointAt (padded.take (padded.length - n)) (padded.drop (padded.length - n)) := by
  have hall : ∀ c ∈ padded, c.isDigit = true := by
    intro c hc
    rw [← hpadded] at hc
    exact isDigit_of_mem_padded hc
  have hlength : padded.length = max (n + 1) (digitChars d.digits).length := by
    rw [← hpadded, List.length_append, List.length_replicate]
    omega
  have htake : (padded.take (padded.length - n)).length = padded.length - n := by
    rw [List.length_take]
    omega
  have hdrop : (padded.drop (padded.length - n)).length = n := by
    rw [List.length_drop]
    omega
  refine ⟨?_, List.ne_nil_of_length_pos (by omega), ?_, ?_, List.ne_nil_of_length_pos (by omega),
    ?_⟩
  · rw [htake, leading_eq]
    omega
  · intro c hc
    exact hall c (List.mem_of_mem_take hc)
  · -- only a digit of the decimal is followed by another one before the point
    intro c cs h
    have htwo : 2 ≤ padded.length - n := by
      rw [← htake, h, List.length_cons, List.length_cons]
      omega
    have hnone : n + 1 - (digitChars d.digits).length = 0 := by omega
    rw [hnone, List.replicate_zero, List.nil_append] at hpadded
    apply not_zero_cons hpos (c := c)
    rw [hpadded, List.append_nil, ← List.take_append_drop (padded.length - n) padded, h]
    rfl
  · intro c hc
    exact hall c (List.mem_of_mem_drop hc)

theorem exists_pointAt (hd : 0 < d.digits ∨ d.exponent = 0) (negative : Bool)
    (hpositional : -5 ≤ d.leading ∧ d.leading ≤ 15) :
    ∃ w p, d.PointAt w p ∧ d.positional true = w ++ '.' :: p ∧
      d.literal negative = ⟨negative, w, some p, none⟩ := by
  unfold positional literal
  dsimp only
  rw [if_pos hpositional]
  by_cases hexp : 0 ≤ d.exponent
  · rw [if_pos hexp, if_pos hexp]
    exact ⟨_, _, pointAt_whole hd hexp, rfl, rfl⟩
  · rw [if_neg hexp, if_neg hexp]
    exact ⟨_, _, pointAt_padded (hd.resolve_right (by omega)) (by omega) (by omega) rfl, rfl, rfl⟩

theorem literal?_scientific (negative : Bool)
    (hscientific : ¬(-5 ≤ d.leading ∧ d.leading ≤ 15)) (hrest : Json.EndsNumber rest) :
    Json.literal? (Binary64.sign negative ++ (d.scientific true ++ rest)) =
      some (d.literal negative, rest) := by
  have hdigit : ∀ c ∈ digitChars d.digits, c.isDigit = true :=
    fun c => isDigit_of_mem_digitChars
  obtain ⟨c, ds, hds⟩ := exists_digitChars_eq_cons d.digits
  unfold scientific literal
  dsimp only
  rw [if_neg hscientific]
  rw [hds] at hdigit
  have hread := Json.literal?_mark negative (decide (d.leading < 0)) d.leading.natAbs
    (hdigit c List.mem_cons_self) (fun d hd => hdigit d (List.mem_cons_of_mem _ hd)) rfl hrest
  have hexponent : (if decide (d.leading < 0) = true then -(d.leading.natAbs : Int)
      else d.leading.natAbs) = d.leading := by
    by_cases hneg : d.leading < 0
    · rw [if_pos (decide_eq_true hneg)]
      omega
    · rw [if_neg (by simpa using hneg)]
      omega
  rw [hexponent] at hread
  rw [hds]
  refine Eq.trans ?_ hread
  congr 1
  cases ds <;> by_cases hneg : d.leading < 0 <;> simp [hneg]

theorem literal?_render (hd : 0 < d.digits ∨ d.exponent = 0) (negative : Bool)
    (hrest : Json.EndsNumber rest) :
    Json.literal? (Binary64.sign negative ++ (d.render Json.layout ++ rest)) =
      some (d.literal negative, rest) := by
  change Json.literal? (_ ++ ((if -5 ≤ d.leading ∧ d.leading ≤ 15 then d.positional true
    else d.scientific true) ++ rest)) = _
  split
  case isTrue h =>
    obtain ⟨w, p, hpoint, hchars, hliteral⟩ := exists_pointAt hd negative h
    rw [hchars, hliteral, List.append_assoc, List.cons_append]
    exact Json.literal?_point negative hpoint.ne_nil hpoint.whole hpoint.zero
      hpoint.places_ne_nil hpoint.places hrest
  case isFalse h => exact literal?_scientific negative h hrest

theorem literal_isSome (negative : Bool) (d : Decimal) :
    (d.literal negative).fraction.isSome = true ∨ (d.literal negative).exponent.isSome = true := by
  unfold literal
  dsimp only
  split
  · split <;> exact Or.inl rfl
  · exact Or.inr rfl

/-- The digits on both sides of the point are a number of moderate size. -/
theorem PointAt.lt_overflow {w p : List Char} (hpoint : d.PointAt w p) (hlength : w.length ≤ 16) :
    natOfDigits (natOfDigits 0 w) p * (10 : ℚ) ^ (0 - (p.length : Int)) * slack * slack <
      overflow := by
  have hsixteen : 10 ^ w.length ≤ 10 ^ 16 := Nat.pow_le_pow_right (by decide) hlength
  have hdigit : ∀ c ∈ w ++ p, c.isDigit = true := by
    intro c hc
    exact (List.mem_append.mp hc).elim (hpoint.whole c) (hpoint.places c)
  have hall := natOfDigits_lt hdigit 0
  rw [natOfDigits_append, List.length_append, Nat.zero_add, Nat.one_mul, Nat.pow_add] at hall
  have hdigits : (natOfDigits (natOfDigits 0 w) p : ℚ) ≤ 10 ^ 16 * 10 ^ p.length := by
    exact_mod_cast Nat.le_trans (Nat.le_of_lt hall) (Nat.mul_le_mul_right _ hsixteen)
  have hpower : (10 : ℚ) ^ (0 - (p.length : Int)) * 10 ^ p.length = 1 := by
    rw [zero_sub, zpow_neg, zpow_natCast]
    exact inv_mul_cancel₀ (pow_ne_zero _ (by norm_num))
  have hunit : (1 : ℚ) ≤ 2 ^ (970 : Int) := one_le_zpow₀ one_le_two (by decide)
  have hslack : (0 : ℚ) ≤ slack := by norm_num [slack]
  have hinverse : (0 : ℚ) ≤ 10 ^ (0 - (p.length : Int)) := zpow_nonneg (by norm_num) _
  calc natOfDigits (natOfDigits 0 w) p * (10 : ℚ) ^ (0 - (p.length : Int)) * slack * slack
      ≤ 10 ^ 16 * 10 ^ p.length * (10 : ℚ) ^ (0 - (p.length : Int)) * slack * slack := by gcongr
    _ = 10 ^ 16 * (10 ^ (0 - (p.length : Int)) * 10 ^ p.length) * slack * slack := by ring
    _ = 10 ^ 16 * slack * slack := by rw [hpower, mul_one]
    _ < overflow := by
      rw [overflow, slack]
      generalize (2 : ℚ) ^ (970 : Int) = unit at hunit ⊢
      norm_num
      linarith

/-- In scientific notation there is one digit before the point, and the other ones and the exponent
make up the decimal. -/
theorem exists_literal_eq (hscientific : ¬(-5 ≤ d.leading ∧ d.leading ≤ 15)) (negative : Bool) :
    ∃ c ds, c.isDigit = true ∧
      d.literal negative =
        ⟨negative, [c], if ds.isEmpty then none else some ds, some d.leading⟩ ∧
      natOfDigits (natOfDigits 0 [c]) ds = d.digits ∧ d.leading - ds.length = d.exponent := by
  obtain ⟨c, ds, hchars⟩ := exists_digitChars_eq_cons d.digits
  refine ⟨c, ds, ?_, ?_, ?_, ?_⟩
  · exact isDigit_of_mem_digitChars (n := d.digits) (hchars ▸ List.mem_cons_self)
  · unfold literal
    dsimp only
    rw [if_neg hscientific, hchars]
    rfl
  · rw [← natOfDigits_append, List.singleton_append, ← hchars, natOfDigits_digitChars]
  · rw [leading_eq, hchars, List.length_cons]
    omega

/-- **A decimal is read as a double**, if it is clear of `overflow`. -/
theorem exists_double? (hpos : 0 < d.digits ∨ d.exponent = 0)
    (hd : d.value * slack * slack < overflow) (negative : Bool) :
    ∃ x, (d.literal negative).double? = some x := by
  by_cases hpositional : -5 ≤ d.leading ∧ d.leading ≤ 15
  · obtain ⟨w, p, hpoint, -, hl⟩ := exists_pointAt hpos negative hpositional
    have hlength : w.length ≤ 16 := by
      have := hpoint.length_le
      omega
    have hsixteen : 10 ^ w.length ≤ 10 ^ 16 := Nat.pow_le_pow_right (by decide) hlength
    have hwhole := natOfDigits_lt hpoint.whole 0
    rw [hl]
    exact Json.Literal.exists_double? (l := ⟨negative, w, some p, none⟩)
      (show natOfDigits 0 w ≤ maxWord by unfold maxWord; omega) (hpoint.lt_overflow hlength)
  · obtain ⟨c, ds, hc, hl, hdigits, hexponent⟩ := exists_literal_eq hpositional negative
    have hdigit : ∀ d ∈ [c], d.isDigit = true := by
      intro d hmem
      rw [List.mem_singleton.mp hmem]
      exact hc
    have hwhole := natOfDigits_lt hdigit 0
    rw [List.length_singleton] at hwhole
    have hplaces : (if ds.isEmpty then none else some ds).getD [] = ds := by
      cases ds <;> rfl
    rw [hl]
    apply Json.Literal.exists_double?
    · change natOfDigits 0 [c] ≤ maxWord
      unfold maxWord
      omega
    · dsimp only
      rw [hplaces, hdigits, Option.getD_some, hexponent]
      exact hd

end Decimal

/-! ### Numbers -/

namespace Json

open StagedLoad.Literal (natOfDigits_digitChars)
open Decimal (isDigit_of_mem_digitChars exists_digitChars_eq_cons)

/-- The five greatest doubles are read back by computation. -/
theorem greatest_double? : ∀ negative, ∀ k < 5,
    ((shortest (9007199254740991 - k) 971).literal negative).double?.isSome = true := by
  decide +kernel

/-- **Finite doubles are read back** as doubles. -/
theorem exists_literal?_double {x : Float} (hx : Binary64.isFinite x = true) :
    ∃ l y, l.value? = some (.double y) ∧ ∀ rest, EndsNumber rest →
      literal? (renderChars x layout ++ rest) = some (l, rest) := by
  obtain ⟨negative, m, q, hdecode⟩ : ∃ negative m q, decode x = .finite negative m q := by
    rw [Binary64.isFinite] at hx
    split at hx
    case h_1 negative m q hdecode => exact ⟨negative, m, q, hdecode⟩
    case h_2 => cases hx
  obtain ⟨d, hchars, hd, hpos⟩ : ∃ d : Decimal,
      renderChars x layout = Binary64.sign negative ++ d.render layout ∧
      (∃ y, (d.literal negative).double? = some y) ∧ (0 < d.digits ∨ d.exponent = 0) := by
    obtain ⟨hm, hq⟩ := decode_bounds hdecode
    cases m with
    | zero =>
      refine ⟨⟨0, 0⟩, by rw [renderChars, hdecode]; rfl, ?_, Or.inr rfl⟩
      cases negative <;> exact ⟨_, rfl⟩
    | succ m =>
      have hdigits := (shortest_value_le (Nat.succ_pos m) q).1
      refine ⟨shortest (m + 1) q, by rw [renderChars, hdecode]; rfl, ?_, Or.inl hdigits⟩
      by_cases hgreat : q = 971 ∧ 2 ^ 53 - 5 ≤ m + 1
      · obtain ⟨rfl, hlarge⟩ := hgreat
        have hfive := greatest_double? negative (9007199254740991 - (m + 1)) (by omega)
        have hsame : 9007199254740991 - (9007199254740991 - (m + 1)) = m + 1 := by
          unfold fractionWeight at hm
          omega
        rw [hsame] at hfive
        exact Option.isSome_iff_exists.mp hfive
      · have hclear := shortest_value_lt (Nat.succ_pos m) hm hq (fun hmax => by omega)
        exact Decimal.exists_double? (Or.inl hdigits) hclear negative
  obtain ⟨y, hy⟩ := hd
  refine ⟨d.literal negative, y,
    Literal.value?_of_double? (Decimal.literal_isSome negative d) hy, ?_⟩
  intro rest hrest
  rw [hchars, List.append_assoc]
  exact Decimal.literal?_render hpos negative hrest

/-- What is not finite is written as the absent value. -/
theorem renderChars_of_not_finite {x : Float} (hx : Binary64.isFinite x = false) :
    renderChars x layout = ['n', 'u', 'l', 'l'] := by
  rw [Binary64.isFinite] at hx
  split at hx
  case h_1 => cases hx
  case h_2 hdecode =>
    unfold renderChars
    split
    · rfl
    · rfl
    · rfl
    case h_4 negative q h => exact absurd h (hdecode _ _ _)
    case h_5 negative m q _ h => exact absurd h (hdecode _ _ _)

/-- **Integers of 64 bits are read back** as they are. -/
theorem literal?_integer {n : Int} (hlow : -9223372036854775808 ≤ n) (hhigh : n ≤ maxWord) :
    ∃ l, l.value? = some (.integer n) ∧ ∀ rest, EndsNumber rest →
      literal? (integerChars n ++ rest) = some (l, rest) := by
  refine ⟨⟨decide (n < 0), Decimal.digitChars n.natAbs, none, none⟩, ?_, ?_⟩
  · have hvalue : (⟨decide (n < 0), Decimal.digitChars n.natAbs, none, none⟩ : Literal).integer? =
        some n := by
      unfold Literal.integer?
      dsimp only
      rw [natOfDigits_digitChars]
      by_cases hneg : n < 0
      · simp only [Option.isSome_none, Bool.or_self, Bool.false_eq_true, if_false,
          decide_eq_true hneg, if_true]
        rw [if_pos (by omega)]
        congr 1
        omega
      · simp only [Option.isSome_none, Bool.or_self, Bool.false_eq_true, if_false,
          decide_eq_false hneg]
        rw [if_pos (by omega)]
        congr 1
        omega
    unfold Literal.value?
    rw [hvalue]
  · intro rest hrest
    have hne : Decimal.digitChars n.natAbs ≠ [] := Nat.toDigits_ne_nil
    rw [integerChars, List.append_assoc]
    apply literal?_whole _ hne (fun c => isDigit_of_mem_digitChars) _ hrest
    intro c cs h
    rcases Nat.eq_zero_or_pos n.natAbs with hzero | hpos
    · rw [hzero] at h
      cases h
    · exact Decimal.not_zero_cons hpos ((List.append_nil _).trans h)

end Json

end StagedLoad
