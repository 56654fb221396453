import StagedLoad.Decimal.Shortest
import StagedLoad.Proofs.Decimal.Rounding

/-!
# How large shortest decimals get

The shortest decimal of a double lies half way to the next double at most.  So it is clear of the
least number that is rounded beyond the doubles, unless the double is one of the very greatest.

## Main definitions

* `Decimal.value` — the number that a decimal stands for.

## Main results

* `Interval.value_le_of_search` — what the search finds lies in the interval.
* `Binary64.shortest_value_le` — the shortest decimal of a double.
* `Binary64.shortest_value_lt` — how far it is from `overflow`, but for five doubles.
-/

namespace StagedLoad

namespace Decimal

/-- The number that a decimal stands for. -/
def value (d : Decimal) : ℚ := d.digits * 10 ^ d.exponent

/-- Zeros at the end do not count. -/
theorem value_dropZeros (fuel : Nat) (d : Decimal) : (dropZeros fuel d).value = d.value := by
  induction fuel generalizing d with
  | zero => rfl
  | succ fuel ih =>
    unfold dropZeros
    split
    case isFalse => rfl
    case isTrue h =>
      have hdigits : ((d.digits / 10 : Nat) : ℚ) * 10 = d.digits := by
        exact_mod_cast Nat.div_mul_cancel (Nat.dvd_of_mod_eq_zero h.2)
      rw [ih, value, value, zpow_add_one₀ (by norm_num)]
      calc ((d.digits / 10 : Nat) : ℚ) * (10 ^ d.exponent * 10)
          = ((d.digits / 10 : Nat) : ℚ) * 10 * 10 ^ d.exponent := by ring
        _ = d.digits * 10 ^ d.exponent := by rw [hdigits]

theorem dropZeros_pos (fuel : Nat) {d : Decimal} (h : 0 < d.digits) :
    0 < (dropZeros fuel d).digits := by
  induction fuel generalizing d with
  | zero => exact h
  | succ fuel ih =>
    unfold dropZeros
    split
    case isFalse => exact h
    case isTrue hzero => exact ih (by dsimp only; omega)

end Decimal

namespace Interval

/-- A unit of the grid is a power of ten. -/
theorem gridUnit_eq (e : Int) : ((gridUnit e).1 : ℚ) = 10 ^ e * (gridUnit e).2 := by
  unfold gridUnit
  split
  case isTrue h =>
    obtain ⟨n, rfl⟩ := Int.eq_ofNat_of_zero_le h
    simp
  case isFalse h =>
    obtain ⟨n, hn⟩ : ∃ n : Nat, -e = n := ⟨(-e).toNat, by omega⟩
    obtain rfl : e = -(n : Int) := by omega
    simp

theorem gridUnit_snd_pos (e : Int) : 0 < (gridUnit e).2 := by
  unfold gridUnit
  split
  · exact Nat.one_pos
  · exact Nat.pow_pos (by decide)

theorem le_of_contains {i : Interval} {n un ud : Nat} (h : i.contains n un ud = true) :
    n * un * i.den ≤ i.high * ud := by
  unfold contains at h
  split at h
  · exact of_decide_eq_true (Bool.and_eq_true_iff.mp h).2
  · exact Nat.le_of_lt (of_decide_eq_true (Bool.and_eq_true_iff.mp h).2)

theorem contains_of_gridPoint? {i : Interval} {e : Int} {n : Nat} (h : i.gridPoint? e = some n) :
    0 < n ∧ i.contains n (gridUnit e).1 (gridUnit e).2 = true := by
  unfold gridPoint? at h
  dsimp only at h
  generalize i.value * (gridUnit e).2 / ((gridUnit e).1 * i.den) = below at h
  cases hbelow : decide (0 < below) && i.contains below (gridUnit e).1 (gridUnit e).2 with
  | true =>
    obtain ⟨hpos, hin⟩ := Bool.and_eq_true_iff.mp hbelow
    have hpos : 0 < below := of_decide_eq_true hpos
    cases habove : i.contains (below + 1) (gridUnit e).1 (gridUnit e).2 with
    | true =>
      rw [hbelow, habove] at h
      dsimp only at h
      split at h
      · cases h; exact ⟨hpos, hin⟩
      split at h
      · cases h; exact ⟨Nat.succ_pos _, habove⟩
      split at h
      · cases h; exact ⟨hpos, hin⟩
      · cases h; exact ⟨Nat.succ_pos _, habove⟩
    | false =>
      rw [hbelow, habove] at h
      cases h
      exact ⟨hpos, hin⟩
  | false =>
    cases habove : i.contains (below + 1) (gridUnit e).1 (gridUnit e).2 with
    | true =>
      rw [hbelow, habove] at h
      cases h
      exact ⟨Nat.succ_pos _, habove⟩
    | false =>
      rw [hbelow, habove] at h
      cases h

/-- What the search finds lies in the interval, and is not zero. -/
theorem value_le_of_search {i : Interval} {leading : Int} {fuel n : Nat} {d : Decimal}
    (h : i.search leading fuel n = some d) : 0 < d.digits ∧ d.value * i.den ≤ i.high := by
  induction fuel generalizing n with
  | zero => cases h
  | succ fuel ih =>
    unfold search at h
    dsimp only at h
    split at h
    case h_2 => exact ih h
    case h_1 k hk =>
      cases h
      generalize leading - (n : Int) + 1 = e at hk ⊢
      obtain ⟨hpos, hin⟩ := contains_of_gridPoint? hk
      refine ⟨hpos, ?_⟩
      have hle : (k * (gridUnit e).1 * i.den : ℚ) ≤ i.high * (gridUnit e).2 := by
        exact_mod_cast le_of_contains hin
      have hunit : (0 : ℚ) < (gridUnit e).2 := Nat.cast_pos.mpr (gridUnit_snd_pos e)
      rw [gridUnit_eq] at hle
      apply le_of_mul_le_mul_right _ hunit
      rw [Decimal.value]
      calc (k * 10 ^ e * i.den : ℚ) * (gridUnit e).2
          = k * (10 ^ e * (gridUnit e).2) * i.den := by ring
        _ ≤ i.high * (gridUnit e).2 := hle

end Interval

namespace Binary64

theorem scaled_eq (m : Nat) (q : Int) : ((scaled m q).1 : ℚ) = weight m q * (scaled m q).2 := by
  unfold scaled
  split
  case isTrue h =>
    obtain ⟨n, rfl⟩ := Int.eq_ofNat_of_zero_le h
    simp [weight]
  case isFalse h =>
    obtain ⟨n, hn⟩ : ∃ n : Nat, -q = n := ⟨(-q).toNat, by omega⟩
    obtain rfl : q = -(n : Int) := by omega
    simp [weight]

/-- The shortest decimal of a double lies half way to the next double at most. -/
theorem shortest_value_le {m : Nat} (hm : 0 < m) (q : Int) :
    0 < (shortest m q).digits ∧
      ((shortest m q).value ≤ weight (4 * m + 2) (q - 2) ∨ (shortest m q).value ≤ m) := by
  unfold shortest
  dsimp only
  rw [Decimal.normalize]
  cases hd : (interval m q).search
      (leadingExponent (interval m q).value (interval m q).den) 20 1 with
  | none =>
    refine ⟨Decimal.dropZeros_pos _ hm, Or.inr ?_⟩
    rw [Decimal.value_dropZeros]
    simp [Decimal.value]
  | some d =>
    obtain ⟨hpos, hle⟩ := Interval.value_le_of_search hd
    refine ⟨Decimal.dropZeros_pos _ hpos, Or.inl ?_⟩
    rw [Decimal.value_dropZeros]
    have hden : (0 : ℚ) < (scaled 1 (q - 2)).2 := Nat.cast_pos.mpr (scaled_snd_pos _ _)
    apply le_of_mul_le_mul_right _ hden
    refine hle.trans (le_of_eq ?_)
    have hfactor := scaled_eq 1 (q - 2)
    calc (((4 * m + 2) * (scaled 1 (q - 2)).1 : Nat) : ℚ)
        = (4 * m + 2 : Nat) * (weight 1 (q - 2) * (scaled 1 (q - 2)).2) := by
          rw [← hfactor]
          push_cast
          ring
      _ = weight (4 * m + 2) (q - 2) * (scaled 1 (q - 2)).2 := by
          rw [weight, weight]
          push_cast
          ring

/-- **How far the shortest decimal is from `overflow`**: two roundings do not carry it there,
unless the double is one of the five greatest. -/
theorem shortest_value_lt {m : Nat} {q : Int} (hpos : 0 < m) (hm : m < 2 ^ 53) (hq : q ≤ 971)
    (h : q = 971 → m < 2 ^ 53 - 5) : (shortest m q).value * slack * slack < overflow := by
  have hbound : (shortest m q).value ≤ weight 18014398509481973 970 := by
    rcases (shortest_value_le hpos q).2 with hle | hle
    · refine hle.trans ?_
      by_cases hmax : q = 971
      · have hfew := h hmax
        calc weight (4 * m + 2) (q - 2) = weight ((2 * m + 1) * 2 ^ 1) 969 := by
              rw [hmax]
              congr 1
              omega
          _ = weight (2 * m + 1) 970 := (weight_add _ 1 969).symm
          _ ≤ weight 18014398509481973 970 := weight_le_weight (by omega) le_rfl
      · calc weight (4 * m + 2) (q - 2) ≤ weight (2 ^ 53 * 2 ^ 2) 968 :=
              weight_le_weight (by omega) (by omega)
          _ = weight (2 ^ 53) 970 := (weight_add _ 2 968).symm
          _ ≤ weight 18014398509481973 970 := weight_le_weight (by decide) le_rfl
    · calc (shortest m q).value ≤ m := hle
        _ = weight m 0 := by rw [weight, zpow_zero, mul_one]
        _ ≤ weight 18014398509481973 970 := weight_le_weight (by omega) (by decide)
  have hunit : (0 : ℚ) < 2 ^ (970 : Int) := zpow_pos two_pos _
  rw [weight] at hbound
  rw [overflow, slack]
  generalize (2 : ℚ) ^ (970 : Int) = unit at hunit hbound ⊢
  norm_num at hbound ⊢
  linarith

end Binary64

end StagedLoad
