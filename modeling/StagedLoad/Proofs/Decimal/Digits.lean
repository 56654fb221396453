import StagedLoad.Decimal.Shortest

/-!
# The digits of a natural

* `Decimal.isDigit_of_mem_digitChars` — they are decimal digits.
* `Decimal.head_digitChars_ne` — the first one is no zero, unless the natural is.
-/

namespace StagedLoad.Decimal

theorem isDigit_of_mem_digitChars {n : Nat} {c : Char} (h : c ∈ digitChars n) :
    c.isDigit = true :=
  Nat.isDigit_of_mem_toDigits (by decide) (by decide) h

theorem exists_digitChars_eq_cons (n : Nat) : ∃ c cs, digitChars n = c :: cs :=
  List.exists_cons_of_ne_nil Nat.toDigits_ne_nil

/-- The first digit of a number is no zero, unless the number is. -/
theorem head_digitChars_ne {n : Nat} (hn : 0 < n) {c : Char} {cs : List Char}
    (h : digitChars n = c :: cs) : c ≠ '0' := by
  induction n using Nat.strongRecOn generalizing cs with
  | _ n ih =>
    rcases Nat.lt_or_ge n 10 with hlt | hge
    · rw [digitChars, Nat.toDigits_of_lt_base hlt] at h
      cases h
      have hdigits : ∀ n < 10, 0 < n → n.digitChar ≠ '0' := by decide
      exact hdigits n hlt hn
    · rw [digitChars, Nat.toDigits_of_base_le (by decide) hge] at h
      obtain ⟨d, ds, hds⟩ := exists_digitChars_eq_cons (n / 10)
      rw [← digitChars, hds] at h
      cases h
      exact ih (n / 10) (by omega) (by omega) hds

end StagedLoad.Decimal
