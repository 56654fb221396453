import StagedLoad.Metric.Percentile

/-!
# The names of percentiles

No two percentiles have the same name: the digits before the point are the whole percents, and
what stands behind them are the hundredths, with no more digits than they need.

* `Percentile.render_inj` — **a name belongs to one percentile**.
-/

namespace StagedLoad.Percentile

/-- The hundredths in a name, with the point before them: as many digits as they need. -/
def decimals (rest : Nat) : String :=
  if rest = 0 then ""
  else if rest % 10 = 0 then "." ++ (rest / 10).repr
  else if rest < 10 then ".0" ++ rest.repr
  else "." ++ rest.repr

theorem render_eq (p : Percentile) :
    p.render = "p(" ++ (p.hundredths / 100).repr ++ decimals (p.hundredths % 100) ++ ")" := rfl

/-- The hundredths that are written as two, one or no digits behind a point. -/
def ofDecimals : List Char → Nat
  | ['.', c] => 10 * (c.toNat - 48)
  | ['.', c, d] => 10 * (c.toNat - 48) + (d.toNat - 48)
  | _ => 0

theorem ofDecimals_decimals : ∀ rest < 100, ofDecimals (decimals rest).toList = rest := by
  decide

/-- What stands behind the whole percents does not start with a digit. -/
theorem takeWhile_decimals : ∀ rest < 100,
    ((decimals rest).toList ++ [')']).takeWhile Char.isDigit = [] := by
  decide

theorem takeWhile_repr_append {cs : List Char} (n : Nat) (hcs : cs.takeWhile Char.isDigit = []) :
    (n.repr.toList ++ cs).takeWhile Char.isDigit = n.repr.toList := by
  have hdigits : ∀ c ∈ n.repr.toList, c.isDigit = true := by
    intro c hc
    rw [Nat.toList_repr] at hc
    exact Nat.isDigit_of_mem_toDigits (by decide) (by decide) hc
  rw [List.takeWhile_append_of_pos hdigits, hcs, List.append_nil]

/-- **A name belongs to one percentile.** -/
theorem render_inj {p q : Percentile} : p.render = q.render ↔ p = q := by
  refine ⟨fun h => ?_, congrArg render⟩
  have hchars := congrArg String.toList h
  simp only [render_eq, String.toList_append, List.append_assoc] at hchars
  have hcut := List.append_cancel_left hchars
  have hp := takeWhile_repr_append (p.hundredths / 100)
    (takeWhile_decimals (p.hundredths % 100) (Nat.mod_lt _ (by decide)))
  have hq := takeWhile_repr_append (q.hundredths / 100)
    (takeWhile_decimals (q.hundredths % 100) (Nat.mod_lt _ (by decide)))
  have hwhole : (p.hundredths / 100).repr.toList = (q.hundredths / 100).repr.toList := by
    rw [← hp, ← hq]
    exact congrArg (List.takeWhile Char.isDigit) hcut
  have hrest : (decimals (p.hundredths % 100)).toList = (decimals (q.hundredths % 100)).toList := by
    rw [hwhole] at hcut
    exact List.append_cancel_right (List.append_cancel_left hcut)
  have hdiv : p.hundredths / 100 = q.hundredths / 100 := by
    rw [Nat.toList_repr, Nat.toList_repr] at hwhole
    rw [← Nat.ofDigitChars_ten_toDigits (n := p.hundredths / 100), hwhole,
      Nat.ofDigitChars_ten_toDigits]
  have hmod : p.hundredths % 100 = q.hundredths % 100 := by
    rw [← ofDecimals_decimals _ (Nat.mod_lt p.hundredths (by decide)), hrest,
      ofDecimals_decimals _ (Nat.mod_lt q.hundredths (by decide))]
  apply Percentile.ext
  rw [← Nat.div_add_mod p.hundredths 100, hdiv, hmod, Nat.div_add_mod]

end StagedLoad.Percentile
