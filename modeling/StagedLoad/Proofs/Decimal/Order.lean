import StagedLoad.Decimal.Binary64

/-!
# The order in which doubles are sorted

Doubles are sorted by their bits, so that no two different doubles are tied: not the two zeros,
and not two of the bit patterns that are no numbers.  So the same doubles are sorted to the same
list, bit by bit, in whatever order they come.

* `Binary64.mergeSort_eq_of_perm` — **the sorted list does not depend on the order**.
-/

namespace StagedLoad.Binary64

/-- Doubles are told apart by their keys. -/
theorem totalKey_injective {x y : Float} (h : totalKey x = totalKey y) : x = y := by
  have hx : x.toBits.toNat < 2 * signWeight := UInt64.toNat_lt x.toBits
  have hy : y.toBits.toNat < 2 * signWeight := UInt64.toNat_lt y.toBits
  have hbits : x.toBits.toNat = y.toBits.toNat := by
    simp only [totalKey] at h
    unfold signWeight at h hx hy
    split at h <;> split at h <;> omega
  have hmodel : x.toModel.toBits = y.toModel.toBits := UInt64.toNat_inj.mp hbits
  obtain ⟨⟨bits, valid⟩⟩ := x
  obtain ⟨⟨bits', valid'⟩⟩ := y
  cases hmodel
  rfl

theorem totalLE_trans (x y z : Float) (hxy : totalLE x y) (hyz : totalLE y z) : totalLE x z := by
  simp only [totalLE, decide_eq_true_eq] at *
  omega

theorem totalLE_total (x y : Float) : totalLE x y || totalLE y x := by
  simp only [totalLE, Bool.or_eq_true, decide_eq_true_eq]
  omega

theorem totalLE_antisymm {x y : Float} (hxy : totalLE x y) (hyx : totalLE y x) : x = y := by
  simp only [totalLE, decide_eq_true_eq] at hxy hyx
  exact totalKey_injective (by omega)

/-- **The sorted list does not depend on the order** in which the doubles come. -/
theorem mergeSort_eq_of_perm {xs ys : List Float} (h : xs.Perm ys) :
    xs.mergeSort totalLE = ys.mergeSort totalLE := by
  have hperm : (xs.mergeSort totalLE).Perm (ys.mergeSort totalLE) :=
    (List.mergeSort_perm xs totalLE).trans (h.trans (List.mergeSort_perm ys totalLE).symm)
  refine hperm.eq_of_pairwise (fun x y _ _ => totalLE_antisymm) ?_ ?_
  · exact List.pairwise_mergeSort totalLE_trans totalLE_total xs
  · exact List.pairwise_mergeSort totalLE_trans totalLE_total ys

end StagedLoad.Binary64
