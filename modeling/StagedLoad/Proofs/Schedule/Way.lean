import StagedLoad.Schedule

/-!
# Ways that are cut off

What has been gone of a way is computed from a product in 128 bits, and such a product may be cut
off: a way may be as long as `2 ^ 64` users, and a stage may take almost `2 ^ 94` nanoseconds.

A product that is cut off lies between zero and the product, and cutting off keeps the order.  So
what has been gone lies between nothing and the way, and grows with the time, whatever the
magnitudes.  But the whole of a way is gone at its end only if its product is not cut off.

## Main definitions

* `Segment.way`, `Segment.wayAt` — a way, and what has been gone of it.
* `Segment.Whole` — the product of a way over the length of a stage is in range.

## Main results

* `Segment.wayAt_le_wayAt`, `Segment.wayAt_mem_range` — the order and the bounds.
* `Segment.wayAt_eq_way_iff` — which ways are gone as a whole.
* `Segment.toNat_valueAt_eq_add` — the number of users at a moment of a segment.
-/

namespace StagedLoad

namespace Segment

/-- How much of a way has been gone, in 128-bit integers and cut to a whole number towards zero. -/
def wayAt (way : Int) (passed length : Nat) : Int := (saturate (way * passed)).tdiv length

/-- The way from one number of users to another one. -/
def way (source target : UInt64) : Int := (target.toNat : Int) - source.toNat

/-- The way of a stage over its whole length is in the range of 128 bits. -/
def Whole (source target : UInt64) (length : Nat) : Prop :=
  minWide ≤ way source target * length ∧ way source target * length ≤ maxWide

variable {source target : UInt64} {m n w : Int} {x x' L : Nat}

instance : Decidable (Whole source target L) := inferInstanceAs (Decidable (_ ∧ _))

theorem saturate_mono (h : m ≤ n) : saturate m ≤ saturate n := by
  unfold saturate
  omega

theorem saturate_le (h : 0 ≤ n) : saturate n ≤ n := by
  unfold saturate minWide
  omega

theorem le_saturate (h : n ≤ 0) : n ≤ saturate n := by
  unfold saturate maxWide
  omega

theorem saturate_eq_self_iff : saturate n = n ↔ minWide ≤ n ∧ n ≤ maxWide := by
  unfold saturate minWide maxWide
  omega

theorem whole_iff : Whole source target L ↔
    saturate (way source target * L) = way source target * L :=
  saturate_eq_self_iff.symm

theorem way_nonneg (h : source ≤ target) : 0 ≤ way source target := by
  rw [UInt64.le_iff_toNat_le] at h
  unfold way
  omega

theorem way_nonpos (h : target ≤ source) : way source target ≤ 0 := by
  rw [UInt64.le_iff_toNat_le] at h
  unfold way
  omega

@[simp] theorem wayAt_zero (w : Int) (L : Nat) : wayAt w 0 L = 0 := by
  rw [wayAt, Int.natCast_zero, Int.mul_zero]
  exact Int.zero_tdiv _

/-- Cutting off and dividing keep the order. -/
theorem wayAt_le_wayAt (hL : 0 < L) (h : w * x ≤ w * x') : wayAt w x L ≤ wayAt w x' L :=
  Int.tdiv_le_tdiv (Int.ofNat_lt.mpr hL) (saturate_mono h)

theorem wayAt_mono (hL : 0 < L) (hw : 0 ≤ w) (hx : x ≤ x') : wayAt w x L ≤ wayAt w x' L :=
  wayAt_le_wayAt hL (Int.mul_le_mul_of_nonneg_left (Int.ofNat_le.mpr hx) hw)

theorem wayAt_anti (hL : 0 < L) (hw : w ≤ 0) (hx : x ≤ x') : wayAt w x' L ≤ wayAt w x L :=
  wayAt_le_wayAt hL (Int.mul_le_mul_of_nonpos_left hw (Int.ofNat_le.mpr hx))

theorem wayAt_nonneg (hL : 0 < L) (hw : 0 ≤ w) : 0 ≤ wayAt w x L := by
  have hmono := wayAt_mono hL hw (Nat.zero_le x)
  rwa [wayAt_zero] at hmono

theorem wayAt_nonpos (hL : 0 < L) (hw : w ≤ 0) : wayAt w x L ≤ 0 := by
  have hanti := wayAt_anti hL hw (Nat.zero_le x)
  rwa [wayAt_zero] at hanti

/-- Upwards no more than the way has been gone. -/
theorem wayAt_le (hL : 0 < L) (hw : 0 ≤ w) (hx : x ≤ L) : wayAt w x L ≤ w := by
  have hproduct : 0 ≤ w * x := Int.mul_nonneg hw (Int.natCast_nonneg x)
  calc (saturate (w * x)).tdiv L ≤ (w * L).tdiv L := by
        refine Int.tdiv_le_tdiv (Int.ofNat_lt.mpr hL) (Int.le_trans (saturate_le hproduct) ?_)
        exact Int.mul_le_mul_of_nonneg_left (Int.ofNat_le.mpr hx) hw
    _ = w := Int.mul_tdiv_cancel w (by omega)

/-- Downwards no more than the way has been gone. -/
theorem le_wayAt (hL : 0 < L) (hw : w ≤ 0) (hx : x ≤ L) : w ≤ wayAt w x L := by
  have hproduct : w * x ≤ 0 := Int.mul_nonpos_of_nonpos_of_nonneg hw (Int.natCast_nonneg x)
  calc w = (w * L).tdiv L := (Int.mul_tdiv_cancel w (by omega)).symm
    _ ≤ (saturate (w * x)).tdiv L := by
        refine Int.tdiv_le_tdiv (Int.ofNat_lt.mpr hL) (Int.le_trans ?_ (le_saturate hproduct))
        exact Int.mul_le_mul_of_nonpos_left hw (Int.ofNat_le.mpr hx)

/-- What has been gone lies between nothing and the way. -/
theorem wayAt_mem_range (w : Int) (hL : 0 < L) (hx : x ≤ L) :
    min 0 w ≤ wayAt w x L ∧ wayAt w x L ≤ max 0 w := by
  rcases Int.le_total 0 w with hup | hdown
  · have hlow := wayAt_nonneg (x := x) hL hup
    have hhigh := wayAt_le hL hup hx
    omega
  · have hlow := le_wayAt hL hdown hx
    have hhigh := wayAt_nonpos (x := x) hL hdown
    omega

/-- Where the whole of a way has been gone, the product over its length is in range: no product on
the way is further from zero than that. -/
theorem saturate_of_wayAt_eq (hx : x ≤ L) (h : wayAt w x L = w) :
    saturate (w * L) = w * L := by
  obtain ⟨p, hp⟩ : ∃ p, saturate (w * x) = p := ⟨_, rfl⟩
  have hquotient : p.tdiv L = w := by
    rw [← hp]
    exact h
  have hdivision := Int.tdiv_mul_add_tmod p L
  rw [hquotient] at hdivision
  rcases Int.le_total 0 w with hup | hdown
  · have hpos : 0 ≤ p.tmod L := by
      refine Int.tmod_nonneg _ ?_
      rw [← hp]
      exact saturate_mono (m := 0) (Int.mul_nonneg hup (Int.natCast_nonneg x))
    have hmono : p ≤ saturate (w * L) := by
      rw [← hp]
      exact saturate_mono (Int.mul_le_mul_of_nonneg_left (Int.ofNat_le.mpr hx) hup)
    have hle := saturate_le (Int.mul_nonneg hup (Int.natCast_nonneg L))
    omega
  · have hneg : 0 ≤ (-p).tmod L := by
      refine Int.tmod_nonneg _ (Int.neg_nonneg_of_nonpos ?_)
      rw [← hp]
      exact saturate_mono (n := 0)
        (Int.mul_nonpos_of_nonpos_of_nonneg hdown (Int.natCast_nonneg x))
    rw [Int.neg_tmod] at hneg
    have hmono : saturate (w * L) ≤ p := by
      rw [← hp]
      exact saturate_mono (Int.mul_le_mul_of_nonpos_left hdown (Int.ofNat_le.mpr hx))
    have hle := le_saturate (Int.mul_nonpos_of_nonpos_of_nonneg hdown (Int.natCast_nonneg L))
    omega

/-- The whole of a way is gone at its end exactly if the product over its length is in range. -/
theorem wayAt_eq_way_iff (hL : 0 < L) :
    wayAt (way source target) L L = way source target ↔ Whole source target L := by
  rw [whole_iff]
  refine ⟨saturate_of_wayAt_eq (Nat.le_refl L), fun h => ?_⟩
  rw [wayAt, h]
  exact Int.mul_tdiv_cancel _ (by omega)

/-- What there is at a moment of a segment is where it starts and what has been gone of its way. -/
theorem toNat_valueAt_eq_add {s : Segment} {t : Duration} (hpos : 0 < s.duration.nanos) :
    ((s.valueAt t).toNat : Int) =
      s.source.toNat + wayAt (way s.source s.target) (s.progress t) s.duration.nanos := by
  have hsource := s.source.toNat_lt
  have htarget := s.target.toNat_lt
  have hle : s.progress t ≤ s.duration.nanos := Nat.min_le_right _ _
  have hraw : s.rawValueAt t =
      s.source.toNat + wayAt (way s.source s.target) (s.progress t) s.duration.nanos := rfl
  have hzero : s.duration.isZero = false := by
    rw [Duration.isZero, beq_eq_false_iff_ne]
    omega
  -- the point lies between the two ends, which are words
  have hrange : 0 ≤ s.rawValueAt t ∧ s.rawValueAt t < 2 ^ 64 := by
    have hway : way s.source s.target = s.target.toNat - s.source.toNat := rfl
    have hgone := wayAt_mem_range (way s.source s.target) hpos hle
    omega
  rw [← hraw, valueAt, hzero, if_neg Bool.false_ne_true]
  have hword : min (s.rawValueAt t).toNat Binary64.maxWord = (s.rawValueAt t).toNat := by
    unfold Binary64.maxWord
    omega
  rw [hword, UInt64.toNat_ofNat_of_lt']
  · omega
  · have hsize : UInt64.size = 2 ^ 64 := rfl
    omega

end Segment

end StagedLoad
