import Mathlib.Algebra.Order.Ring.Abs
import Mathlib.Algebra.Order.Ring.Int
import Mathlib.Data.List.Basic
import Mathlib.Data.Nat.Find
import Mathlib.Order.Monotone.Basic
import StagedLoad.Proofs.Schedule.Way

/-!
# The curve of a schedule

The number of users that a schedule asks for lies on a line through each of its stages, cut to
a whole number towards where the line begins.  The next line begins where the one before it
ends, so that the curve has no jumps.

All of this is about exact numbers.  What the schedule computes with has an end, at the longest
duration and at 128 bits; as long as the stages together are no longer than that, and the line
through a stage stays in range, nothing is lost.

## Main definitions

* `Stage.endOf` — when a number of stages are over.
* `Stage.usersAfter` — how many users there are then.
* `Stage.Covers`, `Stage.Holds` — a moment that lies in a stage.
* `Stage.LaidOut` — a segment that is that of a stage, with nothing cut off.
* `Segment.lineAt` — the point on a line.

## Main results

* `Stage.existsUnique_covers`, `Stage.existsUnique_holds` — every moment lies in one stage.
* `Segment.getElem?_layOut`, `Schedule.segmentAt_eq`, `Schedule.laidOut_segmentAt` — the schedule
  finds this stage.
* `Schedule.targetAt_of_holds` — the number of users, whatever the magnitudes.
* `Segment.toNat_valueAt`, `Schedule.targetAt_of_covers` — the point on the line through the stage.
* `Schedule.targetAt_eq_lineAt` — **the curve of a schedule**.
-/

namespace StagedLoad

/-! ### When stages end -/

namespace Stage

/-- How many nanoseconds the first `k` stages last. -/
def endOf (stages : List Stage) (k : Nat) : Nat :=
  ((stages.take k).map fun s => s.duration.nanos).sum

/-- How many users there are when the first `k` stages are over. -/
def usersAfter (start : UInt64) (stages : List Stage) (k : Nat) : UInt64 :=
  ((stages.take k).map Stage.target).getLastD start

/-- A moment lies in a stage if the stages before it are over and it is not; the moment at which
it ends is part of it. -/
def Covers (stages : List Stage) (k : Nat) (t : Duration) : Prop :=
  endOf stages k < t.nanos ∧ t.nanos ≤ endOf stages (k + 1)

/-- A moment falls in a stage if it lies in it; the first of all moments, too, falls in the first
stage. -/
def Holds (stages : List Stage) (k : Nat) (t : Duration) : Prop :=
  (k = 0 ∨ endOf stages k < t.nanos) ∧ t.nanos ≤ endOf stages (k + 1)

/-- A segment is that of a stage, with nothing cut off. -/
structure LaidOut (start : UInt64) (stages : List Stage) (k : Nat) (stage : Stage)
    (seg : Segment) : Prop where
  /-- It has the number of the stage. -/
  index : seg.index = k
  /-- It starts when the stages before it are over. -/
  opening : seg.opening.nanos = endOf stages k
  /-- It takes as long as the stage. -/
  duration : seg.duration.nanos = stage.duration.nanos
  /-- It starts with the users that there are then. -/
  source : seg.source = usersAfter start stages k
  /-- It goes to the target of the stage. -/
  target : seg.target = stage.target

variable {stages : List Stage} {stage : Stage} {start : UInt64} {k : Nat} {t : Duration}

instance : Decidable (Covers stages k t) := inferInstanceAs (Decidable (_ ∧ _))

instance : Decidable (Holds stages k t) := inferInstanceAs (Decidable (_ ∧ _))

@[simp] theorem endOf_zero : endOf stages 0 = 0 := by
  simp [endOf]

theorem endOf_cons (s : Stage) (rest : List Stage) (k : Nat) :
    endOf (s :: rest) (k + 1) = s.duration.nanos + endOf rest k := by
  simp [endOf]

@[simp] theorem usersAfter_zero : usersAfter start stages 0 = start := by
  simp [usersAfter]

theorem usersAfter_cons (s : Stage) (rest : List Stage) (k : Nat) :
    usersAfter start (s :: rest) (k + 1) = usersAfter s.target rest k := by
  rw [usersAfter, List.take_succ_cons, List.map_cons, List.getLastD_cons]
  rfl

theorem endOf_succ (h : stages[k]? = some stage) :
    endOf stages (k + 1) = endOf stages k + stage.duration.nanos := by
  rw [endOf, endOf, List.take_add_one, h]
  simp

theorem endOf_mono (stages : List Stage) : Monotone (endOf stages) := by
  apply monotone_nat_of_le_succ
  intro k
  cases h : stages[k]? with
  | none =>
    have hlength : stages.length ≤ k := List.getElem?_eq_none_iff.mp h
    rw [endOf, endOf, List.take_of_length_le hlength,
      List.take_of_length_le (Nat.le_succ_of_le hlength)]
  | some stage =>
    rw [endOf_succ h]
    exact Nat.le_add_right _ _

/-- **Every moment lies in one stage**, unless it is the first one or all stages are over. -/
theorem existsUnique_covers (hpos : 0 < t.nanos) (hle : t.nanos ≤ endOf stages stages.length) :
    ∃! k, k < stages.length ∧ Covers stages k t := by
  classical
  have hover : ∃ n, t.nanos ≤ endOf stages n := ⟨stages.length, hle⟩
  -- the stages up to this one are the fewest that are not over
  obtain ⟨k, hk⟩ : ∃ k, Nat.find hover = k + 1 := by
    apply Nat.exists_eq_succ_of_ne_zero
    intro hzero
    have hspec := Nat.find_spec hover
    rw [hzero, endOf_zero] at hspec
    omega
  have hend : t.nanos ≤ endOf stages (k + 1) := hk ▸ Nat.find_spec hover
  have hbegun : endOf stages k < t.nanos := by
    have hmin := Nat.find_min hover (m := k) (by omega)
    omega
  have hlt : k < stages.length := by
    have := Nat.find_min' hover hle
    omega
  refine ⟨k, ⟨hlt, hbegun, hend⟩, ?_⟩
  rintro k' ⟨-, hbegun', hend'⟩
  rcases Nat.lt_trichotomy k' k with h | h | h
  · have : endOf stages (k' + 1) ≤ endOf stages k := endOf_mono stages h
    omega
  · exact h
  · have : endOf stages (k + 1) ≤ endOf stages k' := endOf_mono stages h
    omega

theorem Covers.holds (h : Covers stages k t) : Holds stages k t := ⟨.inr h.1, h.2⟩

theorem holds_iff_covers (hpos : 0 < t.nanos) : Holds stages k t ↔ Covers stages k t := by
  refine ⟨fun ⟨hbegun, hend⟩ => ⟨?_, hend⟩, Covers.holds⟩
  rcases hbegun with rfl | hbegun
  · rwa [endOf_zero]
  · exact hbegun

theorem Holds.begun (h : Holds stages k t) : endOf stages k ≤ t.nanos := by
  rcases h.1 with rfl | hbegun
  · rw [endOf_zero]
    exact Nat.zero_le _
  · exact Nat.le_of_lt hbegun

theorem holds_zero_iff : Holds stages k Duration.zero ↔ k = 0 := by
  refine ⟨fun h => h.1.resolve_right (Nat.not_lt_zero _), ?_⟩
  rintro rfl
  exact ⟨.inl rfl, Nat.zero_le _⟩

/-- Every moment falls in one stage, unless all stages are over. -/
theorem existsUnique_holds (hne : stages ≠ []) (hle : t.nanos ≤ endOf stages stages.length) :
    ∃! k, k < stages.length ∧ Holds stages k t := by
  rcases Nat.eq_zero_or_pos t.nanos with hzero | hpos
  · obtain rfl : t = Duration.zero := Duration.ext hzero
    refine ⟨0, ⟨List.length_pos_iff.mpr hne, holds_zero_iff.mpr rfl⟩, ?_⟩
    rintro k ⟨-, hk⟩
    exact holds_zero_iff.mp hk
  · simp only [holds_iff_covers hpos]
    exact existsUnique_covers hpos hle

end Stage

/-! ### Finding the stage of a moment -/

namespace Segment

open Stage

theorem length_layOut (index : Nat) (opening : Duration) (source : UInt64)
    (stages : List Stage) : (layOut index opening source stages).length = stages.length := by
  induction stages generalizing index opening source with
  | nil => rfl
  | cons s rest ih => simp [layOut, ih]

/-- Where a stage is laid out. -/
theorem getElem?_layOut {index : Nat} {opening : Duration} {source : UInt64}
    {stages : List Stage} {k : Nat} {stage : Stage} (h : stages[k]? = some stage) :
    (layOut index opening source stages)[k]? = some {
      index := index + k
      opening := Duration.clamp (opening.nanos + endOf stages k)
      ending := Duration.clamp (opening.nanos + endOf stages (k + 1))
      source := usersAfter source stages k
      target := stage.target } := by
  induction stages generalizing index opening source k with
  | nil => cases h
  | cons s rest ih =>
    cases k with
    | zero =>
      cases h
      simp only [layOut, List.getElem?_cons_zero, endOf_cons, endOf_zero, usersAfter_zero,
        Nat.add_zero, Duration.clamp_nanos]
      rfl
    | succ k =>
      rw [layOut, List.getElem?_cons_succ, ih h, endOf_cons, endOf_cons, usersAfter_cons]
      have hsum : ∀ n, (opening + s.duration).nanos + n =
          (Duration.clamp (opening.nanos + s.duration.nanos)).nanos + n := fun _ => rfl
      simp only [hsum, Duration.clamp_clamp_add, Nat.add_assoc, Nat.add_comm 1 k]

/-- The segment that is found is the first one that is not over. -/
theorem locate_eq {t : Duration} {first seg : Segment} {rest : List Segment} {k : Nat}
    (hbefore : ∀ j < k, ∀ s, (first :: rest)[j]? = some s → s.ending < t)
    (hseg : (first :: rest)[k]? = some seg) (hle : t ≤ seg.ending)
    (hbehind : ∀ s, (first :: rest)[k + 1]? = some s → t < s.ending) :
    locate t first rest = seg := by
  induction rest generalizing first k with
  | nil =>
    cases k with
    | zero => exact Option.some.inj hseg
    | succ k => cases hseg
  | cons next rest ih =>
    cases k with
    | zero =>
      obtain rfl : first = seg := Option.some.inj hseg
      have hnext : t < next.ending := hbehind next rfl
      rw [locate, if_neg]
      rintro (hover | ⟨-, hsame⟩)
      · exact Nat.lt_irrefl _ (Nat.lt_of_lt_of_le hover hle)
      · rw [hsame] at hnext
        exact Nat.lt_irrefl _ hnext
    | succ k =>
      have hover : first.ending < t := hbefore 0 (Nat.zero_lt_succ k) first rfl
      rw [locate, if_pos (.inl hover)]
      apply ih _ hseg hbehind
      intro j hj s hs
      exact hbefore (j + 1) (Nat.succ_lt_succ hj) s hs

/-! ### The line through a stage -/

/-- The point on the line from one number of users to another, cut to a whole number towards
the first one. -/
def lineAt (source target : UInt64) (passed length : Nat) : Int :=
  source.toNat + (((target.toNat : Int) - source.toNat) * passed).tdiv length

theorem lineAt_self (source target : UInt64) {length : Nat} (h : 0 < length) :
    lineAt source target length length = target.toNat := by
  rw [lineAt, Int.mul_tdiv_cancel _ (by omega)]
  omega

/-- As long as the product of a way is in range, what has been gone of it leads to a point on the
line. -/
theorem add_wayAt_eq_lineAt {source target : UInt64} {passed length : Nat} (hle : passed ≤ length)
    (hrange : |(target.toNat : Int) - source.toNat| * length < 2 ^ 127) :
    source.toNat + wayAt (way source target) passed length =
      lineAt source target passed length := by
  -- the product is largest at the end of the way, and there it is in range
  have hproduct : |way source target * passed| < 2 ^ 127 := by
    refine lt_of_le_of_lt ?_ hrange
    rw [abs_mul, Nat.abs_cast]
    exact Int.mul_le_mul_of_nonneg_left (Int.ofNat_le.mpr hle) (abs_nonneg _)
  obtain ⟨hlow, hhigh⟩ := abs_lt.mp hproduct
  have hwhole : saturate (way source target * passed) = way source target * passed := by
    rw [saturate_eq_self_iff]
    unfold minWide maxWide
    omega
  rw [wayAt, hwhole]
  rfl

/-- The number of users at a moment of a segment is the point on the line through it. -/
theorem toNat_valueAt {s : Segment} {t : Duration} (hlt : s.opening < t) (hle : t ≤ s.ending)
    (hrange : |(s.target.toNat : Int) - s.source.toNat| * s.duration.nanos < 2 ^ 127) :
    ((s.valueAt t).toNat : Int) =
      lineAt s.source s.target (t.nanos - s.opening.nanos) s.duration.nanos := by
  have hlength : s.duration.nanos = s.ending.nanos - s.opening.nanos := rfl
  rw [Duration.lt_def] at hlt
  rw [Duration.le_def] at hle
  have hpassed : t.nanos - s.opening.nanos ≤ s.duration.nanos := by omega
  have hprogress : s.progress t = t.nanos - s.opening.nanos := by
    rw [progress, Duration.nanos_sub]
    exact Nat.min_eq_left hpassed
  rw [toNat_valueAt_eq_add (by omega), hprogress, add_wayAt_eq_lineAt hpassed hrange]

end Segment

/-! ### The curve -/

namespace Schedule

open Stage Segment

variable {s : Schedule} {k : Nat} {stage : Stage} {t : Duration}

theorem ofStages_eq_ok {start : UInt64} {stages : List Stage}
    (h : ofStages start stages = .ok s) : s.start = start ∧ s.stages = stages := by
  unfold ofStages at h
  split at h
  · cases h
  · split at h
    · cases h
    · cases h
      exact ⟨rfl, rfl⟩

theorem duration_pos (hstage : s.stages[k]? = some stage) : 0 < stage.duration.nanos := by
  have hpos := s.pos stage (List.mem_of_getElem? hstage)
  rw [Duration.isZero, beq_eq_false_iff_ne] at hpos
  exact Nat.pos_of_ne_zero hpos

theorem total_eq (s : Schedule) : s.total = Duration.clamp (endOf s.stages s.stages.length) := by
  have hpos : 0 < s.stages.length := List.length_pos_iff.mpr s.ne_nil
  have hlast : s.stages[s.stages.length - 1]? = some (s.stages.getLast s.ne_nil) := by
    rw [← List.getLast?_eq_getElem?, List.getLast?_eq_getLast_of_ne_nil s.ne_nil]
  rw [total, segments, List.getLast?_eq_getElem?, Segment.length_layOut,
    Segment.getElem?_layOut hlast]
  simp [Nat.sub_add_cancel hpos]

/-- A schedule is over when more than its total has passed. -/
theorem targetAt_eq_completed (s : Schedule) (t : Duration) :
    s.targetAt t = .completed ↔ s.total < t := by
  unfold targetAt
  split
  case isTrue hzero =>
    rw [(Duration.isZero_iff t).1 hzero]
    simp [Duration.lt_def]
  case isFalse =>
    split
    case isTrue hdone => simpa [isDone] using hdone
    case isFalse hgoing => simpa [isDone] using hgoing

theorem nanos_clamp_endOf (hsum : endOf s.stages s.stages.length ≤ Duration.maxNanos)
    (hstage : s.stages[k]? = some stage) :
    (Duration.clamp (endOf s.stages (k + 1))).nanos = endOf s.stages (k + 1) := by
  have hlt : k < s.stages.length := (List.getElem?_eq_some_iff.mp hstage).1
  have hle : endOf s.stages (k + 1) ≤ endOf s.stages s.stages.length := endOf_mono s.stages hlt
  exact Nat.min_eq_left (Nat.le_trans hle hsum)

/-- Every segment is that of a stage, and ends with it, or with the longest duration. -/
theorem exists_stage_of_segment {seg : Segment} (h : s.segments[k]? = some seg) :
    ∃ stage, s.stages[k]? = some stage ∧
      seg.ending.nanos = min (endOf s.stages (k + 1)) Duration.maxNanos := by
  have hlt : k < s.stages.length := by
    have := (List.getElem?_eq_some_iff.mp h).1
    rwa [segments, Segment.length_layOut] at this
  have hstage : s.stages[k]? = some s.stages[k] := List.getElem?_eq_getElem hlt
  rw [segments, Segment.getElem?_layOut hstage] at h
  cases h
  exact ⟨s.stages[k], hstage, by simp⟩

/-- A schedule finds the stage that a moment falls in, unless that is the moment at which stages
are cut off. -/
theorem segmentAt_eq
    (hfits : endOf s.stages s.stages.length ≤ Duration.maxNanos ∨ t.nanos < Duration.maxNanos)
    (hstage : s.stages[k]? = some stage) (ht : Holds s.stages k t) :
    s.segmentAt t = {
      index := k
      opening := Duration.clamp (endOf s.stages k)
      ending := Duration.clamp (endOf s.stages (k + 1))
      source := usersAfter s.start s.stages k
      target := stage.target } := by
  obtain ⟨hbegun, hend⟩ := ht
  have hseg : s.segments[k]? = _ := Segment.getElem?_layOut hstage
  simp only [Nat.zero_add, Duration.nanos_zero] at hseg
  have hsegment : ∀ {j : Nat} {seg : Segment}, s.segments[j]? = some seg →
      ∃ st, s.stages[j]? = some st ∧
        seg.ending.nanos = min (endOf s.stages (j + 1)) Duration.maxNanos :=
    exists_stage_of_segment
  rw [segmentAt]
  generalize s.segments = segs at hseg hsegment
  cases segs with
  | nil => cases hseg
  | cons first rest =>
    apply Segment.locate_eq (k := k) _ hseg
    · rw [Duration.le_def, Duration.nanos_clamp]
      exact Nat.le_min.mpr ⟨hend, t.nanos_le_maxNanos⟩
    · intro seg hnext
      obtain ⟨st, hst, hending⟩ := hsegment hnext
      -- no stage is empty, so the next one ends later
      have hlater := duration_pos hst
      have hlast : endOf s.stages (k + 1 + 1) ≤ endOf s.stages s.stages.length :=
        endOf_mono s.stages (List.getElem?_eq_some_iff.mp hst).1
      rw [Duration.lt_def, hending, Nat.lt_min]
      rw [endOf_succ hst] at hlast ⊢
      omega
    · intro j hj seg hbefore
      obtain ⟨st, -, hending⟩ := hsegment hbefore
      have hmono : endOf s.stages (j + 1) ≤ endOf s.stages k := endOf_mono s.stages hj
      have hover : endOf s.stages k < t.nanos := hbegun.resolve_left (by omega)
      rw [Duration.lt_def, hending]
      omega

theorem nanos_total (hsum : endOf s.stages s.stages.length ≤ Duration.maxNanos) :
    s.total.nanos = endOf s.stages s.stages.length := by
  rw [total_eq]
  exact Nat.min_eq_left hsum

/-- A schedule finds the stage that a moment falls in. -/
theorem laidOut_segmentAt (hsum : endOf s.stages s.stages.length ≤ Duration.maxNanos)
    (hstage : s.stages[k]? = some stage) (ht : Holds s.stages k t) :
    LaidOut s.start s.stages k stage (s.segmentAt t) := by
  have hending := nanos_clamp_endOf hsum hstage
  have hopening : (Duration.clamp (endOf s.stages k)).nanos = endOf s.stages k := by
    refine Nat.min_eq_left (Nat.le_trans (endOf_mono s.stages (Nat.le_succ k)) ?_)
    rw [← hending]
    exact Duration.nanos_le_maxNanos _
  rw [segmentAt_eq (.inl hsum) hstage ht]
  refine ⟨rfl, hopening, ?_, rfl, rfl⟩
  rw [Segment.duration, Duration.nanos_sub, hopening, hending, endOf_succ hstage]
  omega

/-- Of the way of the stage that a moment falls in, as much has been gone as can be computed. -/
theorem targetAt_of_holds (hsum : endOf s.stages s.stages.length ≤ Duration.maxNanos)
    (hstage : s.stages[k]? = some stage) (ht : Holds s.stages k t) :
    ∃ n, s.targetAt t = .active n ∧
      (n.toNat : Int) = (usersAfter s.start s.stages k).toNat +
        wayAt (way (usersAfter s.start s.stages k) stage.target) (t.nanos - endOf s.stages k)
          stage.duration.nanos := by
  by_cases hzero : t.isZero = true
  · -- at the start nothing has been gone
    obtain rfl := (Duration.isZero_iff t).mp hzero
    obtain rfl := holds_zero_iff.mp ht
    exact ⟨s.start, if_pos rfl, by simp⟩
  · have hlt : k < s.stages.length := (List.getElem?_eq_some_iff.mp hstage).1
    have hle : endOf s.stages (k + 1) ≤ endOf s.stages s.stages.length := endOf_mono s.stages hlt
    have hend := ht.2
    have hgoing : s.isDone t = false := by
      rw [isDone, decide_eq_false_iff_not, Duration.lt_def, nanos_total hsum]
      omega
    obtain ⟨-, hopening, hduration, hsource, htarget⟩ := laidOut_segmentAt hsum hstage ht
    have hprogress : (s.segmentAt t).progress t = t.nanos - endOf s.stages k := by
      rw [endOf_succ hstage] at hend
      rw [Segment.progress, Duration.nanos_sub, hopening, hduration]
      omega
    have hvalue := toNat_valueAt_eq_add (s := s.segmentAt t) (t := t)
      (by rw [hduration]; exact duration_pos hstage)
    rw [hprogress, hduration, hsource, htarget] at hvalue
    refine ⟨_, ?_, hvalue⟩
    rw [targetAt, if_neg hzero, hgoing]
    rfl

/-- In a stage the schedule asks for the point on the line through it, and at its end for its
target. -/
theorem targetAt_of_covers (hsum : endOf s.stages s.stages.length ≤ Duration.maxNanos)
    (hstage : s.stages[k]? = some stage) (ht : Covers s.stages k t)
    (hrange : |(stage.target.toNat : Int) - (usersAfter s.start s.stages k).toNat| *
      stage.duration.nanos < 2 ^ 127) :
    ∃ n, s.targetAt t = .active n ∧
      (n.toNat : Int) = Segment.lineAt (usersAfter s.start s.stages k) stage.target
        (t.nanos - endOf s.stages k) stage.duration.nanos ∧
      (t.nanos = endOf s.stages (k + 1) → n = stage.target) := by
  obtain ⟨n, hn, hvalue⟩ := targetAt_of_holds hsum hstage ht.holds
  obtain ⟨hbegun, hend⟩ := ht
  have hsucc := endOf_succ hstage
  rw [Segment.add_wayAt_eq_lineAt (by omega) hrange] at hvalue
  refine ⟨n, hn, hvalue, ?_⟩
  intro hlast
  have hpassed : t.nanos - endOf s.stages k = stage.duration.nanos := by omega
  rw [hpassed, Segment.lineAt_self _ _ (duration_pos hstage)] at hvalue
  exact UInt64.toNat_inj.mp (Int.ofNat_inj.mp hvalue)

/-- **The curve of a schedule.**  If its stages together are no longer than the longest
duration, it is over when they are, and every moment before lies in exactly one of them.  There
the number of users is the point on the line from where the stage before it ended, in exact
nanoseconds, cut to a whole number towards where the line begins; at the end of the stage it is
the target of the stage, from which the next line begins. -/
theorem targetAt_eq_lineAt {start : UInt64} {stages : List Stage}
    (hs : ofStages start stages = .ok s)
    (hsum : endOf stages stages.length ≤ Duration.maxNanos) (t : Duration) :
    (t = Duration.zero → s.targetAt t = .active start) ∧
    (s.targetAt t = .completed ↔ endOf stages stages.length < t.nanos) ∧
    (0 < t.nanos → t.nanos ≤ endOf stages stages.length →
      ∃! k, k < stages.length ∧ Covers stages k t) ∧
    ∀ k stage, stages[k]? = some stage → Covers stages k t →
      |(stage.target.toNat : Int) - (usersAfter start stages k).toNat| * stage.duration.nanos <
        2 ^ 127 →
      ∃ n, s.targetAt t = .active n ∧
        (n.toNat : Int) = Segment.lineAt (usersAfter start stages k) stage.target
          (t.nanos - endOf stages k) stage.duration.nanos ∧
        (t.nanos = endOf stages (k + 1) → n = stage.target) := by
  obtain ⟨rfl, rfl⟩ := ofStages_eq_ok hs
  refine ⟨?_, ?_, existsUnique_covers, ?_⟩
  · rintro rfl
    rfl
  · rw [targetAt_eq_completed, Duration.lt_def, nanos_total hsum]
  · intro k stage hstage ht hrange
    exact targetAt_of_covers hsum hstage ht hrange

/-- Twenty users come within half a minute, stay for a minute and leave within half a minute. -/
def upAndDown : List Stage :=
  [⟨Duration.seconds 30, 20⟩, ⟨Duration.seconds 60, 20⟩, ⟨Duration.seconds 30, 0⟩]

/-- A millisecond before the end the last of them is still there: the line downwards is cut
upwards. -/
theorem upAndDown_before_end : ∃ s, ofStages 0 upAndDown = .ok s ∧
    endOf upAndDown 3 ≤ Duration.maxNanos ∧ Covers upAndDown 2 (Duration.ofMillis 119999) ∧
    s.targetAt (Duration.ofMillis 119999) = .active 1 ∧
    s.targetAt (Duration.ofMillis 120000) = .active 0 ∧
    s.targetAt (Duration.ofMillis 120001) = .completed := by
  have hstage : upAndDown[2]? = some ⟨Duration.seconds 30, 0⟩ := rfl
  obtain ⟨s, hs⟩ : ∃ s, ofStages 0 upAndDown = .ok s := ⟨_, rfl⟩
  have hsum : endOf upAndDown upAndDown.length ≤ Duration.maxNanos := by decide
  have hbefore : Covers upAndDown 2 (Duration.ofMillis 119999) := by decide
  have hend : Covers upAndDown 2 (Duration.ofMillis 120000) := by decide
  obtain ⟨-, -, -, hline⟩ := targetAt_eq_lineAt hs hsum (Duration.ofMillis 119999)
  obtain ⟨-, -, -, hlast⟩ := targetAt_eq_lineAt hs hsum (Duration.ofMillis 120000)
  obtain ⟨-, hover, -, -⟩ := targetAt_eq_lineAt hs hsum (Duration.ofMillis 120001)
  obtain ⟨n, hn, hvalue, -⟩ := hline 2 _ hstage hbefore (by decide)
  obtain ⟨m, hm, -, htarget⟩ := hlast 2 _ hstage hend (by decide)
  have hone : n = 1 := by
    apply UInt64.toNat_inj.mp
    apply Int.ofNat_inj.mp
    rw [hvalue]
    decide
  refine ⟨s, hs, hsum, hbefore, hone ▸ hn, ?_, hover.mpr (by decide)⟩
  rw [hm, htarget (by decide)]

end Schedule

end StagedLoad
