import Mathlib.Order.Interval.Finset.Nat
import Mathlib.Tactic.Ring
import StagedLoad.Proofs.Schedule.Step

/-!
# How far the curve of a schedule moves in a window

A window is a stretch of time that is no longer than a while.  Any number of stages may meet it,
among them stages that are shorter than the while, or over before anybody looks.

The largest step of a schedule is that of a single stage.  It is the most by which the number of
users changes in a window, if every stage in it that changes the number takes at least the while:
then no more than two of these meet the window.  Shorter stages add up, and each of them may
contribute as much as the largest step.

## Main definitions

* `Schedule.Exact` — nothing that a schedule computes is cut off.
* `Stage.Meets`, `Stage.meetings` — the stages that meet a window, and how many they are.

## Main results

* `Schedule.Exact.targetAt_eq` — at both ends of a stage, and in between, the curve is on its line.
* `Schedule.Exact.abs_lineAt_sub_le` — a stage alone contributes the largest step at most.
* `Schedule.target_moves_by_steps` — **how far the curve moves in a window**.
* `Schedule.short_stages_exceed_step` — two short stages in a window exceed the largest step.
-/

namespace StagedLoad

/-! ### Stages in a window -/

namespace Stage

/-- A stage meets the window between two moments if it has begun before the second one and is not
over at the first. -/
def Meets (stages : List Stage) (t₁ t₂ : Duration) (k : Nat) : Prop :=
  endOf stages k < t₂.nanos ∧ t₁.nanos < endOf stages (k + 1)

variable {stages : List Stage} {t₁ t₂ : Duration} {j k m : Nat}

instance : Decidable (Meets stages t₁ t₂ k) := inferInstanceAs (Decidable (_ ∧ _))

/-- How many stages meet the window between two moments. -/
def meetings (stages : List Stage) (t₁ t₂ : Duration) : Nat :=
  ((Finset.range stages.length).filter (Meets stages t₁ t₂)).card

/-- Between two stages that meet a window all stages meet it. -/
theorem Meets.between (hj : Meets stages t₁ t₂ j) (hm : Meets stages t₁ t₂ m) (hjk : j ≤ k)
    (hkm : k ≤ m) : Meets stages t₁ t₂ k := by
  have hbegun : endOf stages k ≤ endOf stages m := endOf_mono stages hkm
  have hover : endOf stages (j + 1) ≤ endOf stages (k + 1) := endOf_mono stages (by omega)
  exact ⟨Nat.lt_of_le_of_lt hbegun hm.1, Nat.lt_of_lt_of_le hj.2 hover⟩

theorem le_meetings (hm : m < stages.length) (hj : Meets stages t₁ t₂ j)
    (hk : Meets stages t₁ t₂ m) : m + 1 - j ≤ meetings stages t₁ t₂ := by
  rw [← Nat.card_Icc]
  apply Finset.card_le_card
  intro k hmem
  obtain ⟨hjk, hkm⟩ := Finset.mem_Icc.mp hmem
  exact Finset.mem_filter.mpr ⟨Finset.mem_range.mpr (by omega), hj.between hk hjk hkm⟩

/-- Between two stages that meet a window there are none that last as long as the window. -/
theorem Meets.duration_lt {stage : Stage} (hj : Meets stages t₁ t₂ j)
    (hm : Meets stages t₁ t₂ m) (hstage : stages[k]? = some stage) (hjk : j < k) (hkm : k < m) :
    stage.duration.nanos < t₂.nanos - t₁.nanos := by
  have hbegun : endOf stages (j + 1) ≤ endOf stages k := endOf_mono stages hjk
  have hover : endOf stages (k + 1) ≤ endOf stages m := endOf_mono stages hkm
  have hend := endOf_succ hstage
  obtain ⟨-, hfirst⟩ := hj
  obtain ⟨hlast, -⟩ := hm
  omega

end Stage

/-- On a line that ends where it begins nothing changes. -/
theorem Segment.lineAt_of_eq {source target : UInt64} (h : source = target) (x L : Nat) :
    lineAt source target x L = target.toNat := by
  simp [lineAt, h]

namespace Schedule

open Stage

variable {s : Schedule} {poll t t₁ t₂ : Duration} {k k₁ k₂ : Nat} {stage stage₁ stage₂ : Stage}

/-- Nothing that a schedule computes is cut off. -/
structure Exact (s : Schedule) : Prop where
  /-- The stages together are no longer than the longest duration. -/
  fits : endOf s.stages s.stages.length ≤ Duration.maxNanos
  /-- The products that the lines through the stages are computed with stay in range. -/
  range : ∀ k stage, s.stages[k]? = some stage →
    |(stage.target.toNat : Int) - (usersAfter s.start s.stages k).toNat| * stage.duration.nanos <
      2 ^ 127

/-- At both ends of a stage, and in between, the curve is on the line through the stage. -/
theorem Exact.targetAt_eq (hs : s.Exact) (hstage : s.stages[k]? = some stage)
    (hbegun : endOf s.stages k ≤ t.nanos) (hend : t.nanos ≤ endOf s.stages (k + 1)) :
    ∃ n, s.targetAt t = .active n ∧
      (n.toNat : Int) = Segment.lineAt (usersAfter s.start s.stages k) stage.target
        (t.nanos - endOf s.stages k) stage.duration.nanos := by
  rcases Nat.eq_or_lt_of_le hbegun with hsame | hlt
  · -- the line begins where the one before it ends
    rw [← hsame, Nat.sub_self]
    have hstart : Segment.lineAt (usersAfter s.start s.stages k) stage.target 0
        stage.duration.nanos = (usersAfter s.start s.stages k).toNat := by
      simp [Segment.lineAt]
    rw [hstart]
    cases k with
    | zero =>
      have hzero : t.isZero = true := by
        rw [Duration.isZero, beq_iff_eq, ← hsame, endOf_zero]
      exact ⟨s.start, if_pos hzero, by rw [usersAfter_zero]⟩
    | succ k =>
      have hlt := Nat.lt_of_succ_lt (List.getElem?_eq_some_iff.mp hstage).1
      have hbefore : s.stages[k]? = some s.stages[k] := List.getElem?_eq_getElem hlt
      have hpos := duration_pos hbefore
      have hsucc := endOf_succ hbefore
      obtain ⟨n, hn, -, hlast⟩ := targetAt_of_covers hs.fits hbefore (t := t)
        ⟨by omega, by omega⟩ (hs.range k _ hbefore)
      refine ⟨n, hn, ?_⟩
      rw [hlast hsame.symm, usersAfter_succ hbefore]
  · obtain ⟨n, hn, hvalue, -⟩ :=
      targetAt_of_covers hs.fits hstage ⟨hlt, hend⟩ (hs.range k _ hstage)
    exact ⟨n, hn, hvalue⟩

/-- Up to the end of a schedule there is a number of users that it asks for. -/
theorem exists_targetAt (h : t ≤ s.total) : ∃ n, s.targetAt t = .active n := by
  cases hn : s.targetAt t with
  | active n => exact ⟨n, rfl⟩
  | completed =>
    rw [targetAt_eq_completed, Duration.lt_def] at hn
    rw [Duration.le_def] at h
    omega

/-! ### The contribution of a stage -/

theorem Exact.lengthOf_eq (hs : s.Exact) (hstage : s.stages[k]? = some stage) :
    s.lengthOf k = stage.duration.nanos := by
  have hlt : k < s.stages.length := (List.getElem?_eq_some_iff.mp hstage).1
  have hle : endOf s.stages (k + 1) ≤ endOf s.stages s.stages.length := endOf_mono s.stages hlt
  have hfits := hs.fits
  rw [lengthOf, Nat.min_eq_left (by omega), endOf_succ hstage]
  omega

/-- The way of a stage is no more than the largest step, or else its line is no steeper than that
allows. -/
theorem Exact.distance_le_or (hs : s.Exact) (poll : Duration)
    (hstage : s.stages[k]? = some stage) :
    Segment.distance (usersAfter s.start s.stages k) stage.target ≤ s.maxStepPer poll ∨
      Segment.distance (usersAfter s.start s.stages k) stage.target * poll.nanos ≤
        s.maxStepPer poll * stage.duration.nanos := by
  have hlength := hs.lengthOf_eq hstage
  have hor := Schedule.distance_le_or poll hstage (hs.range k stage hstage)
    (by rw [hlength]; exact duration_pos hstage)
  rwa [hlength] at hor

/-- On the line through a stage the number of users changes within a while by no more than the
largest step, however short the stage is. -/
theorem Exact.abs_lineAt_sub_le (hs : s.Exact) (poll : Duration)
    (hstage : s.stages[k]? = some stage) {x x' : Nat} (hle : x ≤ x')
    (hwithin : x' ≤ x + poll.nanos) (hend : x' ≤ stage.duration.nanos) :
    |Segment.lineAt (usersAfter s.start s.stages k) stage.target x' stage.duration.nanos -
      Segment.lineAt (usersAfter s.start s.stages k) stage.target x stage.duration.nanos| ≤
      s.maxStepPer poll := by
  have hpos := duration_pos hstage
  rcases hs.distance_le_or poll hstage with hway | hsteep
  · rw [Segment.abs_lineAt_sub _ _ _ hle, Int.ofNat_le]
    refine Nat.le_trans (Nat.sub_le _ _) (Nat.le_trans ?_ hway)
    exact Nat.div_le_of_le_mul (by rw [Nat.mul_comm]; exact Nat.mul_le_mul_right _ hend)
  · exact Segment.abs_lineAt_sub_le hpos hsteep hle hwithin

/-- What has been gone of a line within a while is no more than the largest step. -/
theorem Exact.abs_lineAt_sub_usersAfter_le (hs : s.Exact) (poll : Duration)
    (hstage : s.stages[k]? = some stage) {x : Nat} (hwithin : x ≤ poll.nanos)
    (hend : x ≤ stage.duration.nanos) :
    |Segment.lineAt (usersAfter s.start s.stages k) stage.target x stage.duration.nanos -
      (usersAfter s.start s.stages k).toNat| ≤ s.maxStepPer poll := by
  have hstep := hs.abs_lineAt_sub_le poll hstage (Nat.zero_le x) (by omega) hend
  simpa [Segment.lineAt] using hstep

/-- What is left of a line is no more than the largest step, if the line ends within a while. -/
theorem Exact.abs_sub_lineAt_le (hs : s.Exact) (poll : Duration)
    (hstage : s.stages[k]? = some stage) {x : Nat} (hwithin : stage.duration.nanos ≤ x + poll.nanos)
    (hend : x ≤ stage.duration.nanos) :
    |((usersAfter s.start s.stages (k + 1)).toNat : Int) -
      Segment.lineAt (usersAfter s.start s.stages k) stage.target x stage.duration.nanos| ≤
      s.maxStepPer poll := by
  have hstep := hs.abs_lineAt_sub_le poll hstage hend hwithin (Nat.le_refl _)
  rw [Segment.lineAt_self _ _ (duration_pos hstage)] at hstep
  rw [usersAfter_succ hstage]
  exact hstep

/-- A stage as a whole changes the number of users by no more than the largest step, if it is over
within a while. -/
theorem Exact.abs_usersAfter_sub_le (hs : s.Exact) (poll : Duration)
    (hstage : s.stages[k]? = some stage) (hshort : stage.duration.nanos ≤ poll.nanos) :
    |((usersAfter s.start s.stages (k + 1)).toNat : Int) -
      (usersAfter s.start s.stages k).toNat| ≤ s.maxStepPer poll := by
  have hstep := hs.abs_lineAt_sub_usersAfter_le poll hstage hshort (Nat.le_refl _)
  rwa [Segment.lineAt_self _ _ (duration_pos hstage), ← usersAfter_succ hstage] at hstep

/-- The line through a stage that takes no less than a while is no steeper than the largest step
allows. -/
theorem Exact.distance_mul_le (hs : s.Exact) (hstage : s.stages[k]? = some stage)
    (hlong : poll.nanos ≤ stage.duration.nanos) :
    Segment.distance (usersAfter s.start s.stages k) stage.target * poll.nanos ≤
      s.maxStepPer poll * stage.duration.nanos := by
  rcases hs.distance_le_or poll hstage with hway | hsteep
  · exact Nat.mul_le_mul hway hlong
  · exact hsteep

/-! ### The curve in a window -/

/-- A window begins in one stage, before it is over, and ends in another one. -/
structure Spans (s : Schedule) (t₁ t₂ : Duration) (k₁ k₂ : Nat) (stage₁ stage₂ : Stage) : Prop where
  /-- It is not empty. -/
  lt : t₁.nanos < t₂.nanos
  /-- The stage in which it begins. -/
  first : s.stages[k₁]? = some stage₁
  /-- This stage has begun. -/
  begun : endOf s.stages k₁ ≤ t₁.nanos
  /-- It is not over. -/
  meetsFirst : Meets s.stages t₁ t₂ k₁
  /-- The stage in which the window ends. -/
  last : s.stages[k₂]? = some stage₂
  /-- This stage is not over, or just so. -/
  within : t₂.nanos ≤ endOf s.stages (k₂ + 1)
  /-- It has begun. -/
  meetsLast : Meets s.stages t₁ t₂ k₂
  /-- It is no earlier one. -/
  le : k₁ ≤ k₂

theorem Exact.exists_spans (hs : s.Exact) (hlt : t₁ < t₂) (hend : t₂ ≤ s.total) :
    ∃ k₁ k₂ stage₁ stage₂, s.Spans t₁ t₂ k₁ k₂ stage₁ stage₂ := by
  rw [Duration.lt_def] at hlt
  rw [Duration.le_def, nanos_total hs.fits] at hend
  have hmax := t₂.nanos_le_maxNanos
  -- the stage that covers the very next moment is the one that is not over
  have hnext : (Duration.clamp (t₁.nanos + 1)).nanos = t₁.nanos + 1 := by
    rw [Duration.nanos_clamp]
    omega
  have hnextEnd : (Duration.clamp (t₁.nanos + 1)).nanos ≤ endOf s.stages s.stages.length := by
    omega
  obtain ⟨k₁, ⟨hk₁, hbegun₁, hend₁⟩, -⟩ := existsUnique_covers (by omega) hnextEnd
  obtain ⟨k₂, ⟨hk₂, hbegun₂, hend₂⟩, -⟩ := existsUnique_covers (by omega) hend
  rw [hnext] at hbegun₁ hend₁
  have hle : k₁ ≤ k₂ := by
    by_contra hgt
    have hmono : endOf s.stages (k₂ + 1) ≤ endOf s.stages k₁ := endOf_mono s.stages (by omega)
    omega
  have hmono₁ : endOf s.stages k₁ ≤ endOf s.stages k₂ := endOf_mono s.stages hle
  have hmono₂ : endOf s.stages (k₁ + 1) ≤ endOf s.stages (k₂ + 1) :=
    endOf_mono s.stages (by omega)
  exact ⟨k₁, k₂, _, _, hlt, List.getElem?_eq_getElem hk₁, by omega, ⟨by omega, by omega⟩,
    List.getElem?_eq_getElem hk₂, hend₂, ⟨by omega, by omega⟩, hle⟩

/-- Stages that are over within a while contribute the largest step each. -/
theorem Exact.abs_usersAfter_add_sub_le (hs : s.Exact) (poll : Duration) (k n : Nat)
    (hshort : ∀ j, k ≤ j → j < k + n →
      ∃ stage, s.stages[j]? = some stage ∧ stage.duration.nanos ≤ poll.nanos) :
    |((usersAfter s.start s.stages (k + n)).toNat : Int) -
      (usersAfter s.start s.stages k).toNat| ≤ n * s.maxStepPer poll := by
  induction n with
  | zero => simp
  | succ n ih =>
    obtain ⟨stage, hstage, hlast⟩ := hshort (k + n) (by omega) (by omega)
    have hrest := ih fun j hkj hjn => hshort j hkj (by omega)
    have hstep := hs.abs_usersAfter_sub_le poll hstage hlast
    calc |((usersAfter s.start s.stages (k + (n + 1))).toNat : Int) -
          (usersAfter s.start s.stages k).toNat|
        ≤ |((usersAfter s.start s.stages (k + (n + 1))).toNat : Int) -
            (usersAfter s.start s.stages (k + n)).toNat| +
          |((usersAfter s.start s.stages (k + n)).toNat : Int) -
            (usersAfter s.start s.stages k).toNat| := abs_sub_le _ _ _
      _ ≤ s.maxStepPer poll + n * s.maxStepPer poll := add_le_add hstep hrest
      _ = (n + 1 : Nat) * s.maxStepPer poll := by push_cast; ring

/-- Stages that do not change the number of users leave it as it is. -/
theorem usersAfter_add_eq (s : Schedule) (k n : Nat)
    (hflat : ∀ j, k ≤ j → j < k + n →
      ∃ stage, s.stages[j]? = some stage ∧ stage.target = usersAfter s.start s.stages j) :
    usersAfter s.start s.stages (k + n) = usersAfter s.start s.stages k := by
  induction n with
  | zero => rfl
  | succ n ih =>
    obtain ⟨stage, hstage, hlast⟩ := hflat (k + n) (by omega) (by omega)
    rw [← Nat.add_assoc, usersAfter_succ hstage, hlast]
    exact ih fun j hkj hjn => hflat j hkj (by omega)

/-- A stage between the first and the last one of a window meets it, and is shorter. -/
theorem Spans.exists_between {j : Nat} (hspans : s.Spans t₁ t₂ k₁ k₂ stage₁ stage₂) (hj : k₁ < j)
    (hjk : j < k₂) :
    ∃ stage, s.stages[j]? = some stage ∧ Meets s.stages t₁ t₂ j ∧
      stage.duration.nanos < t₂.nanos - t₁.nanos := by
  have hlt : j < s.stages.length := Nat.lt_trans hjk (List.getElem?_eq_some_iff.mp hspans.last).1
  have hstage : s.stages[j]? = some s.stages[j] := List.getElem?_eq_getElem hlt
  exact ⟨_, hstage, hspans.meetsFirst.between hspans.meetsLast (Nat.le_of_lt hj) (Nat.le_of_lt hjk),
    hspans.meetsFirst.duration_lt hspans.meetsLast hstage hj hjk⟩

/-- If only stages that take no less than a while change the number of users, it is at the begin
of the last stage what the first one leads to. -/
theorem Spans.usersAfter_last (hspans : s.Spans t₁ t₂ k₁ k₂ stage₁ stage₂) (hlt : k₁ < k₂)
    (hwithin : t₂.nanos ≤ t₁.nanos + poll.nanos)
    (hlong : ∀ k stage, s.stages[k]? = some stage → Meets s.stages t₁ t₂ k →
      stage.target ≠ usersAfter s.start s.stages k → poll ≤ stage.duration) :
    usersAfter s.start s.stages k₂ = stage₁.target := by
  obtain ⟨n, rfl⟩ : ∃ n, k₂ = k₁ + 1 + n := ⟨k₂ - (k₁ + 1), by omega⟩
  rw [← usersAfter_succ hspans.first]
  apply usersAfter_add_eq
  intro j hj hjn
  obtain ⟨stage, hstage, hmeets, hshort⟩ := hspans.exists_between hj hjn
  refine ⟨stage, hstage, ?_⟩
  by_contra hchange
  have hle := Duration.le_def.mp (hlong j stage hstage hmeets hchange)
  omega

/-- A window within one stage moves the number of users by no more than the largest step. -/
theorem Spans.abs_sub_le_of_same (hspans : s.Spans t₁ t₂ k k stage₁ stage₂) (hs : s.Exact)
    (hwithin : t₂.nanos ≤ t₁.nanos + poll.nanos) :
    |Segment.lineAt (usersAfter s.start s.stages k) stage₂.target
        (t₂.nanos - endOf s.stages k) stage₂.duration.nanos -
      Segment.lineAt (usersAfter s.start s.stages k) stage₁.target
        (t₁.nanos - endOf s.stages k) stage₁.duration.nanos| ≤ s.maxStepPer poll := by
  obtain rfl : stage₁ = stage₂ := Option.some.inj (hspans.first.symm.trans hspans.last)
  have hpassed := hspans.lt
  have hbegun := hspans.begun
  have hend := hspans.within
  have hsucc := endOf_succ hspans.first
  exact hs.abs_lineAt_sub_le poll hspans.first (by omega) (by omega) (by omega)

/-- What is left of the first stage, if another one comes after it, is no more than the largest
step. -/
theorem Spans.abs_sub_first_le (hspans : s.Spans t₁ t₂ k₁ k₂ stage₁ stage₂) (hs : s.Exact)
    (hlt : k₁ < k₂) (hwithin : t₂.nanos ≤ t₁.nanos + poll.nanos) :
    |((usersAfter s.start s.stages (k₁ + 1)).toNat : Int) -
      Segment.lineAt (usersAfter s.start s.stages k₁) stage₁.target
        (t₁.nanos - endOf s.stages k₁) stage₁.duration.nanos| ≤ s.maxStepPer poll := by
  have hbegun := hspans.begun
  have hover := hspans.meetsFirst.2
  have hsucc := endOf_succ hspans.first
  have hmono : endOf s.stages (k₁ + 1) ≤ endOf s.stages k₂ := endOf_mono s.stages hlt
  have hlast := hspans.meetsLast.1
  exact hs.abs_sub_lineAt_le poll hspans.first (by omega) (by omega)

/-- What has been gone of the last stage, if another one comes before it, is no more than the
largest step. -/
theorem Spans.abs_last_sub_le (hspans : s.Spans t₁ t₂ k₁ k₂ stage₁ stage₂) (hs : s.Exact)
    (hlt : k₁ < k₂) (hwithin : t₂.nanos ≤ t₁.nanos + poll.nanos) :
    |Segment.lineAt (usersAfter s.start s.stages k₂) stage₂.target
        (t₂.nanos - endOf s.stages k₂) stage₂.duration.nanos -
      (usersAfter s.start s.stages k₂).toNat| ≤ s.maxStepPer poll := by
  have hend := hspans.within
  have hsucc := endOf_succ hspans.last
  have hmono : endOf s.stages (k₁ + 1) ≤ endOf s.stages k₂ := endOf_mono s.stages hlt
  have hover := hspans.meetsFirst.2
  exact hs.abs_lineAt_sub_usersAfter_le poll hspans.last (by omega) (by omega)

/-- Every stage that meets a window contributes the largest step at most. -/
theorem Spans.abs_sub_le_mul (hspans : s.Spans t₁ t₂ k₁ k₂ stage₁ stage₂) (hs : s.Exact)
    (hwithin : t₂.nanos ≤ t₁.nanos + poll.nanos) :
    |Segment.lineAt (usersAfter s.start s.stages k₂) stage₂.target
        (t₂.nanos - endOf s.stages k₂) stage₂.duration.nanos -
      Segment.lineAt (usersAfter s.start s.stages k₁) stage₁.target
        (t₁.nanos - endOf s.stages k₁) stage₁.duration.nanos| ≤
      (k₂ + 1 - k₁ : Nat) * s.maxStepPer poll := by
  rcases Nat.eq_or_lt_of_le hspans.le with rfl | hlt
  · rw [Nat.add_sub_cancel_left, Nat.cast_one, one_mul]
    exact hspans.abs_sub_le_of_same hs hwithin
  · obtain ⟨n, rfl⟩ : ∃ n, k₂ = k₁ + 1 + n := ⟨k₂ - (k₁ + 1), by omega⟩
    have hleft := hspans.abs_sub_first_le hs hlt hwithin
    have hgone := hspans.abs_last_sub_le hs hlt hwithin
    have hbetween := hs.abs_usersAfter_add_sub_le poll (k₁ + 1) n fun j hj hjn => by
      obtain ⟨stage, hstage, -, hshort⟩ := hspans.exists_between (j := j) (by omega) hjn
      exact ⟨stage, hstage, by omega⟩
    have hcount : k₁ + 1 + n + 1 - k₁ = n + 2 := by omega
    rw [hcount]
    generalize Segment.lineAt _ _ (t₂.nanos - endOf s.stages (k₁ + 1 + n)) _ = v₂ at hgone ⊢
    generalize Segment.lineAt _ _ (t₁.nanos - endOf s.stages k₁) _ = v₁ at hleft ⊢
    generalize ((usersAfter s.start s.stages (k₁ + 1 + n)).toNat : Int) = u₂ at hgone hbetween
    generalize ((usersAfter s.start s.stages (k₁ + 1)).toNat : Int) = u₁ at hleft hbetween
    calc |v₂ - v₁| ≤ |v₂ - u₂| + |u₂ - v₁| := abs_sub_le _ _ _
      _ ≤ |v₂ - u₂| + (|u₂ - u₁| + |u₁ - v₁|) := Int.add_le_add_left (abs_sub_le _ _ _) _
      _ ≤ s.maxStepPer poll + (n * s.maxStepPer poll + s.maxStepPer poll) :=
        add_le_add hgone (add_le_add hbetween hleft)
      _ = (n + 2 : Nat) * s.maxStepPer poll := by push_cast; ring

/-- Stages that take no less than a while contribute the largest step together, if they meet one
window. -/
theorem Spans.abs_sub_le (hspans : s.Spans t₁ t₂ k₁ k₂ stage₁ stage₂) (hs : s.Exact)
    (hpoll : 0 < poll.nanos) (hwithin : t₂.nanos ≤ t₁.nanos + poll.nanos)
    (hlong : ∀ k stage, s.stages[k]? = some stage → Meets s.stages t₁ t₂ k →
      stage.target ≠ usersAfter s.start s.stages k → poll ≤ stage.duration) :
    |Segment.lineAt (usersAfter s.start s.stages k₂) stage₂.target
        (t₂.nanos - endOf s.stages k₂) stage₂.duration.nanos -
      Segment.lineAt (usersAfter s.start s.stages k₁) stage₁.target
        (t₁.nanos - endOf s.stages k₁) stage₁.duration.nanos| ≤ s.maxStepPer poll := by
  rcases Nat.eq_or_lt_of_le hspans.le with rfl | hlt
  · exact hspans.abs_sub_le_of_same hs hwithin
  have hmiddle := hspans.usersAfter_last hlt hwithin hlong
  by_cases hfirstFlat : stage₁.target = usersAfter s.start s.stages k₁
  · have hgone := hspans.abs_last_sub_le hs hlt hwithin
    rw [hmiddle] at hgone ⊢
    rw [Segment.lineAt_of_eq hfirstFlat.symm]
    exact hgone
  by_cases hlastFlat : stage₂.target = usersAfter s.start s.stages k₂
  · have hleft := hspans.abs_sub_first_le hs hlt hwithin
    rw [usersAfter_succ hspans.first] at hleft
    rw [Segment.lineAt_of_eq hlastFlat.symm, hlastFlat, hmiddle]
    exact hleft
  -- both change it, so both are long, and neither is steeper than the largest step allows
  have hlong₁ := Duration.le_def.mp (hlong _ _ hspans.first hspans.meetsFirst hfirstFlat)
  have hlong₂ := Duration.le_def.mp (hlong _ _ hspans.last hspans.meetsLast hlastFlat)
  have hsteep₁ := hs.distance_mul_le hspans.first hlong₁
  have hsteep₂ := hs.distance_mul_le hspans.last hlong₂
  have hbegun := hspans.begun
  have hover := hspans.meetsFirst.2
  have hsucc := endOf_succ hspans.first
  have hbegunLast := hspans.meetsLast.1
  have hmono : endOf s.stages (k₁ + 1) ≤ endOf s.stages k₂ := endOf_mono s.stages hlt
  rw [hmiddle] at hsteep₂ ⊢
  exact Segment.abs_lineAt_sub_lineAt_le hpoll (duration_pos hspans.first) (by omega) hsteep₁
    hsteep₂ (by omega)

/-- **How far the curve of a schedule moves in a window.**  Let no more than a while pass from one
moment to another one, which is not past the end.  If every stage that meets this window and
changes the number of users takes at least the while, the number of users changes by no more than
the largest step of a single stage.  Otherwise each stage that meets the window may contribute as
much, and no more. -/
theorem target_moves_by_steps {start : UInt64} {stages : List Stage}
    (hschedule : ofStages start stages = .ok s) (hs : s.Exact) (hpoll : 0 < poll.nanos)
    (hle : t₁ ≤ t₂) (hwithin : t₂.nanos ≤ t₁.nanos + poll.nanos) (hend : t₂ ≤ s.total) :
    ∃ n₁ n₂, s.targetAt t₁ = .active n₁ ∧ s.targetAt t₂ = .active n₂ ∧
      ((∀ k stage, stages[k]? = some stage → Meets stages t₁ t₂ k →
          stage.target ≠ usersAfter start stages k → poll ≤ stage.duration) →
        |(n₂.toNat : Int) - n₁.toNat| ≤ s.maxStepPer poll) ∧
      |(n₂.toNat : Int) - n₁.toNat| ≤ meetings stages t₁ t₂ * s.maxStepPer poll := by
  obtain ⟨rfl, rfl⟩ := ofStages_eq_ok hschedule
  rcases Nat.eq_or_lt_of_le (Duration.le_def.mp hle) with hsame | hlt
  · -- no time passes
    obtain rfl : t₁ = t₂ := Duration.ext hsame
    obtain ⟨n, hn⟩ := exists_targetAt hend
    refine ⟨n, n, hn, hn, ?_, ?_⟩
    · intro _
      rw [sub_self, abs_zero]
      exact Int.natCast_nonneg _
    · rw [sub_self, abs_zero]
      exact Int.mul_nonneg (Int.natCast_nonneg _) (Int.natCast_nonneg _)
  · obtain ⟨k₁, k₂, stage₁, stage₂, hspans⟩ := hs.exists_spans (Duration.lt_def.mpr hlt) hend
    have hover₁ := hspans.meetsFirst.2
    have hbegun₂ := hspans.meetsLast.1
    obtain ⟨n₁, hn₁, hvalue₁⟩ := hs.targetAt_eq hspans.first hspans.begun (by omega)
    obtain ⟨n₂, hn₂, hvalue₂⟩ := hs.targetAt_eq hspans.last (by omega) hspans.within
    refine ⟨n₁, n₂, hn₁, hn₂, ?_, ?_⟩
    · intro hlong
      rw [hvalue₁, hvalue₂]
      exact hspans.abs_sub_le hs hpoll hwithin hlong
    · rw [hvalue₁, hvalue₂]
      refine Int.le_trans (hspans.abs_sub_le_mul hs hwithin) ?_
      have hcount := le_meetings (List.getElem?_eq_some_iff.mp hspans.last).1 hspans.meetsFirst
        hspans.meetsLast
      exact Int.mul_le_mul_of_nonneg_right (Int.ofNat_le.mpr hcount) (Int.natCast_nonneg _)

/-- Ten users come within a second, stay for ten milliseconds, and leave within a second. -/
def plateau : List Stage :=
  [⟨Duration.seconds 1, 10⟩, ⟨Duration.ofMillis 10, 10⟩, ⟨Duration.seconds 1, 0⟩]

/-- While all three stages pass, nobody but the last user comes, and none leaves. -/
theorem plateau_moves_by_one : ∃ s, ofStages 0 plateau = .ok s ∧
    s.targetAt (Duration.ofMillis 950) = .active 9 ∧
    s.targetAt (Duration.ofMillis 1050) = .active 10 ∧
    meetings plateau (Duration.ofMillis 950) (Duration.ofMillis 1050) = 3 ∧
    s.maxStepPer (Duration.ofMillis 100) = 1 ∧
    |((10 : UInt64).toNat : Int) - (9 : UInt64).toNat| ≤ s.maxStepPer (Duration.ofMillis 100) := by
  obtain ⟨s, hs⟩ : ∃ s, ofStages 0 plateau = .ok s := ⟨_, rfl⟩
  obtain ⟨hstart, hstages⟩ := ofStages_eq_ok hs
  have hexact : s.Exact := by
    refine ⟨by rw [hstages]; decide, ?_⟩
    rw [hstages, hstart]
    intro k stage hstage
    match k, hstage with
    | 0, hstage => cases hstage; decide
    | 1, hstage => cases hstage; decide
    | 2, hstage => cases hstage; decide
    | k + 3, hstage => cases hstage
  have hlong : ∀ k stage, plateau[k]? = some stage →
      Meets plateau (Duration.ofMillis 950) (Duration.ofMillis 1050) k →
      stage.target ≠ usersAfter 0 plateau k → Duration.ofMillis 100 ≤ stage.duration := by
    intro k stage hstage _ hchange
    match k, hstage with
    | 0, hstage => cases hstage; decide
    | 1, hstage => cases hstage; exact absurd rfl hchange
    | 2, hstage => cases hstage; decide
    | k + 3, hstage => cases hstage
  have hvalues : s.targetAt (Duration.ofMillis 950) = .active 9 ∧
      s.targetAt (Duration.ofMillis 1050) = .active 10 ∧
      s.maxStepPer (Duration.ofMillis 100) = 1 ∧ s.total = Duration.ofMillis 2010 := by
    cases hs
    decide +kernel
  obtain ⟨hbefore, hbehind, hstep, htotal⟩ := hvalues
  have hle : Duration.ofMillis 950 ≤ Duration.ofMillis 1050 := by decide
  have hwithin : (Duration.ofMillis 1050).nanos ≤
      (Duration.ofMillis 950).nanos + (Duration.ofMillis 100).nanos := by decide
  have hend : Duration.ofMillis 1050 ≤ s.total := by
    rw [htotal]
    decide
  obtain ⟨n₁, n₂, hn₁, hn₂, hmoves, -⟩ :=
    target_moves_by_steps hs hexact (by decide) hle hwithin hend
  cases hbefore.symm.trans hn₁
  cases hbehind.symm.trans hn₂
  exact ⟨s, hs, hbefore, hbehind, by decide, hstep, hmoves hlong⟩

/-- Ten users come within fifty milliseconds, and ten more within another fifty. -/
def twoJumps : List Stage := [⟨Duration.ofMillis 50, 10⟩, ⟨Duration.ofMillis 50, 20⟩]

/-- **Two short stages in a window exceed the largest step**: all twenty users come within a
hundred milliseconds, in which the largest step is ten. -/
theorem short_stages_exceed_step : ∃ s, ofStages 0 twoJumps = .ok s ∧ s.Exact ∧
    s.total = Duration.ofMillis 100 ∧ s.targetAt Duration.zero = .active 0 ∧
    s.targetAt (Duration.ofMillis 100) = .active 20 ∧
    s.maxStepPer (Duration.ofMillis 100) = 10 := by
  obtain ⟨s, hs⟩ : ∃ s, ofStages 0 twoJumps = .ok s := ⟨_, rfl⟩
  obtain ⟨hstart, hstages⟩ := ofStages_eq_ok hs
  have hexact : s.Exact := by
    refine ⟨by rw [hstages]; decide, ?_⟩
    rw [hstages, hstart]
    intro k stage hstage
    match k, hstage with
    | 0, hstage => cases hstage; decide
    | 1, hstage => cases hstage; decide
    | k + 2, hstage => cases hstage
  refine ⟨s, hs, hexact, ?_⟩
  cases hs
  decide +kernel

end Schedule

end StagedLoad
