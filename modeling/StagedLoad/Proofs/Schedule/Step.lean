import StagedLoad.Proofs.Schedule.Curve

/-!
# How far the curve of a schedule moves within a while

Within a stage the number of users changes by its distance over its length, and where one stage
ends and the next one begins, by both.  If no stage is shorter than the while, at most two of
them meet within it.  The number is cut to a whole one towards where a line begins, so at the end
of a line what is left of its way is rounded up, and at the beginning of the next one what has
been gone of its way is rounded down.  Together they are no more than the largest step of a
single stage, as every line ends at a whole number.

## Main definitions

* `Schedule.Gradual` — no stage is shorter than a while.
* `Schedule.Roomy` — a moment is far enough from the longest duration.
* `Schedule.OnLine` — a moment lies on the line through a stage.

## Main results

* `Segment.abs_lineAt_sub_le`, `Segment.abs_lineAt_sub_lineAt_le` — steps on a line, and from one
  line to the next.
* `Schedule.exists_onLine` — every moment lies on a line.
* `Schedule.abs_current_sub_le` — **the curve stays within its largest step**.
-/

namespace StagedLoad

/-! ### Steps on lines -/

namespace Segment

/-- What has been gone of a way grows by no more than a step if no more than the while passes. -/
theorem gone_le_add {d p x x' L step : Nat} (hL : 0 < L) (hstep : d * p ≤ step * L)
    (hx : x' ≤ x + p) : d * x' / L ≤ d * x / L + step := by
  have hle : d * x' ≤ d * x + step * L :=
    calc d * x' ≤ d * (x + p) := Nat.mul_le_mul_left d hx
      _ = d * x + d * p := Nat.mul_add d x p
      _ ≤ d * x + step * L := Nat.add_le_add_left hstep _
  calc d * x' / L ≤ (d * x + step * L) / L := Nat.div_le_div_right hle
    _ = d * x / L + step := Nat.add_mul_div_right _ _ hL

/-- What is left of one way and has been gone of the next is no more than a step if no more than
the while passes from one to the other. -/
theorem left_add_gone_le {d e p x y L K step : Nat} (hp : 0 < p) (hL : 0 < L) (hx : x ≤ L)
    (hd : d * p ≤ step * L) (he : e * p ≤ step * K) (hxy : L - x + y ≤ p) :
    d - d * x / L + e * y / K ≤ step := by
  rcases Nat.eq_zero_or_pos K with rfl | hK
  · have hleft : d * L / L ≤ d * x / L + step := gone_le_add hL hd (by omega)
    rw [Nat.mul_div_cancel d hL] at hleft
    simpa [Nat.add_comm] using hleft
  generalize hf : e * y / K = f
  have hfK : f * K ≤ e * y := hf ▸ Nat.div_mul_le_self _ _
  -- the part of the step that has been gone is no more than that of the while that has passed
  have hgone : f * p ≤ step * y := by
    refine Nat.le_of_mul_le_mul_right ?_ hK
    calc f * p * K = f * K * p := Nat.mul_right_comm f p K
      _ ≤ e * y * p := Nat.mul_le_mul_right p hfK
      _ = e * p * y := Nat.mul_right_comm e y p
      _ ≤ step * K * y := Nat.mul_le_mul_right y he
      _ = step * y * K := Nat.mul_right_comm step K y
  have hstep : f ≤ step := by
    refine Nat.le_of_mul_le_mul_right ?_ hp
    exact Nat.le_trans hgone (Nat.mul_le_mul_left step (by omega))
  -- so the rest of the step is enough for what is left
  have hleft : d * (L - x) ≤ (step - f) * L := by
    refine Nat.le_of_mul_le_mul_right ?_ hp
    calc d * (L - x) * p = d * p * (L - x) := Nat.mul_right_comm d (L - x) p
      _ ≤ step * L * (L - x) := Nat.mul_le_mul_right _ hd
      _ = step * (L - x) * L := Nat.mul_right_comm step L (L - x)
      _ ≤ (step - f) * p * L := by
        refine Nat.mul_le_mul_right L ?_
        have hwhile : step * (L - x) + step * y ≤ step * p := by
          rw [← Nat.mul_add]
          exact Nat.mul_le_mul_left step hxy
        rw [Nat.sub_mul]
        omega
      _ = (step - f) * L * p := Nat.mul_right_comm (step - f) p L
  have hend : d ≤ d * x / L + (step - f) := by
    have hway : d * x + d * (L - x) = d * L := by
      rw [← Nat.mul_add, Nat.add_sub_cancel' hx]
    rw [← Nat.add_mul_div_right _ _ hL]
    exact (Nat.le_div_iff_mul_le hL).2 (by omega)
  omega

/-- How far apart two numbers of users are. -/
def distance (source target : UInt64) : Nat := ((target.toNat : Int) - source.toNat).natAbs

/-- A line goes up or down, by what has been gone of its way. -/
theorem exists_lineAt_eq (source target : UInt64) : ∃ sign : Int, (sign = 1 ∨ sign = -1) ∧
    ∀ x L : Nat, lineAt source target x L =
      source.toNat + sign * (distance source target * x / L : Nat) := by
  unfold lineAt distance
  generalize (target.toNat : Int) - source.toNat = d
  rcases Int.le_total 0 d with hup | hdown
  · lift d to Nat using hup
    refine ⟨1, .inl rfl, ?_⟩
    intro x L
    rw [Int.natAbs_natCast, Int.one_mul, ← Int.natCast_mul, ← Int.ofNat_tdiv]
  · obtain ⟨m, hm⟩ := Int.eq_ofNat_of_zero_le (Int.neg_nonneg_of_nonpos hdown)
    obtain rfl : d = -m := by omega
    refine ⟨-1, .inr rfl, ?_⟩
    intro x L
    rw [Int.natAbs_neg, Int.natAbs_natCast, Int.neg_mul, Int.neg_tdiv, ← Int.natCast_mul,
      ← Int.ofNat_tdiv, Int.neg_one_mul]

/-- Between two points of a line lies what has been gone of its way in between. -/
theorem abs_lineAt_sub (source target : UInt64) {x x' : Nat} (L : Nat) (hle : x ≤ x') :
    |lineAt source target x' L - lineAt source target x L| =
      ((distance source target * x' / L - distance source target * x / L : Nat) : Int) := by
  have hmono : distance source target * x / L ≤ distance source target * x' / L :=
    Nat.div_le_div_right (Nat.mul_le_mul_left _ hle)
  obtain ⟨sign, hsign, hline⟩ := exists_lineAt_eq source target
  rw [hline, hline]
  generalize distance source target * x / L = a at hmono ⊢
  generalize distance source target * x' / L = b at hmono ⊢
  rcases hsign with rfl | rfl
  · rw [abs_of_nonneg (by omega)]
    omega
  · rw [abs_of_nonpos (by omega)]
    omega

variable {source middle target : UInt64} {p x x' y L K step : Nat}

/-- On a line that is no steeper than a step allows, the number of users changes by no more than
the step. -/
theorem abs_lineAt_sub_le (hL : 0 < L) (hstep : distance source target * p ≤ step * L)
    (hle : x ≤ x') (hwithin : x' ≤ x + p) :
    |lineAt source target x' L - lineAt source target x L| ≤ step := by
  rw [abs_lineAt_sub source target L hle, Int.ofNat_le]
  have := gone_le_add hL hstep hwithin
  omega

/-- From one line to the next, if none is steeper than a step allows, the number of users changes
by no more than the step. -/
theorem abs_lineAt_sub_lineAt_le (hp : 0 < p) (hL : 0 < L) (hx : x ≤ L)
    (hd : distance source middle * p ≤ step * L) (he : distance middle target * p ≤ step * K)
    (hwithin : L - x + y ≤ p) :
    |lineAt middle target y K - lineAt source middle x L| ≤ step := by
  have hmeet := left_add_gone_le hp hL hx hd he hwithin
  have hleft := abs_lineAt_sub source middle L hx
  rw [lineAt_self source middle hL, Nat.mul_div_cancel _ hL] at hleft
  have hgone := abs_lineAt_sub middle target K (Nat.zero_le y)
  rw [Nat.mul_zero, Nat.zero_div, Nat.sub_zero] at hgone
  have hstart : lineAt middle target 0 K = middle.toNat := by simp [lineAt]
  rw [hstart] at hgone
  calc |lineAt middle target y K - lineAt source middle x L|
      ≤ |lineAt middle target y K - middle.toNat| + |middle.toNat - lineAt source middle x L| :=
        abs_sub_le _ _ _
    _ = ((distance middle target * y / K + (distance source middle -
          distance source middle * x / L) : Nat) : Int) := by rw [hgone, hleft, Int.natCast_add]
    _ ≤ step := Int.ofNat_le.mpr (by omega)

end Segment

/-! ### The curve -/

namespace Stage

theorem usersAfter_succ {start : UInt64} {stages : List Stage} {k : Nat} {stage : Stage}
    (h : stages[k]? = some stage) : usersAfter start stages (k + 1) = stage.target := by
  rw [usersAfter, List.take_add_one, h]
  simp

end Stage

namespace Schedule

open Stage

variable {s : Schedule} {poll t t₁ t₂ : Duration} {k : Nat} {stage stage₁ stage₂ : Stage}

/-- The stages of a schedule together are no longer than the longest duration, or a moment lies
in the first half of that, which is as far as a clock gets that counts seconds in 63 bits.  The
stages that have begun by then are not cut off too early. -/
def Roomy (s : Schedule) (t : Duration) : Prop :=
  endOf s.stages s.stages.length ≤ Duration.maxNanos ∨ 2 * t.nanos ≤ Duration.maxNanos

/-- No stage is shorter than a while, and the products that the lines through the stages are
computed with stay in range. -/
structure Gradual (s : Schedule) (poll : Duration) : Prop where
  /-- No stage is shorter than the while. -/
  long : ∀ stage ∈ s.stages, poll ≤ stage.duration
  /-- The products stay in range. -/
  range : ∀ k stage, s.stages[k]? = some stage →
    |(stage.target.toNat : Int) - (usersAfter s.start s.stages k).toNat| * stage.duration.nanos <
      2 ^ 127

/-- How long a stage lasts before the longest duration cuts it off. -/
def lengthOf (s : Schedule) (k : Nat) : Nat :=
  min (endOf s.stages (k + 1)) Duration.maxNanos - endOf s.stages k

/-- At a moment a schedule is at a point of the line through a stage. -/
structure OnLine (s : Schedule) (poll t : Duration) (k : Nat) (stage : Stage) : Prop where
  /-- The stage. -/
  found : s.stages[k]? = some stage
  /-- It has begun. -/
  begun : endOf s.stages k ≤ t.nanos
  /-- The moment at which the stage before it ends does not belong to it. -/
  later : 0 < k → endOf s.stages k < t.nanos
  /-- It is not over. -/
  within : t.nanos ≤ endOf s.stages k + s.lengthOf k
  /-- It is no shorter than the while. -/
  long : poll.nanos ≤ s.lengthOf k
  /-- The point. -/
  value : ((s.snapshotAt t).current.toNat : Int) =
    Segment.lineAt (usersAfter s.start s.stages k) stage.target (t.nanos - endOf s.stages k)
      (s.lengthOf k)
  /-- The line is no steeper than the largest step allows. -/
  step : Segment.distance (usersAfter s.start s.stages k) stage.target * poll.nanos ≤
    s.maxStepPer poll * s.lengthOf k

theorem lengthOf_le (hstage : s.stages[k]? = some stage) :
    s.lengthOf k ≤ stage.duration.nanos := by
  rw [lengthOf, endOf_succ hstage]
  omega

/-- A stage that has begun by a moment is no shorter than the while, even if it is cut off. -/
theorem le_lengthOf (hs : s.Gradual poll) (hroom : s.Roomy t) (hstage : s.stages[k]? = some stage)
    (hbegun : endOf s.stages k ≤ t.nanos) : poll.nanos ≤ s.lengthOf k := by
  have hlong := Duration.le_def.mp (hs.long stage (List.mem_of_getElem? hstage))
  have hend := endOf_succ hstage
  have hlt : k < s.stages.length := (List.getElem?_eq_some_iff.mp hstage).1
  have hbefore : endOf s.stages k + poll.nanos ≤ Duration.maxNanos := by
    rcases hroom with hfits | hhalf
    · have hle : endOf s.stages (k + 1) ≤ endOf s.stages s.stages.length := endOf_mono s.stages hlt
      omega
    · cases k with
      | zero =>
        rw [endOf_zero, Nat.zero_add]
        exact poll.nanos_le_maxNanos
      | succ k =>
        -- the first stage is no shorter than the while, and it is over
        have hfirst : s.stages[0]? = some s.stages[0] := List.getElem?_eq_getElem (by omega)
        have hlong := Duration.le_def.mp (hs.long _ (List.mem_of_getElem? hfirst))
        have hone := endOf_succ hfirst
        have hmono : endOf s.stages (0 + 1) ≤ endOf s.stages (k + 1) :=
          endOf_mono s.stages (by omega)
        rw [endOf_zero] at hone
        omega
  rw [lengthOf]
  omega

theorem le_foldl_max {l : List Nat} {n m : Nat} (h : n ≤ m ∨ n ∈ l) : n ≤ l.foldl max m := by
  induction l generalizing m with
  | nil => simpa using h
  | cons a l ih =>
    apply ih
    rcases h with h | h
    · exact .inl (Nat.le_trans h (Nat.le_max_left m a))
    · rcases List.mem_cons.mp h with rfl | h
      · exact .inl (Nat.le_max_right m n)
      · exact .inr h

/-- The step of a segment is its whole way, or else no less than what is gone within the while. -/
theorem le_stepOf_or {seg : Segment} (poll : Duration) (hpos : 0 < seg.duration.nanos)
    (hwide : seg.delta.natAbs * seg.duration.nanos ≤ Segment.maxUnsigned) :
    seg.delta.natAbs ≤ stepOf poll seg ∨
      seg.delta.natAbs * poll.nanos ≤ stepOf poll seg * seg.duration.nanos := by
  unfold stepOf
  dsimp only
  rw [Nat.max_eq_left hpos]
  generalize seg.delta.natAbs = d at hwide ⊢
  generalize seg.duration.nanos = L at hpos hwide ⊢
  rcases Nat.le_total d ((min (d * poll.nanos) Segment.maxUnsigned + (L - 1)) / L) with hmin | hmin
  · rw [Nat.min_eq_right hmin]
    exact .inl (Nat.le_refl d)
  rw [Nat.min_eq_left hmin]
  rcases Nat.le_total (d * poll.nanos) Segment.maxUnsigned with hfits | hcut
  · right
    rw [Nat.min_eq_left hfits] at hmin ⊢
    have hceil := (Nat.div_le_iff_le_mul_add_pred hpos).mp
      (Nat.le_refl ((d * poll.nanos + (L - 1)) / L))
    rw [Nat.mul_comm L] at hceil
    omega
  · -- a product that is cut to 128 bits is still no less than the whole way
    left
    rw [Nat.min_eq_right hcut]
    exact (Nat.le_div_iff_mul_le hpos).mpr (by omega)

/-- The way of a stage is no more than the largest step, or else its line is no steeper than that
allows. -/
theorem distance_le_or (poll : Duration) (hstage : s.stages[k]? = some stage)
    (hrange : |(stage.target.toNat : Int) - (usersAfter s.start s.stages k).toNat| *
      stage.duration.nanos < 2 ^ 127) (hpos : 0 < s.lengthOf k) :
    Segment.distance (usersAfter s.start s.stages k) stage.target ≤ s.maxStepPer poll ∨
      Segment.distance (usersAfter s.start s.stages k) stage.target * poll.nanos ≤
        s.maxStepPer poll * s.lengthOf k := by
  have hseg : s.segments[k]? = _ := Segment.getElem?_layOut hstage
  simp only [Nat.zero_add, Duration.nanos_zero] at hseg
  generalize hsegment : Segment.mk k _ _ _ _ = seg at hseg
  obtain ⟨d, hd⟩ : ∃ d, Segment.distance (usersAfter s.start s.stages k) stage.target = d :=
    ⟨_, rfl⟩
  have hdelta : seg.delta.natAbs = d := by
    rw [← hd, ← hsegment]
    rfl
  have hlength : seg.duration.nanos = s.lengthOf k := by
    rw [lengthOf] at hpos ⊢
    rw [← hsegment, Segment.duration, Duration.nanos_sub]
    simp only [Duration.nanos_clamp]
    omega
  have hle : stepOf poll seg ≤ s.maxStepPer poll :=
    le_foldl_max (.inr (List.mem_map_of_mem (List.mem_of_getElem? hseg)))
  have hwide : d * s.lengthOf k ≤ Segment.maxUnsigned := by
    rw [Int.abs_eq_natAbs] at hrange
    have hproduct : (Segment.distance (usersAfter s.start s.stages k) stage.target : Int) *
        stage.duration.nanos < 2 ^ 127 := hrange
    have hlt : d * stage.duration.nanos < 2 ^ 127 := by
      rw [hd] at hproduct
      exact_mod_cast hproduct
    have hle := Nat.mul_le_mul_left d (lengthOf_le hstage)
    unfold Segment.maxUnsigned
    omega
  have hstep := le_stepOf_or poll (by rw [hlength]; exact hpos)
    (by rw [hdelta, hlength]; exact hwide)
  rw [hdelta, hlength] at hstep
  rw [hd]
  exact hstep.imp (Nat.le_trans · hle) (Nat.le_trans · (Nat.mul_le_mul_right _ hle))

/-- No line is steeper than the largest step allows. -/
theorem distance_mul_le (hs : s.Gradual poll) (hstage : s.stages[k]? = some stage)
    (hlong : poll.nanos ≤ s.lengthOf k) (hpos : 0 < s.lengthOf k) :
    Segment.distance (usersAfter s.start s.stages k) stage.target * poll.nanos ≤
    s.maxStepPer poll * s.lengthOf k := by
  rcases distance_le_or poll hstage (hs.range k stage hstage) hpos with hway | hsteep
  · exact Nat.mul_le_mul hway hlong
  · exact hsteep

theorem current_zero (hzero : t.nanos = 0) : (s.snapshotAt t).current = s.start := by
  have hmin : Duration.min t s.total = t := if_pos (by omega)
  unfold snapshotAt
  dsimp only
  rw [hmin, if_pos (by rw [Duration.isZero, hzero]; rfl)]

/-- In a stage the number of users is the point on the line through it, even if the stage is cut
off. -/
theorem current_of_covers (hs : s.Gradual poll) (ht : t ≤ s.total)
    (hfits : endOf s.stages s.stages.length ≤ Duration.maxNanos ∨ t.nanos < Duration.maxNanos)
    (hstage : s.stages[k]? = some stage) (hcovers : Covers s.stages k t) :
    ((s.snapshotAt t).current.toNat : Int) = Segment.lineAt (usersAfter s.start s.stages k)
      stage.target (t.nanos - endOf s.stages k) (s.lengthOf k) := by
  have hseg := segmentAt_eq hfits hstage hcovers.holds
  obtain ⟨hbegun, hend⟩ := hcovers
  have hmax := t.nanos_le_maxNanos
  have hcurrent : (s.snapshotAt t).current = (s.segmentAt t).valueAt t := by
    have hmin : Duration.min t s.total = t := if_pos (Duration.le_def.mp ht)
    unfold snapshotAt
    dsimp only
    rw [hmin, if_neg]
    rw [Duration.isZero, beq_iff_eq]
    omega
  generalize s.segmentAt t = seg at hcurrent hseg
  have hopening : seg.opening.nanos = endOf s.stages k := by
    rw [hseg]
    exact Nat.min_eq_left (by omega)
  have hending : seg.ending.nanos = min (endOf s.stages (k + 1)) Duration.maxNanos := by
    rw [hseg]
    rfl
  have hduration : seg.duration.nanos = s.lengthOf k := by
    rw [Segment.duration, Duration.nanos_sub, hopening, hending, lengthOf]
  have hsource : seg.source = usersAfter s.start s.stages k := by rw [hseg]
  have htarget : seg.target = stage.target := by rw [hseg]
  -- the segment is no longer than its stage
  have hrange : |(seg.target.toNat : Int) - seg.source.toNat| * seg.duration.nanos < 2 ^ 127 := by
    rw [hsource, htarget, hduration]
    refine lt_of_le_of_lt ?_ (hs.range k _ hstage)
    exact Int.mul_le_mul_of_nonneg_left (Int.ofNat_le.mpr (lengthOf_le hstage)) (abs_nonneg _)
  have hvalue := Segment.toNat_valueAt (s := seg) (t := t)
    (by rw [Duration.lt_def, hopening]; exact hbegun)
    (by rw [Duration.le_def, hending]; omega) hrange
  rw [hcurrent, hvalue, hopening, hduration, hsource, htarget]

/-- **Every moment of a schedule lies on a line.** -/
theorem exists_onLine (hs : s.Gradual poll) (hpoll : 0 < poll.nanos) (hroom : s.Roomy t)
    (ht : t ≤ s.total) : ∃ k stage, s.OnLine poll t k stage := by
  rcases Nat.eq_zero_or_pos t.nanos with hzero | hpos
  · -- at the start the line through the first stage begins
    obtain ⟨first, hfirst⟩ : ∃ first, s.stages[0]? = some first :=
      ⟨_, List.getElem?_eq_getElem (List.length_pos_iff.mpr s.ne_nil)⟩
    have hbegun : endOf s.stages 0 ≤ t.nanos := Nat.zero_le _
    have hlong := le_lengthOf hs hroom hfirst hbegun
    refine ⟨0, first, hfirst, hbegun, by omega, by omega, hlong, ?_,
      distance_mul_le hs hfirst hlong (by omega)⟩
    rw [current_zero hzero, Segment.lineAt, usersAfter_zero, hzero]
    simp
  · have htotal : t.nanos ≤ endOf s.stages s.stages.length := by
      rw [total_eq, Duration.le_def, Duration.nanos_clamp] at ht
      omega
    obtain ⟨k, ⟨hlt, hcovers⟩, -⟩ := existsUnique_covers hpos htotal
    have hstage : s.stages[k]? = some s.stages[k] := List.getElem?_eq_getElem hlt
    have hfits : endOf s.stages s.stages.length ≤ Duration.maxNanos ∨
        t.nanos < Duration.maxNanos := hroom.imp_right fun hhalf => by omega
    have hvalue := current_of_covers hs ht hfits hstage hcovers
    obtain ⟨hbegun, hend⟩ := hcovers
    have hlong := le_lengthOf hs hroom hstage (Nat.le_of_lt hbegun)
    have hwithin : t.nanos ≤ endOf s.stages k + s.lengthOf k := by
      have hmax := t.nanos_le_maxNanos
      rw [lengthOf]
      omega
    exact ⟨k, _, hstage, Nat.le_of_lt hbegun, fun _ => hbegun, hwithin, hlong, hvalue,
      distance_mul_le hs hstage hlong (by omega)⟩

theorem OnLine.within_endOf (h : s.OnLine poll t k stage) : t.nanos ≤ endOf s.stages (k + 1) := by
  have hmono : endOf s.stages k ≤ endOf s.stages (k + 1) := endOf_mono s.stages (Nat.le_succ k)
  have hwithin := h.within
  rw [lengthOf] at hwithin
  omega

/-! ### Steps of the curve -/

section Step

variable (hpoll : 0 < poll.nanos) (hwithin : t₂.nanos ≤ t₁.nanos + poll.nanos)

include hpoll hwithin

/-- Within a stage the number of users changes by no more than the largest step. -/
theorem OnLine.abs_sub_le_of_same (h₁ : s.OnLine poll t₁ k stage₁)
    (h₂ : s.OnLine poll t₂ k stage₂) (hle : t₁ ≤ t₂) :
    |((s.snapshotAt t₂).current.toNat : Int) - (s.snapshotAt t₁).current.toNat| ≤
      s.maxStepPer poll := by
  obtain rfl : stage₁ = stage₂ := Option.some.inj (h₁.found.symm.trans h₂.found)
  rw [Duration.le_def] at hle
  rw [h₁.value, h₂.value]
  exact Segment.abs_lineAt_sub_le (Nat.lt_of_lt_of_le hpoll h₁.long) h₁.step (by omega) (by omega)

/-- From one stage to the next the number of users changes by no more than the largest step. -/
theorem OnLine.abs_sub_le_of_next (h₁ : s.OnLine poll t₁ k stage₁)
    (h₂ : s.OnLine poll t₂ (k + 1) stage₂) :
    |((s.snapshotAt t₂).current.toNat : Int) - (s.snapshotAt t₁).current.toNat| ≤
      s.maxStepPer poll := by
  -- the stage before is over, so it was not cut off
  have hlength : endOf s.stages (k + 1) = endOf s.stages k + s.lengthOf k := by
    have hmono : endOf s.stages k ≤ endOf s.stages (k + 1) := endOf_mono s.stages (Nat.le_succ k)
    have hover := h₂.begun
    have hmax := t₂.nanos_le_maxNanos
    rw [lengthOf]
    omega
  have hbegun₁ := h₁.begun
  have hbegun₂ := h₂.begun
  have hwithin₁ := h₁.within
  -- the line that begins begins where the other one ends
  have hsource : usersAfter s.start s.stages (k + 1) = stage₁.target := usersAfter_succ h₁.found
  have hvalue₂ := h₂.value
  have hstep₂ := h₂.step
  rw [hsource] at hvalue₂ hstep₂
  rw [h₁.value, hvalue₂]
  exact Segment.abs_lineAt_sub_lineAt_le hpoll (Nat.lt_of_lt_of_le hpoll h₁.long) (by omega)
    h₁.step hstep₂ (by omega)

end Step

/-- Past the end of a schedule the number of users stays as it is at the end. -/
theorem current_min_total (s : Schedule) (t : Duration) :
    (s.snapshotAt (Duration.min t s.total)).current = (s.snapshotAt t).current := by
  have hmin : Duration.min (Duration.min t s.total) s.total = Duration.min t s.total :=
    if_pos (by rw [Duration.nanos_min]; exact Nat.min_le_right _ _)
  unfold snapshotAt
  rw [hmin]

theorem Roomy.of_le (h : s.Roomy t₂) (hle : t₁ ≤ t₂) : s.Roomy t₁ := by
  rw [Duration.le_def] at hle
  exact h.imp_right fun hhalf => by omega

/-- **The curve of a schedule stays within its largest step.**  If no stage is shorter than a
while, the number of users changes within it by no more than the largest step of a single stage,
past the end of the schedule as well. -/
theorem abs_current_sub_le (hs : s.Gradual poll) (hpoll : 0 < poll.nanos) (hroom : s.Roomy t₂)
    (hle : t₁ ≤ t₂) (hwithin : t₂.nanos ≤ t₁.nanos + poll.nanos) :
    |((s.snapshotAt t₂).current.toNat : Int) - (s.snapshotAt t₁).current.toNat| ≤
      s.maxStepPer poll := by
  -- two moments past the end are as good as the end
  obtain ⟨m₁, hm₁⟩ : ∃ m, m = Duration.min t₁ s.total := ⟨_, rfl⟩
  obtain ⟨m₂, hm₂⟩ : ∃ m, m = Duration.min t₂ s.total := ⟨_, rfl⟩
  have hn₁ : m₁.nanos = min t₁.nanos s.total.nanos := by rw [hm₁]; exact Duration.nanos_min _ _
  have hn₂ : m₂.nanos = min t₂.nanos s.total.nanos := by rw [hm₂]; exact Duration.nanos_min _ _
  rw [← current_min_total s t₁, ← current_min_total s t₂, ← hm₁, ← hm₂]
  rw [Duration.le_def] at hle
  have hroom₂ : s.Roomy m₂ := hroom.of_le (Duration.le_def.mpr (by omega))
  have hle : m₁ ≤ m₂ := Duration.le_def.mpr (by omega)
  have hwithin : m₂.nanos ≤ m₁.nanos + poll.nanos := by omega
  obtain ⟨k₁, stage₁, h₁⟩ := exists_onLine hs hpoll (hroom₂.of_le hle) (t := m₁)
    (Duration.le_def.mpr (by omega))
  obtain ⟨k₂, stage₂, h₂⟩ := exists_onLine hs hpoll hroom₂ (t := m₂)
    (Duration.le_def.mpr (by omega))
  rcases Nat.lt_trichotomy k₂ k₁ with hlt | rfl | hlt
  · -- the later moment does not lie in an earlier stage
    have hmono : endOf s.stages (k₂ + 1) ≤ endOf s.stages k₁ := endOf_mono s.stages hlt
    have hlater := h₁.later (Nat.lt_of_le_of_lt (Nat.zero_le k₂) hlt)
    have hend := h₂.within_endOf
    rw [Duration.le_def] at hle
    omega
  · exact h₁.abs_sub_le_of_same hpoll hwithin h₂ hle
  · rcases Nat.eq_or_lt_of_le hlt with rfl | hfar
    · exact h₁.abs_sub_le_of_next hpoll hwithin h₂
    · -- no stage lies in between, for it would be shorter than the while
      obtain ⟨between, hbetween⟩ : ∃ between, s.stages[k₁ + 1]? = some between :=
        ⟨_, List.getElem?_eq_getElem
          (Nat.lt_trans hfar (List.getElem?_eq_some_iff.mp h₂.found).1)⟩
      have hlong := Duration.le_def.mp (hs.long between (List.mem_of_getElem? hbetween))
      have hmono : endOf s.stages (k₁ + 1 + 1) ≤ endOf s.stages k₂ := endOf_mono s.stages hfar
      have hlater := h₂.later (Nat.lt_of_le_of_lt (Nat.zero_le _) hfar)
      have hend := h₁.within_endOf
      rw [endOf_succ hbetween] at hmono
      omega

end Schedule

end StagedLoad
