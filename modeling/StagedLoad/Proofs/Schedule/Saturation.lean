import StagedLoad.Proofs.Schedule.Step

/-!
# The curve of a schedule at the limits of its arithmetic

Whatever the magnitudes, what has been gone of a way lies between nothing and the way.  So the
number of users stays between the ends of a stage, and moves in one direction only.  But if the
product of a way is cut off, the whole of it is never gone, and the stage ends before its target.

## Main definitions

* `Segment.Between` — between the ends of a stage.
* `Segment.Peaks` — the greatest number of users is there for a moment of a stage.

## Main results

* `Schedule.never_overshoots` — **the curve stays between the ends of a stage**.
* `Segment.peaks_iff`, `Schedule.exists_targetAt_peak_iff` — whether the peak is attained.
* `Schedule.reaches_target_iff_whole` — **which stages reach their target**.
* `Schedule.longRamp_falls_short` — a stage that does not reach its target.
-/

namespace StagedLoad

/-! ### The peak of a single way -/

namespace Segment

/-- The greatest number of users is there for a moment: it is the target of a stage that reaches it,
or the stage starts from it and does not take the first user away within a nanosecond. -/
def Peaks (source target : UInt64) (length : Nat) (peak : UInt64) : Prop :=
  target = peak ∧ Whole source target length ∨ source = peak ∧ distance source target < length

/-- A number of users lies between the two ends of a stage. -/
def Between (source target n : UInt64) : Prop :=
  source ≤ n ∧ n ≤ target ∨ target ≤ n ∧ n ≤ source

variable {source target peak : UInt64} {x L : Nat}

instance : Decidable (Peaks source target L peak) := inferInstanceAs (Decidable (_ ∧ _ ∨ _ ∧ _))

/-- A single nanosecond is too short for a user to leave, if there are more nanoseconds than
users. -/
theorem wayAt_one (h : distance source target < L) : wayAt (way source target) 1 L = 0 := by
  have hsource := source.toNat_lt
  have htarget := target.toNat_lt
  have hwhole : saturate (way source target) = way source target := by
    rw [saturate_eq_self_iff]
    unfold way minWide maxWide
    omega
  have hdistance : (way source target).natAbs < L := h
  rw [wayAt, Int.natCast_one, Int.mul_one, hwhole, ← Int.natAbs_eq_zero, Int.natAbs_tdiv,
    Int.natAbs_natCast]
  exact Nat.div_eq_of_lt hdistance

/-- As long as nobody has left, there are more nanoseconds than users. -/
theorem distance_lt_of_wayAt_eq_zero (hL : 0 < L) (hdown : target ≤ source) (hx : 0 < x)
    (h : wayAt (way source target) x L = 0) : distance source target < L := by
  have hway := way_nonpos hdown
  have hsource := source.toNat_lt
  have hless : saturate (way source target * x) ≤ way source target := by
    have hone : way source target * x ≤ way source target * 1 :=
      Int.mul_le_mul_of_nonpos_left hway (by omega)
    refine Int.le_trans (saturate_mono hone) ?_
    unfold saturate way minWide maxWide
    omega
  rw [wayAt, ← Int.natAbs_eq_zero, Int.natAbs_tdiv, Int.natAbs_natCast] at h
  have hlt := (Nat.div_eq_zero_iff.mp h).resolve_left (Nat.ne_of_gt hL)
  have hdistance : distance source target = (way source target).natAbs := rfl
  omega

/-- There are as many users as at the greater end of a stage at its last moment or at its first one,
or never. -/
theorem peaks_iff (hL : 0 < L) (hsource : source ≤ peak) (htarget : target ≤ peak) :
    Peaks source target L peak ↔ ∃ x, 0 < x ∧ x ≤ L ∧
      (source.toNat : Int) + wayAt (way source target) x L = peak.toNat := by
  have hway : way source target = target.toNat - source.toNat := rfl
  constructor
  · rintro (⟨rfl, hwhole⟩ | ⟨rfl, hslow⟩)
    · refine ⟨L, hL, Nat.le_refl L, ?_⟩
      rw [(wayAt_eq_way_iff hL).mpr hwhole, hway]
      omega
    · refine ⟨1, Nat.one_pos, hL, ?_⟩
      rw [wayAt_one hslow, Int.add_zero]
  · rintro ⟨x, hpos, hx, hvalue⟩
    rw [UInt64.le_iff_toNat_le] at hsource htarget
    rcases UInt64.le_total source target with hup | hdown
    · -- upwards there are no more users than the target, so that all of the way has been gone
      have hhigh := wayAt_le hL (way_nonneg hup) hx
      have hgone : wayAt (way source target) x L = way source target := by omega
      exact .inl ⟨UInt64.toNat_inj.mp (by omega), whole_iff.mpr (saturate_of_wayAt_eq hx hgone)⟩
    · -- downwards there are no more users than at the start of the stage, so nobody has left
      have hlow := wayAt_nonpos (x := x) hL (way_nonpos hdown)
      have hnone : wayAt (way source target) x L = 0 := by omega
      exact .inr ⟨UInt64.toNat_inj.mp (by omega),
        distance_lt_of_wayAt_eq_zero hL hdown hpos hnone⟩

end Segment

/-! ### The greatest number of users -/

theorem max_cases (a b : UInt64) : a ≤ b ∧ max a b = b ∨ b ≤ a ∧ max a b = a := by
  change a ≤ b ∧ (if a ≤ b then b else a) = b ∨ b ≤ a ∧ (if a ≤ b then b else a) = a
  split
  case isTrue h => exact .inl ⟨h, rfl⟩
  case isFalse h => exact .inr ⟨(UInt64.le_total a b).resolve_left h, rfl⟩

/-- The greatest of a number of users and some targets is no less than any of them, and one of
them. -/
theorem foldl_target_spec (l : List Stage) (m : UInt64) :
    m ≤ l.foldl (fun m stage => max m stage.target) m ∧
    (∀ stage ∈ l, stage.target ≤ l.foldl (fun m stage => max m stage.target) m) ∧
    (m = l.foldl (fun m stage => max m stage.target) m ∨
      ∃ stage ∈ l, stage.target = l.foldl (fun m stage => max m stage.target) m) := by
  induction l generalizing m with
  | nil => exact ⟨UInt64.le_refl m, by simp, .inl rfl⟩
  | cons st l ih =>
    obtain ⟨hstart, htargets, hattained⟩ := ih (max m st.target)
    rw [List.foldl_cons]
    generalize l.foldl (fun m stage => max m stage.target) (max m st.target) = p at *
    rw [List.forall_mem_cons]
    have hrest : (∃ stage ∈ l, stage.target = p) → ∃ stage ∈ st :: l, stage.target = p :=
      fun ⟨stage, hmem, h⟩ => ⟨stage, List.mem_cons_of_mem st hmem, h⟩
    rcases max_cases m st.target with ⟨hle, hmax⟩ | ⟨hle, hmax⟩
    · rw [hmax] at hstart hattained
      refine ⟨UInt64.le_trans hle hstart, ⟨hstart, htargets⟩, .inr ?_⟩
      exact hattained.elim (fun h => ⟨st, List.mem_cons_self, h⟩) hrest
    · rw [hmax] at hstart hattained
      exact ⟨hstart, ⟨UInt64.le_trans hle hstart, htargets⟩, hattained.imp_right hrest⟩

namespace Schedule

open Stage Segment

variable {s : Schedule} {k : Nat} {stage : Stage} {t : Duration}

theorem target_le_peak (hstage : s.stages[k]? = some stage) : stage.target ≤ s.peak :=
  (foldl_target_spec s.stages s.start).2.1 stage (List.mem_of_getElem? hstage)

/-- No stage starts with more users than there will ever be. -/
theorem usersAfter_le_peak (hstage : s.stages[k]? = some stage) :
    usersAfter s.start s.stages k ≤ s.peak := by
  cases k with
  | zero =>
    rw [usersAfter_zero]
    exact (foldl_target_spec s.stages s.start).1
  | succ k =>
    have hlt := Nat.lt_of_succ_lt (List.getElem?_eq_some_iff.mp hstage).1
    have hbefore : s.stages[k]? = some s.stages[k] := List.getElem?_eq_getElem hlt
    rw [usersAfter_succ hbefore]
    exact target_le_peak hbefore

/-- As many users as there will ever be are asked for at the start or as a target. -/
theorem exists_target_eq_peak (s : Schedule) :
    s.start = s.peak ∨
      ∃ (k : Nat) (stage : Stage), s.stages[k]? = some stage ∧ stage.target = s.peak := by
  refine (foldl_target_spec s.stages s.start).2.2.imp_right ?_
  rintro ⟨stage, hmem, htarget⟩
  obtain ⟨k, hstage⟩ := List.mem_iff_getElem?.mp hmem
  exact ⟨k, stage, hstage, htarget⟩

/-! ### The curve -/

/-- A schedule that asks for a number of users is not over. -/
theorem le_total_of_targetAt {n : UInt64} (h : s.targetAt t = .active n) : t ≤ s.total := by
  have hover : ¬ s.total < t := by
    rw [← targetAt_eq_completed, h]
    exact ScheduleTarget.noConfusion
  exact Nat.le_of_not_lt hover

/-- Within a stage the number of users lies between its ends, and moves from one to the other. -/
theorem between_of_holds (hsum : endOf s.stages s.stages.length ≤ Duration.maxNanos)
    (hstage : s.stages[k]? = some stage) (ht : Holds s.stages k t) :
    ∃ n, s.targetAt t = .active n ∧
      Between (usersAfter s.start s.stages k) stage.target n ∧
      ∀ t', t ≤ t' → Holds s.stages k t' → ∃ n', s.targetAt t' = .active n' ∧
        (usersAfter s.start s.stages k ≤ stage.target → n ≤ n') ∧
        (stage.target ≤ usersAfter s.start s.stages k → n' ≤ n) := by
  obtain ⟨n, hn, hvalue⟩ := targetAt_of_holds hsum hstage ht
  have hpos := duration_pos hstage
  have hpassed : t.nanos - endOf s.stages k ≤ stage.duration.nanos := by
    have hend := ht.2
    rw [endOf_succ hstage] at hend
    omega
  refine ⟨n, hn, ?_, ?_⟩
  · generalize usersAfter s.start s.stages k = source at hvalue
    have hway : way source stage.target = stage.target.toNat - source.toNat := rfl
    have hgone := wayAt_mem_range (way source stage.target) hpos hpassed
    simp only [Between, UInt64.le_iff_toNat_le]
    omega
  · intro t' hle ht'
    obtain ⟨n', hn', hvalue'⟩ := targetAt_of_holds hsum hstage ht'
    rw [Duration.le_def] at hle
    refine ⟨n', hn', fun hup => ?_, fun hdown => ?_⟩
    · have hmono := wayAt_mono hpos (way_nonneg hup) (Nat.sub_le_sub_right hle (endOf s.stages k))
      rw [UInt64.le_iff_toNat_le]
      omega
    · have hanti := wayAt_anti hpos (way_nonpos hdown) (Nat.sub_le_sub_right hle (endOf s.stages k))
      rw [UInt64.le_iff_toNat_le]
      omega

/-- **The curve of a schedule stays between the ends of its stages**, whatever the magnitudes.  If
the stages together are no longer than the longest duration, every moment at which there is a
number of users falls in one stage.  There the number lies between the ends of the stage, so that
it is never greater than the peak, and as time passes it moves from one end towards the other. -/
theorem never_overshoots {start : UInt64} {stages : List Stage}
    (hs : ofStages start stages = .ok s)
    (hsum : endOf stages stages.length ≤ Duration.maxNanos) :
    (∀ t n, s.targetAt t = .active n → ∃! k, k < stages.length ∧ Holds stages k t) ∧
    ∀ k stage t, stages[k]? = some stage → Holds stages k t →
      ∃ n, s.targetAt t = .active n ∧
        Between (usersAfter start stages k) stage.target n ∧ n ≤ s.peak ∧
        ∀ t', t ≤ t' → Holds stages k t' → ∃ n', s.targetAt t' = .active n' ∧
          (usersAfter start stages k ≤ stage.target → n ≤ n') ∧
          (stage.target ≤ usersAfter start stages k → n' ≤ n) := by
  obtain ⟨rfl, rfl⟩ := ofStages_eq_ok hs
  refine ⟨?_, ?_⟩
  · intro t n hn
    have hend := Duration.le_def.mp (le_total_of_targetAt hn)
    rw [nanos_total hsum] at hend
    exact existsUnique_holds s.ne_nil hend
  · intro k stage t hstage ht
    obtain ⟨n, hn, hbetween, hmoves⟩ := between_of_holds hsum hstage ht
    refine ⟨n, hn, hbetween, ?_, hmoves⟩
    rcases hbetween with ⟨-, hle⟩ | ⟨-, hle⟩
    · exact UInt64.le_trans hle (target_le_peak hstage)
    · exact UInt64.le_trans hle (usersAfter_le_peak hstage)

/-- As many users as there can be come within ten thousand million seconds, and leave within as
many. -/
def mountain : List Stage :=
  [⟨Duration.seconds 10000000000, 18446744073709551615⟩, ⟨Duration.seconds 10000000000, 0⟩]

/-- On the way down half of the users are there after half of the time, and some of them are still
there at the end, but never more than before. -/
theorem mountain_is_between : ∃ s, ofStages 0 mountain = .ok s ∧
    endOf mountain mountain.length ≤ Duration.maxNanos ∧
    Holds mountain 1 (Duration.seconds 15000000000) ∧
    Holds mountain 1 (Duration.seconds 20000000000) ∧
    s.targetAt (Duration.seconds 15000000000) = .active 9223372036854775808 ∧
    s.targetAt (Duration.seconds 20000000000) = .active 1432625727662628442 ∧
    Between 18446744073709551615 0 9223372036854775808 ∧ (9223372036854775808 ≤ s.peak) ∧
    (1432625727662628442 : UInt64) ≤ 9223372036854775808 := by
  obtain ⟨s, hs⟩ : ∃ s, ofStages 0 mountain = .ok s := ⟨_, rfl⟩
  have hsum : endOf mountain mountain.length ≤ Duration.maxNanos := by decide
  have hhalf : Holds mountain 1 (Duration.seconds 15000000000) := by decide
  have hend : Holds mountain 1 (Duration.seconds 20000000000) := by decide
  have hvalues : s.targetAt (Duration.seconds 15000000000) = .active 9223372036854775808 ∧
      s.targetAt (Duration.seconds 20000000000) = .active 1432625727662628442 := by
    cases hs
    decide +kernel
  obtain ⟨hasked, hlast⟩ := hvalues
  obtain ⟨-, hbetween⟩ := never_overshoots hs hsum
  obtain ⟨n, hn, hends, hpeak, hmoves⟩ := hbetween 1 _ _ rfl hhalf
  obtain ⟨n', hn', -, hdown⟩ := hmoves _ (by decide) hend
  cases hasked.symm.trans hn
  cases hlast.symm.trans hn'
  exact ⟨s, hs, hsum, hhalf, hend, hasked, hlast, hends, hpeak, hdown (by decide)⟩

/-! ### Targets and the peak -/

/-- A stage reaches its target exactly if its way over its whole length is in range. -/
theorem exists_targetAt_end (hsum : endOf s.stages s.stages.length ≤ Duration.maxNanos)
    (hstage : s.stages[k]? = some stage) (ht : t.nanos = endOf s.stages (k + 1)) :
    ∃ n, s.targetAt t = .active n ∧ (n = stage.target ↔
      Whole (usersAfter s.start s.stages k) stage.target stage.duration.nanos) := by
  have hpos := duration_pos hstage
  have hsucc := endOf_succ hstage
  obtain ⟨n, hn, hvalue⟩ := targetAt_of_holds hsum hstage (t := t) ⟨.inr (by omega), by omega⟩
  refine ⟨n, hn, ?_⟩
  have hpassed : t.nanos - endOf s.stages k = stage.duration.nanos := by omega
  have hway : way (usersAfter s.start s.stages k) stage.target =
      stage.target.toNat - (usersAfter s.start s.stages k).toNat := rfl
  rw [← wayAt_eq_way_iff hpos, ← UInt64.toNat_inj]
  rw [hpassed] at hvalue
  omega

/-- The peak is attained exactly if there are as many users at the start, or in one of the
stages. -/
theorem exists_targetAt_peak_iff
    (hsum : endOf s.stages s.stages.length ≤ Duration.maxNanos) :
    (∃ t, s.targetAt t = .active s.peak) ↔ s.start = s.peak ∨
      ∃ k stage, s.stages[k]? = some stage ∧
        Peaks (usersAfter s.start s.stages k) stage.target stage.duration.nanos s.peak := by
  constructor
  · rintro ⟨t, ht⟩
    by_cases hzero : t.isZero = true
    · rw [targetAt, if_pos hzero] at ht
      exact .inl (ScheduleTarget.active.inj ht)
    have hend := Duration.le_def.mp (le_total_of_targetAt ht)
    rw [nanos_total hsum] at hend
    have hpos : 0 < t.nanos := Nat.pos_of_ne_zero fun h => hzero (by rw [Duration.isZero, h]; rfl)
    obtain ⟨k, ⟨hlt, hcovers⟩, -⟩ := existsUnique_covers hpos hend
    obtain ⟨stage, hstage⟩ : ∃ stage, s.stages[k]? = some stage :=
      ⟨_, List.getElem?_eq_getElem hlt⟩
    obtain ⟨n, hn, hvalue⟩ := targetAt_of_holds hsum hstage hcovers.holds
    cases ht.symm.trans hn
    obtain ⟨hbegun, hwithin⟩ := hcovers
    rw [endOf_succ hstage] at hwithin
    refine .inr ⟨k, stage, hstage, ?_⟩
    rw [peaks_iff (duration_pos hstage) (usersAfter_le_peak hstage) (target_le_peak hstage)]
    exact ⟨t.nanos - endOf s.stages k, by omega, by omega, hvalue.symm⟩
  · rintro (hstart | ⟨k, stage, hstage, hpeaks⟩)
    · exact ⟨Duration.zero, hstart ▸ if_pos rfl⟩
    · rw [peaks_iff (duration_pos hstage) (usersAfter_le_peak hstage) (target_le_peak hstage)]
        at hpeaks
      obtain ⟨x, hpos, hx, hpeak⟩ := hpeaks
      have hmoment : (Duration.clamp (endOf s.stages k + x)).nanos = endOf s.stages k + x := by
        have hend := nanos_clamp_endOf hsum hstage
        rw [Duration.nanos_clamp] at hend ⊢
        rw [endOf_succ hstage] at hend
        omega
      have hholds : Holds s.stages k (Duration.clamp (endOf s.stages k + x)) := by
        refine ⟨.inr (by omega), ?_⟩
        rw [endOf_succ hstage]
        omega
      obtain ⟨n, hn, hvalue⟩ := targetAt_of_holds hsum hstage hholds
      rw [hmoment, Nat.add_sub_cancel_left, hpeak] at hvalue
      exact ⟨_, hn.trans (congrArg _ (UInt64.toNat_inj.mp (Int.ofNat_inj.mp hvalue)))⟩

/-- **Which stages reach their target.**  If the stages together are no longer than the longest
duration, there is a number of users at the end of every stage.  It is the target of the stage
exactly if the way of the stage, multiplied by its length in nanoseconds, is in the range of 128
bits.  The peak is attained exactly if there are as many users at the start, or one of the stages
that aim at it reaches it, or a stage starts from it that has more nanoseconds than users to take
away.  If every stage is in range, one of these is so. -/
theorem reaches_target_iff_whole {start : UInt64} {stages : List Stage}
    (hs : ofStages start stages = .ok s)
    (hsum : endOf stages stages.length ≤ Duration.maxNanos) :
    (∀ k stage t, stages[k]? = some stage → t.nanos = endOf stages (k + 1) →
      ∃ n, s.targetAt t = .active n ∧ (n = stage.target ↔
        Whole (usersAfter start stages k) stage.target stage.duration.nanos)) ∧
    ((∃ t, s.targetAt t = .active s.peak) ↔ start = s.peak ∨
      ∃ k stage, stages[k]? = some stage ∧
        Peaks (usersAfter start stages k) stage.target stage.duration.nanos s.peak) ∧
    ((∀ k stage, stages[k]? = some stage →
        Whole (usersAfter start stages k) stage.target stage.duration.nanos) →
      ∃ t, s.targetAt t = .active s.peak) := by
  obtain ⟨rfl, rfl⟩ := ofStages_eq_ok hs
  refine ⟨?_, exists_targetAt_peak_iff hsum, fun hwhole => ?_⟩
  · intro k stage t hstage ht
    exact exists_targetAt_end hsum hstage ht
  · rw [exists_targetAt_peak_iff hsum]
    refine s.exists_target_eq_peak.imp_right ?_
    rintro ⟨k, stage, hstage, htarget⟩
    exact ⟨k, stage, hstage, .inl ⟨htarget, hwhole k stage hstage⟩⟩

/-- As many users as there can be come within as many whole seconds as there are in `2 ^ 63`
nanoseconds. -/
def fullRamp : List Stage := [⟨Duration.seconds 9223372036, 18446744073709551615⟩]

/-- All of them are there at the end. -/
theorem fullRamp_reaches_target : ∃ s, ofStages 0 fullRamp = .ok s ∧
    endOf fullRamp fullRamp.length ≤ Duration.maxNanos ∧
    s.targetAt (Duration.seconds 9223372036) = .active 18446744073709551615 ∧
    ∃ t, s.targetAt t = .active s.peak := by
  obtain ⟨s, hs⟩ : ∃ s, ofStages 0 fullRamp = .ok s := ⟨_, rfl⟩
  have hsum : endOf fullRamp fullRamp.length ≤ Duration.maxNanos := by decide
  have hwhole : Whole (usersAfter 0 fullRamp 0) 18446744073709551615
      (Duration.seconds 9223372036).nanos := by decide
  obtain ⟨hends, -, hpeak⟩ := reaches_target_iff_whole hs hsum
  obtain ⟨n, hn, hreach⟩ := hends 0 _ (Duration.seconds 9223372036) rfl (by decide)
  refine ⟨s, hs, hsum, hn.trans (congrArg _ (hreach.mpr hwhole)), hpeak fun k stage hstage => ?_⟩
  match k, hstage with
  | 0, hstage => cases hstage; exact hwhole
  | k + 1, hstage => cases hstage

/-- As many users as there can be come within ten thousand million seconds. -/
def longRamp : List Stage := [⟨Duration.seconds 10000000000, 18446744073709551615⟩]

/-- **A stage that does not reach its target**: when its ten thousand million seconds are over,
more than a million million million users are missing, and the peak is never attained. -/
theorem longRamp_falls_short : ∃ s, ofStages 0 longRamp = .ok s ∧
    endOf longRamp longRamp.length ≤ Duration.maxNanos ∧
    s.total = Duration.seconds 10000000000 ∧
    s.targetAt (Duration.seconds 10000000000) = .active 17014118346046923173 ∧
    s.peak = 18446744073709551615 ∧ ∀ t, s.targetAt t ≠ .active s.peak := by
  obtain ⟨s, hs⟩ : ∃ s, ofStages 0 longRamp = .ok s := ⟨_, rfl⟩
  obtain ⟨hstart, hstages⟩ := ofStages_eq_ok hs
  have hsum : endOf longRamp longRamp.length ≤ Duration.maxNanos := by decide
  have hvalues : s.total = Duration.seconds 10000000000 ∧
      s.targetAt (Duration.seconds 10000000000) = .active 17014118346046923173 ∧
      s.peak = 18446744073709551615 := by
    cases hs
    decide +kernel
  obtain ⟨htotal, hend, hpeak⟩ := hvalues
  refine ⟨s, hs, hsum, htotal, hend, hpeak, fun t ht => ?_⟩
  have hattained := (exists_targetAt_peak_iff (by rw [hstages]; exact hsum)).mp ⟨t, ht⟩
  rw [hstages, hstart, hpeak] at hattained
  rcases hattained with hfirst | ⟨k, stage, hstage, hreached⟩
  · cases hfirst
  · match k, hstage with
    | 0, hstage =>
      cases hstage
      revert hreached
      decide
    | k + 1, hstage => cases hstage

end Schedule

end StagedLoad
