import StagedLoad.Proofs.Schedule.Curve

/-!
# Where in its stages a schedule is

At every moment a schedule can tell which stage it is in, how long that stage has lasted and how
long it will last.  This is computed apart from the number of users that it asks for, from the
moment cut to the end of the schedule, so that there is an answer past the end as well.

## Main definitions

* `Stage.Locates` — a snapshot tells the stage of a moment, and the place in it.

## Main results

* `Schedule.users?_targetAt_min` — the number of users that is shown.
* `Schedule.exists_locates` — the stage and the place in it.
* `Schedule.snapshots_follow_curve` — **what is shown is what is asked for**.
-/

namespace StagedLoad

namespace Stage

/-- A snapshot tells the stage that a moment falls in, and the place in it. -/
structure Locates (start : UInt64) (stages : List Stage) (t : Duration) (stage : Stage)
    (snap : StageSnapshot) : Prop where
  /-- It tells the number of stages. -/
  count : snap.count = stages.length
  /-- It tells which one is the current one. -/
  found : stages[snap.index]? = some stage
  /-- The moment falls in this one. -/
  holds : Holds stages snap.index t
  /-- It tells the number of users at the start of the stage. -/
  source : snap.source = usersAfter start stages snap.index
  /-- It tells the target of the stage. -/
  target : snap.target = stage.target
  /-- It tells how long the stage has lasted. -/
  elapsed : endOf stages snap.index + snap.elapsed.nanos = t.nanos
  /-- It tells how long the stage will last. -/
  remaining : snap.elapsed.nanos + snap.remaining.nanos = stage.duration.nanos

end Stage

namespace Schedule

open Stage

variable {s : Schedule} {stage : Stage} {k : Nat} {t : Duration}

/-- What is shown is what is asked for: both are read off one segment. -/
theorem users?_targetAt_min (s : Schedule) (t : Duration) :
    (s.targetAt (Duration.min t s.total)).users? = some (s.snapshotAt t).current := by
  unfold snapshotAt
  generalize hmin : Duration.min t s.total = m
  have hgoing : s.isDone m = false := by
    rw [isDone, decide_eq_false_iff_not, Duration.lt_def, ← hmin, Duration.nanos_min]
    exact Nat.not_lt.mpr (Nat.min_le_right _ _)
  rw [targetAt, hgoing]
  dsimp only
  split
  · rfl
  · rfl

/-- Past the end of a schedule the snapshot stays as it is at the end. -/
theorem snapshotAt_of_total_le (h : s.total ≤ t) : s.snapshotAt t = s.snapshotAt s.total := by
  have hmin : Duration.min t s.total = Duration.min s.total s.total := by
    apply Duration.ext
    rw [Duration.nanos_min, Duration.nanos_min]
    exact (Nat.min_eq_right (Duration.le_def.mp h)).trans (Nat.min_self _).symm
  unfold snapshotAt
  rw [hmin]

/-- Up to the end of a schedule a snapshot tells the stage, and the place in it. -/
theorem exists_locates (hsum : endOf s.stages s.stages.length ≤ Duration.maxNanos)
    (t : Duration) :
    ∃ stage, Locates s.start s.stages (Duration.min t s.total) stage (s.snapshotAt t) := by
  unfold snapshotAt
  generalize hmin : Duration.min t s.total = m
  have hle : m.nanos ≤ endOf s.stages s.stages.length := by
    rw [← nanos_total hsum, ← hmin, Duration.nanos_min]
    exact Nat.min_le_right _ _
  obtain ⟨k, ⟨hlt, hholds⟩, -⟩ := existsUnique_holds s.ne_nil hle
  obtain ⟨stage, hstage⟩ : ∃ stage, s.stages[k]? = some stage := ⟨_, List.getElem?_eq_getElem hlt⟩
  -- the number of the stage is the one that the segment has
  obtain ⟨rfl, hopening, hduration, hsource, htarget⟩ := laidOut_segmentAt hsum hstage hholds
  have hbegun := hholds.begun
  have hend := hholds.2
  rw [endOf_succ hstage] at hend
  refine ⟨stage, rfl, hstage, hholds, hsource, htarget, ?_, ?_⟩
  · simp only [Duration.nanos_sub, hopening]
    omega
  · simp only [Duration.nanos_sub, hopening, hduration]
    omega

/-- **What is shown is what is asked for.**  Let the stages of a schedule together be no longer
than the longest duration.  At every moment the snapshot shows the number of users that the
schedule asks for, or past the end the one that it asks for at the end.  It tells which stage
the moment falls in, between which numbers of users that goes, and how long it has lasted and
will last. -/
theorem snapshots_follow_curve {start : UInt64} {stages : List Stage}
    (hs : ofStages start stages = .ok s)
    (hsum : endOf stages stages.length ≤ Duration.maxNanos) (t : Duration) :
    (s.targetAt (Duration.min t s.total)).users? = some (s.snapshotAt t).current ∧
    (∃ stage, Locates start stages (Duration.min t s.total) stage (s.snapshotAt t)) ∧
    (s.total ≤ t → s.snapshotAt t = s.snapshotAt s.total) := by
  obtain ⟨rfl, rfl⟩ := ofStages_eq_ok hs
  exact ⟨users?_targetAt_min s t, exists_locates hsum t, snapshotAt_of_total_le⟩

/-- When twenty users have stayed for a minute, the snapshot is at the end of their stay and not
yet at the start of their leaving.  Long after the end the last of them has left just now. -/
theorem upAndDown_is_shown : ∃ s, ofStages 0 upAndDown = .ok s ∧
    endOf upAndDown upAndDown.length ≤ Duration.maxNanos ∧
    s.snapshotAt (Duration.seconds 90) =
      ⟨1, 3, Duration.seconds 60, Duration.zero, 20, 20, 20⟩ ∧
    (s.targetAt (Duration.min (Duration.seconds 90) s.total)).users? = some 20 ∧
    (∃ stage, Locates 0 upAndDown (Duration.min (Duration.seconds 90) s.total) stage
      (s.snapshotAt (Duration.seconds 90))) ∧
    s.snapshotAt (Duration.seconds 500) = s.snapshotAt s.total ∧
    s.snapshotAt (Duration.seconds 500) =
      ⟨2, 3, Duration.seconds 30, Duration.zero, 20, 0, 0⟩ := by
  obtain ⟨s, hs⟩ : ∃ s, ofStages 0 upAndDown = .ok s := ⟨_, rfl⟩
  have hsum : endOf upAndDown upAndDown.length ≤ Duration.maxNanos := by decide
  obtain ⟨hasked, hlocates, -⟩ := snapshots_follow_curve hs hsum (Duration.seconds 90)
  obtain ⟨-, -, hpast⟩ := snapshots_follow_curve hs hsum (Duration.seconds 500)
  have hvalues : s.snapshotAt (Duration.seconds 90) =
        ⟨1, 3, Duration.seconds 60, Duration.zero, 20, 20, 20⟩ ∧
      s.snapshotAt (Duration.seconds 500) =
        ⟨2, 3, Duration.seconds 30, Duration.zero, 20, 0, 0⟩ ∧
      s.total ≤ Duration.seconds 500 := by
    cases hs
    decide +kernel
  obtain ⟨hstay, hover, hend⟩ := hvalues
  rw [hstay] at hasked
  exact ⟨s, hs, hsum, hstay, hasked, hlocates, hpast hend, hover⟩

end Schedule

end StagedLoad
