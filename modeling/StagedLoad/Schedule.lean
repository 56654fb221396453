import StagedLoad.Duration.Basic

/-!
# Schedules

A schedule ramps the number of virtual users from target to target.  Each stage
takes its time to go in a straight line from where the stage before it ended to its
own target.  The number at a moment is the point on the line cut to a whole number
towards where the stage started, in nanoseconds and 128-bit integers that saturate.

## Main definitions

* `Stage`, `Schedule` — the stages, of which there is at least one and none is empty.
* `Segment`, `Schedule.segments` — the stages laid out in time.
* `Segment.valueAt` — the point on the line.
* `Schedule.targetAt` — how many users there should be at a moment.
* `Schedule.snapshotAt` — where in its stages a schedule is.
* `Schedule.maxStepPer` — how far the target can move within a while.
-/

namespace StagedLoad

/-- A ramp to a target. -/
structure Stage where
  /-- How long the ramp takes. -/
  duration : Duration
  /-- How many users there are at its end. -/
  target : UInt64
  deriving DecidableEq, Repr, Inhabited

/-- Stages one after the other. -/
structure Schedule where
  /-- How many users there are at the start. -/
  start : UInt64
  /-- The stages. -/
  stages : List Stage
  /-- There is at least one. -/
  ne_nil : stages ≠ []
  /-- None of them is empty. -/
  pos : ∀ s ∈ stages, s.duration.isZero = false

/-- A stage laid out in time. -/
structure Segment where
  /-- How many stages come before. -/
  index : Nat
  /-- When the stage starts. -/
  opening : Duration
  /-- When it ends. -/
  ending : Duration
  /-- How many users there are at its start. -/
  source : UInt64
  /-- How many users there are at its end. -/
  target : UInt64
  deriving DecidableEq, Repr, Inhabited

namespace Segment

/-- How long a stage takes. -/
def duration (s : Segment) : Duration := s.ending - s.opening

/-- The greatest 128-bit integer. -/
def maxWide : Int := 170141183460469231731687303715884105727

/-- The greatest 128-bit natural. -/
def maxUnsigned : Nat := 340282366920938463463374607431768211455

/-- The least 128-bit integer. -/
def minWide : Int := -170141183460469231731687303715884105728

/-- An integer cut to 128 bits. -/
def saturate (n : Int) : Int := max minWide (min maxWide n)

/-- By how many users a stage changes their number. -/
def delta (s : Segment) : Int := (s.target.toNat : Int) - s.source.toNat

/-- How many nanoseconds of a stage have passed at a moment. -/
def progress (s : Segment) (t : Duration) : Nat := min (t - s.opening).nanos s.duration.nanos

/-- The point on the line before it is cut to the range of 64 bits. -/
def rawValueAt (s : Segment) (t : Duration) : Int :=
  s.source.toNat + (saturate (s.delta * s.progress t)).tdiv s.duration.nanos

/-- How many users there should be at a moment of a stage. -/
def valueAt (s : Segment) (t : Duration) : UInt64 :=
  if s.duration.isZero then s.target
  else UInt64.ofNat (min (s.rawValueAt t).toNat Binary64.maxWord)

/-- Lays stages out in time, from a moment and a number of users on. -/
def layOut (index : Nat) (opening : Duration) (source : UInt64) : List Stage → List Segment
  | [] => []
  | s :: rest =>
    { index, opening, ending := opening + s.duration, source, target := s.target } ::
      layOut (index + 1) (opening + s.duration) s.target rest

/-- The first of some segments that ends at a moment or later; of several that end at the
moment the last. -/
def locate (t : Duration) : Segment → List Segment → Segment
  | s, [] => s
  | s, next :: rest =>
    if s.ending < t ∨ (s.ending = t ∧ next.ending = t) then locate t next rest else s

end Segment

/-- What a schedule asks for at a moment. -/
inductive ScheduleTarget
  /-- A number of users. -/
  | active (users : UInt64)
  /-- The last stage is over. -/
  | completed
  deriving DecidableEq, Repr

/-- The number of users, unless the last stage is over. -/
def ScheduleTarget.users? : ScheduleTarget → Option UInt64
  | active n => some n
  | completed => none

/-- Where in its stages a schedule is. -/
structure StageSnapshot where
  /-- How many stages come before the current one. -/
  index : Nat
  /-- How many stages there are. -/
  count : Nat
  /-- How long the current stage has lasted. -/
  elapsed : Duration
  /-- How long it will last. -/
  remaining : Duration
  /-- How many users there are at its start. -/
  source : UInt64
  /-- How many users there are at its end. -/
  target : UInt64
  /-- How many users there should be now. -/
  current : UInt64
  deriving DecidableEq, Repr, Inhabited

namespace Schedule

/-- Why some stages are no schedule. -/
inductive Fault
  /-- There are none. -/
  | noStages
  /-- The stage with the given number of stages before it is empty. -/
  | emptyStage (index : Nat)
  deriving DecidableEq, Repr

/-- The wording of a fault. -/
def Fault.message : Fault → String
  | noStages => "`stages` must be a non-empty array of \x7b duration, target \x7d"
  | emptyStage index => "stage " ++ index.repr ++ " must have a positive duration"

/-- The number of stages before the first empty one. -/
def firstEmpty? (stages : List Stage) : Option Nat := stages.findIdx? fun s => s.duration.isZero

/-- A schedule of some stages. -/
def ofStages (start : UInt64) (stages : List Stage) : Except Fault Schedule :=
  if hn : stages = [] then .error .noStages
  else match he : firstEmpty? stages with
    | some i => .error (.emptyStage i)
    | none => .ok ⟨start, stages, hn, fun s hs => List.findIdx?_eq_none_iff.mp he s hs⟩

variable (s : Schedule)

/-- The stages laid out in time. -/
def segments : List Segment := Segment.layOut 0 Duration.zero s.start s.stages

/-- When the last stage ends. -/
def total : Duration := (s.segments.getLast?.map Segment.ending).getD Duration.zero

/-- The greatest number of users there will be. -/
def peak : UInt64 := s.stages.foldl (fun m st => max m st.target) s.start

/-- Whether the last stage is over. -/
def isDone (t : Duration) : Bool := s.total < t

/-- The segment that a moment lies in. -/
def segmentAt (t : Duration) : Segment :=
  match s.segments with
  | [] => default
  | first :: rest => Segment.locate t first rest

/-- How many users there should be at a moment. -/
def targetAt (t : Duration) : ScheduleTarget :=
  if t.isZero then .active s.start
  else if s.isDone t then .completed
  else .active ((s.segmentAt t).valueAt t)

/-- Where in its stages a schedule is; past the end it stays at the end. -/
def snapshotAt (t : Duration) : StageSnapshot :=
  let t := Duration.min t s.total
  let seg := s.segmentAt t
  let elapsed := t - seg.opening
  { index := seg.index
    count := s.stages.length
    elapsed
    remaining := seg.duration - elapsed
    source := seg.source
    target := seg.target
    current := if t.isZero then s.start else seg.valueAt t }

/-- How far the target of one segment can move within a while. -/
def stepOf (poll : Duration) (seg : Segment) : Nat :=
  let distance := seg.delta.natAbs
  let length := max seg.duration.nanos 1
  min ((min (distance * poll.nanos) Segment.maxUnsigned + (length - 1)) / length) distance

/-- How far the target can move within a while, segment by segment. -/
def maxStepPer (poll : Duration) : Nat := (s.segments.map (stepOf poll)).foldl max 0

end Schedule

end StagedLoad
