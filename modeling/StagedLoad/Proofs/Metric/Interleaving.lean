import StagedLoad.Proofs.Metric.Recorder

/-!
# Writers and readers at the same time

Neither a record nor a snapshot is one action.  A record first counts its sample, then counts it
as failed if it has failed, and then puts it into its lane.  A snapshot first lists the lanes,
and then copies them one after another.  Between any two of these actions there can be actions
of others: records into the same lane or into another one, new shards, further snapshots.

## Main definitions

* `Recorder.Event`, `Recorder.Shared` — an action, and a recorder with what is in progress.
* `Shared.step?`, `Shared.run?` — what one event does, and what a list of events does.
* `recordedInto` — the samples that were put into a lane, in their order.
* `Reading.Shows` — a snapshot shows, of each lane, what was there when it began, and nothing
  that came after it.

## Main results

* `run?_record`, `run?_recordShared`, `run?_snapshot` — without others in between, the actions
  are those of the recorder.
* `snapshots_between_writers` — nothing is lost, doubled or out of order, whatever is done in
  between.
-/

namespace StagedLoad.Recorder

/-! ### What is in progress -/

/-- A record in progress: its sample has been counted, and is not in its lane yet. -/
structure Entry where
  /-- The lane into which the sample goes. -/
  lane : Nat
  /-- The sample. -/
  sample : Sample
  /-- Whether the sample has failed and is still to be counted as failed. -/
  uncounted : Bool
  deriving DecidableEq

/-- A snapshot in progress. -/
structure Reading where
  /-- How many lanes were listed when it began. -/
  lanes : Nat
  /-- The copies of the lanes that have been copied, in their order. -/
  copies : List (List Sample)

namespace Reading

/-- All lanes have been copied. -/
def Complete (g : Reading) : Prop := g.copies.length = g.lanes

/-- The samples that have been copied. -/
def samples (g : Reading) : List Sample := g.copies.flatten

/-- The copy of a lane; empty if it has not been copied. -/
def part (g : Reading) (k : Nat) : List Sample := g.copies[k]?.getD []

/-- Copies the next lane, which has the given samples. -/
def copy (g : Reading) (l : List Sample) : Reading := { g with copies := g.copies ++ [l] }

end Reading

/-- A recorder to which several have access. -/
structure Shared where
  /-- The recorder. -/
  recorder : Recorder := .empty
  /-- The records in progress. -/
  entries : List Entry := []
  /-- The snapshots that have begun, in their order. -/
  readings : List Reading := []

/-- What someone does to a recorder while nobody else does anything. -/
inductive Event
  /-- A shard is opened. -/
  | openShard
  /-- A record begins: a sample for the lane is counted. -/
  | count (lane : Nat) (s : Sample)
  /-- The sample of a record in progress is counted as failed. -/
  | countFailure (lane : Nat) (s : Sample)
  /-- A record ends: its sample is put into its lane. -/
  | push (lane : Nat) (s : Sample)
  /-- A snapshot begins: the lanes are listed. -/
  | begin
  /-- A snapshot copies its next lane. -/
  | copy (reading : Nat)
  deriving DecidableEq

/-- One sample more. -/
def countOne (r : Recorder) : Recorder := { r with recorded := r.recorded + 1 }

/-- One failed sample more. -/
def countFailed (r : Recorder) : Recorder := { r with failed := r.failed + 1 }

@[simp] theorem lanes_countOne (r : Recorder) : r.countOne.lanes = r.lanes := rfl
@[simp] theorem lanes_countFailed (r : Recorder) : r.countFailed.lanes = r.lanes := rfl
@[simp] theorem lane_countOne (r : Recorder) (k : Nat) : r.countOne.lane k = r.lane k := by
  cases k <;> rfl
@[simp] theorem lane_countFailed (r : Recorder) (k : Nat) : r.countFailed.lane k = r.lane k := by
  cases k <;> rfl
@[simp] theorem recorded_countOne (r : Recorder) : r.countOne.recorded = r.recorded + 1 := rfl
@[simp] theorem recorded_countFailed (r : Recorder) : r.countFailed.recorded = r.recorded := rfl
@[simp] theorem failed_countOne (r : Recorder) : r.countOne.failed = r.failed := rfl
@[simp] theorem failed_countFailed (r : Recorder) : r.countFailed.failed = r.failed + 1 := rfl
@[simp] theorem snapshot_countOne (r : Recorder) : r.countOne.snapshot = r.snapshot := rfl
@[simp] theorem snapshot_countFailed (r : Recorder) : r.countFailed.snapshot = r.snapshot := rfl

/-- A sample is counted, and counted as failed if it has failed. -/
theorem observe_eq_countOne (r : Recorder) (s : Sample) :
    r.observe s = if s.success then r.countOne else r.countOne.countFailed := by
  unfold observe
  cases s.success <;> rfl

namespace Shared

variable {t t' : Shared} {e : Event} {k i : Nat} {s : Sample}

/-- What an event does; none if it cannot happen. -/
def step? (t : Shared) : Event → Option Shared
  | .openShard => some { t with recorder := t.recorder.openShard }
  | .count k s =>
    if k < t.recorder.lanes then
      some { t with recorder := t.recorder.countOne, entries := ⟨k, s, !s.success⟩ :: t.entries }
    else none
  | .countFailure k s =>
    if ⟨k, s, true⟩ ∈ t.entries then
      some { t with
        recorder := t.recorder.countFailed
        entries := ⟨k, s, false⟩ :: t.entries.erase ⟨k, s, true⟩ }
    else none
  | .push k s =>
    if ⟨k, s, false⟩ ∈ t.entries then
      some { t with recorder := t.recorder.push k s, entries := t.entries.erase ⟨k, s, false⟩ }
    else none
  | .begin => some { t with readings := t.readings ++ [⟨t.recorder.lanes, []⟩] }
  | .copy i =>
    t.readings[i]?.bind fun g =>
      if g.copies.length < g.lanes then
        some { t with readings := t.readings.set i (g.copy (t.recorder.lane g.copies.length)) }
      else none

/-- What a list of events does; none if one of them cannot happen. -/
def run? (t : Shared) : List Event → Option Shared
  | [] => some t
  | e :: rest => (t.step? e).bind fun t' => t'.run? rest

@[simp] theorem run?_nil (t : Shared) : t.run? [] = some t := rfl

theorem run?_cons (t : Shared) (e : Event) (rest : List Event) :
    t.run? (e :: rest) = (t.step? e).bind fun t' => t'.run? rest := rfl

theorem step?_count_eq_some : t.step? (.count k s) = some t' ↔ k < t.recorder.lanes ∧
    t' = { t with
      recorder := t.recorder.countOne, entries := ⟨k, s, !s.success⟩ :: t.entries } := by
  simp [step?, eq_comm]

theorem step?_countFailure_eq_some :
    t.step? (.countFailure k s) = some t' ↔ ⟨k, s, true⟩ ∈ t.entries ∧
    t' = { t with
      recorder := t.recorder.countFailed
      entries := ⟨k, s, false⟩ :: t.entries.erase ⟨k, s, true⟩ } := by
  simp [step?, eq_comm]

theorem step?_push_eq_some : t.step? (.push k s) = some t' ↔ ⟨k, s, false⟩ ∈ t.entries ∧
    t' = { t with
      recorder := t.recorder.push k s, entries := t.entries.erase ⟨k, s, false⟩ } := by
  simp [step?, eq_comm]

theorem step?_copy_eq_some : t.step? (.copy i) = some t' ↔
    ∃ g, t.readings[i]? = some g ∧ g.copies.length < g.lanes ∧ t' = { t with
      readings := t.readings.set i (g.copy (t.recorder.lane g.copies.length)) } := by
  rw [step?, Option.bind_eq_some_iff]
  simp [eq_comm]

/-! ### Without others -/

/-- A record of which nothing comes in between. -/
def recordEvents (k : Nat) (s : Sample) : List Event :=
  if s.success then [.count k s, .push k s] else [.count k s, .countFailure k s, .push k s]

/-- Undisturbed, a record counts its sample and puts it into its lane. -/
theorem run?_recordEvents (t : Shared) (s : Sample) (h : k < t.recorder.lanes) :
    t.run? (recordEvents k s) =
      some { t with recorder := (t.recorder.observe s).push k s } := by
  unfold recordEvents
  by_cases hsuccess : s.success
  · simp [hsuccess, run?, step?, h, observe_eq_countOne]
  · simp [hsuccess, run?, step?, h, observe_eq_countOne]

/-- Undisturbed, a record is that of the recorder. -/
theorem run?_record (t : Shared) (s : Sample) (h : k < t.recorder.shards.size) :
    t.run? (recordEvents (k + 1) s) = some { t with recorder := t.recorder.record k s } := by
  rw [record_eq_push]
  exact run?_recordEvents t s (Nat.succ_lt_succ h)

theorem run?_recordShared (t : Shared) (s : Sample) :
    t.run? (recordEvents 0 s) = some { t with recorder := t.recorder.recordShared s } := by
  rw [recordShared_eq_push]
  exact run?_recordEvents t s (Nat.succ_pos _)

/-- Undisturbed, a snapshot that has copied some lanes copies the others. -/
theorem run?_copies (t : Shared) {g : Reading} (m : Nat) (hg : t.readings[i]? = some g)
    (hm : g.copies.length + m = g.lanes) :
    t.run? (List.replicate m (.copy i)) = some { t with
      readings := t.readings.set i { g with
        copies := g.copies ++ (List.range' g.copies.length m).map t.recorder.lane } } := by
  induction m generalizing t g with
  | zero =>
    have hsame : t.readings.set i g = t.readings := by
      obtain ⟨hi, rfl⟩ := List.getElem?_eq_some_iff.1 hg
      exact List.set_getElem_self hi
    simp [hsame]
  | succ m ih =>
    have hcopy : t.step? (.copy i) = some { t with
        readings := t.readings.set i (g.copy (t.recorder.lane g.copies.length)) } :=
      step?_copy_eq_some.2 ⟨g, hg, by omega, rfl⟩
    obtain ⟨hi, -⟩ := List.getElem?_eq_some_iff.1 hg
    have hnext : (g.copy (t.recorder.lane g.copies.length)).copies.length =
        g.copies.length + 1 := by
      simp [Reading.copy]
    rw [List.replicate_succ, run?_cons, hcopy, Option.bind_some,
      ih _ (List.getElem?_set_self hi) (by rw [hnext, Nat.add_right_comm]; exact hm), hnext]
    simp [Reading.copy, List.set_set, List.range'_succ]

/-- Undisturbed, a snapshot is that of the recorder. -/
theorem run?_snapshot (t : Shared) :
    ∃ g : Reading, g.Complete ∧ g.samples = t.recorder.snapshot ∧
      t.run? (.begin :: List.replicate t.recorder.lanes (.copy t.readings.length)) =
        some { t with readings := t.readings ++ [g] } := by
  refine ⟨⟨t.recorder.lanes, (List.range t.recorder.lanes).map t.recorder.lane⟩, ?_, ?_, ?_⟩
  · simp [Reading.Complete]
  · rw [snapshot_eq_flatMap_lane, Reading.samples, List.flatMap_def]
  · rw [run?_cons, step?, Option.bind_some,
      run?_copies _ t.recorder.lanes List.getElem?_concat_length (by simp)]
    simp [List.range_eq_range']

end Shared

/-! ### What a list of events has recorded -/

/-- The sample that an event puts into a lane, if any. -/
def Event.pushed? (k : Nat) : Event → Option Sample
  | .push j s => if j = k then some s else none
  | _ => none

/-- The samples that were put into a lane, in their order. -/
def recordedInto (k : Nat) (events : List Event) : List Sample := events.filterMap (·.pushed? k)

@[simp] theorem recordedInto_nil (k : Nat) : recordedInto k [] = [] := rfl

theorem recordedInto_append (k : Nat) (first rest : List Event) :
    recordedInto k (first ++ rest) = recordedInto k first ++ recordedInto k rest :=
  List.filterMap_append

theorem isPrefix_recordedInto (k : Nat) (first rest : List Event) :
    recordedInto k first <+: recordedInto k (first ++ rest) := by
  rw [recordedInto_append]
  exact List.prefix_append _ _

namespace Shared

variable {t t' : Shared} {e : Event} {events : List Event}

/-- What holds of a recorder after a list of events. -/
structure Kept (events : List Event) (t : Shared) : Prop where
  /-- Each lane has what was put into it, in that order. -/
  lane_eq : ∀ k, t.recorder.lane k = recordedInto k events
  /-- The records in progress have lanes of the recorder. -/
  entered : ∀ entry ∈ t.entries, entry.lane < t.recorder.lanes
  /-- Every sample has been counted that is in a lane or about to be put into one. -/
  recorded_eq : t.recorder.recorded = t.recorder.snapshot.length + t.entries.length
  /-- So has every failed one as a failed one, except where that is still to be done. -/
  failed_eq : t.recorder.failed + t.entries.countP (·.uncounted) =
    t.recorder.snapshot.countP (!·.success) + t.entries.countP (!·.sample.success)

theorem kept_fresh : Kept [] {} where
  lane_eq k := by cases k <;> simp [lane, empty, shard]
  entered := by simp
  recorded_eq := rfl
  failed_eq := rfl

/-- What an event does to a lane. -/
theorem Kept.lane_step (h : Kept events t) (he : t.step? e = some t') (k : Nat) :
    t'.recorder.lane k = t.recorder.lane k ++ (e.pushed? k).toList := by
  cases e with
  | openShard =>
    cases he
    simp [Event.pushed?]
  | count j s =>
    obtain ⟨-, rfl⟩ := step?_count_eq_some.1 he
    simp [Event.pushed?]
  | countFailure j s =>
    obtain ⟨-, rfl⟩ := step?_countFailure_eq_some.1 he
    simp [Event.pushed?]
  | push j s =>
    obtain ⟨hmem, rfl⟩ := step?_push_eq_some.1 he
    rw [lane_push t.recorder s (h.entered _ hmem) k, Event.pushed?]
    by_cases hk : j = k
    · simp [hk]
    · simp [hk, Ne.symm hk]
  | begin =>
    cases he
    simp [Event.pushed?]
  | copy i =>
    obtain ⟨g, -, -, rfl⟩ := step?_copy_eq_some.1 he
    simp [Event.pushed?]

/-- Lanes are never taken away, and a record begins with a lane that there is. -/
theorem Kept.entered_step (h : Kept events t) (he : t.step? e = some t') :
    ∀ entry ∈ t'.entries, entry.lane < t'.recorder.lanes := by
  intro entry hentry
  cases e with
  | openShard =>
    cases he
    simpa using Nat.lt_succ_of_lt (h.entered entry hentry)
  | count k s =>
    obtain ⟨hk, rfl⟩ := step?_count_eq_some.1 he
    rcases List.mem_cons.1 hentry with rfl | hold
    · exact hk
    · exact h.entered entry hold
  | countFailure k s =>
    obtain ⟨hmem, rfl⟩ := step?_countFailure_eq_some.1 he
    rcases List.mem_cons.1 hentry with rfl | hold
    · exact h.entered ⟨k, s, true⟩ hmem
    · exact h.entered entry (List.mem_of_mem_erase hold)
  | push k s =>
    obtain ⟨-, rfl⟩ := step?_push_eq_some.1 he
    simpa using h.entered entry (List.mem_of_mem_erase hentry)
  | begin =>
    cases he
    exact h.entered entry hentry
  | copy i =>
    obtain ⟨g, -, -, rfl⟩ := step?_copy_eq_some.1 he
    exact h.entered entry hentry

/-- The totals are right before and after every event. -/
theorem Kept.totals_step (h : Kept events t) (he : t.step? e = some t') :
    t'.recorder.recorded = t'.recorder.snapshot.length + t'.entries.length ∧
    t'.recorder.failed + t'.entries.countP (·.uncounted) =
      t'.recorder.snapshot.countP (!·.success) + t'.entries.countP (!·.sample.success) := by
  have hrecorded := h.recorded_eq
  have hfailed := h.failed_eq
  cases e with
  | openShard =>
    cases he
    simpa using ⟨hrecorded, hfailed⟩
  | count k s =>
    obtain ⟨-, rfl⟩ := step?_count_eq_some.1 he
    simp only [recorded_countOne, failed_countOne, snapshot_countOne, List.length_cons,
      List.countP_cons]
    omega
  | countFailure k s =>
    -- the record that it was is taken out, and put back as one that is counted
    obtain ⟨hmem, rfl⟩ := step?_countFailure_eq_some.1 he
    have hperm := List.perm_cons_erase hmem
    rw [hperm.length_eq] at hrecorded
    rw [hperm.countP_eq, hperm.countP_eq] at hfailed
    simp [List.countP_cons] at hrecorded hfailed ⊢
    omega
  | push k s =>
    -- the sample goes from the records in progress to the snapshot
    obtain ⟨hmem, rfl⟩ := step?_push_eq_some.1 he
    have hperm := List.perm_cons_erase hmem
    have hsnapshot := snapshot_push_perm t.recorder s (h.entered _ hmem)
    rw [hperm.length_eq] at hrecorded
    rw [hperm.countP_eq, hperm.countP_eq] at hfailed
    simp only [recorded_push, failed_push, hsnapshot.length_eq, hsnapshot.countP_eq]
    simp [List.countP_cons] at hrecorded hfailed ⊢
    omega
  | begin =>
    cases he
    exact ⟨hrecorded, hfailed⟩
  | copy i =>
    obtain ⟨g, -, -, rfl⟩ := step?_copy_eq_some.1 he
    exact ⟨hrecorded, hfailed⟩

/-- No event can break it. -/
theorem Kept.step (h : Kept events t) (he : t.step? e = some t') : Kept (events ++ [e]) t' where
  lane_eq k := by
    rw [h.lane_step he, h.lane_eq, recordedInto_append]
    cases hpushed : e.pushed? k <;> simp [recordedInto, hpushed]
  entered := h.entered_step he
  recorded_eq := (h.totals_step he).1
  failed_eq := (h.totals_step he).2

theorem Kept.run (h : Kept events t) {rest : List Event} (hrun : t.run? rest = some t') :
    Kept (events ++ rest) t' := by
  induction rest generalizing events t with
  | nil =>
    cases hrun
    rwa [List.append_nil]
  | cons e rest ih =>
    obtain ⟨t₁, he, hrest⟩ := Option.bind_eq_some_iff.1 hrun
    rw [List.append_cons]
    exact ih (h.step he) hrest

end Shared

/-! ### What a snapshot shows -/

namespace Reading

variable {g : Reading} {before now : List Event}

/-- Of each lane that it has copied, a snapshot shows what was there when it began, and of no
lane does it show anything but the first samples that are there now. -/
structure Shows (g : Reading) (before now : List Event) : Prop where
  /-- What was there when it began. -/
  keeps : ∀ k < g.copies.length, recordedInto k before <+: g.part k
  /-- What is there now. -/
  shows : ∀ k, g.part k <+: recordedInto k now

theorem Shows.mono (h : g.Shows before now) (rest : List Event) : g.Shows before (now ++ rest) where
  keeps := h.keeps
  shows k := (h.shows k).trans (isPrefix_recordedInto k now rest)

/-- The copy of the next lane is what is there now, and so all that was there when the snapshot
began. -/
theorem Shows.copy (h : g.Shows before now) (hbefore : before <+: now) {l : List Sample}
    (hl : l = recordedInto g.copies.length now) : (g.copy l).Shows before now := by
  obtain ⟨between, rfl⟩ := hbefore
  have hpart : ∀ k, (g.copy l).part k = if k = g.copies.length then l else g.part k := by
    intro k
    unfold part Reading.copy
    rcases Nat.lt_trichotomy k g.copies.length with hlt | rfl | hgt
    · simp [List.getElem?_append_left hlt, Nat.ne_of_lt hlt]
    · simp
    · simp [List.getElem?_append_right (Nat.le_of_lt hgt), Nat.ne_of_gt hgt,
        Nat.sub_ne_zero_of_lt hgt, List.getElem?_eq_none (Nat.le_of_lt hgt)]
  refine ⟨?_, ?_⟩
  · intro k hk
    rw [hpart]
    split
    case isTrue hlast =>
      rw [hl, hlast]
      exact isPrefix_recordedInto _ before between
    case isFalse hlast =>
      refine h.keeps k ?_
      simp only [Reading.copy, List.length_append, List.length_singleton] at hk
      omega
  · intro k
    rw [hpart]
    split
    case isTrue hlast => exact hlast ▸ hl ▸ List.prefix_rfl
    case isFalse => exact h.shows k

/-- The samples of a snapshot are the copies of the lanes, one after another. -/
theorem samples_eq_flatMap_part (h : g.Complete) :
    g.samples = (List.range g.lanes).flatMap g.part := by
  have hcopies : g.copies = (List.range g.copies.length).map fun k => g.copies[k]?.getD [] :=
    List.ext_getElem (by simp) (by simp +contextual)
  rw [samples, hcopies, ← List.flatMap_def, h]
  rfl

end Reading

namespace Shared

variable {t t' : Shared} {e : Event} {before now rest : List Event} {g : Reading} {i : Nat}

/-- A snapshot that has begun either stays as it is or copies its next lane. -/
theorem readings_step? (he : t.step? e = some t') (hg : t.readings[i]? = some g) :
    t'.readings[i]? = some g ∨ g.copies.length < g.lanes ∧
      t'.readings[i]? = some (g.copy (t.recorder.lane g.copies.length)) := by
  cases e with
  | openShard =>
    cases he
    exact .inl hg
  | count k s =>
    obtain ⟨-, rfl⟩ := step?_count_eq_some.1 he
    exact .inl hg
  | countFailure k s =>
    obtain ⟨-, rfl⟩ := step?_countFailure_eq_some.1 he
    exact .inl hg
  | push k s =>
    obtain ⟨-, rfl⟩ := step?_push_eq_some.1 he
    exact .inl hg
  | begin =>
    cases he
    obtain ⟨hi, -⟩ := List.getElem?_eq_some_iff.1 hg
    exact .inl (by rw [List.getElem?_append_left hi, hg])
  | copy j =>
    obtain ⟨g', hg', hnext, rfl⟩ := step?_copy_eq_some.1 he
    by_cases hij : j = i
    · subst hij
      obtain rfl : g' = g := Option.some.inj (hg'.symm.trans hg)
      obtain ⟨hi, -⟩ := List.getElem?_eq_some_iff.1 hg
      exact .inr ⟨hnext, List.getElem?_set_self hi⟩
    · exact .inl (by rw [List.getElem?_set_ne hij, hg])

/-- A snapshot that is complete never changes. -/
theorem readings_run?_of_complete (hrun : t.run? rest = some t') (hg : t.readings[i]? = some g)
    (hcomplete : g.Complete) : t'.readings[i]? = some g := by
  induction rest generalizing t with
  | nil =>
    cases hrun
    exact hg
  | cons e rest ih =>
    obtain ⟨t₁, he, hrest⟩ := Option.bind_eq_some_iff.1 hrun
    rcases readings_step? he hg with hsame | ⟨hnext, -⟩
    · exact ih hrest hsame
    · exact absurd hcomplete (Nat.ne_of_lt hnext)

/-- What a snapshot shows it goes on to show, whatever happens. -/
theorem Kept.readings_run? (h : Kept now t) (hrun : t.run? rest = some t')
    (hg : t.readings[i]? = some g) (hbefore : before <+: now) (hshows : g.Shows before now) :
    ∃ g', t'.readings[i]? = some g' ∧ g'.lanes = g.lanes ∧ g'.Shows before (now ++ rest) := by
  induction rest generalizing now t g with
  | nil =>
    cases hrun
    exact ⟨g, hg, rfl, by rwa [List.append_nil]⟩
  | cons e rest ih =>
    obtain ⟨t₁, he, hrest⟩ := Option.bind_eq_some_iff.1 hrun
    have hbefore₁ : before <+: now ++ [e] := hbefore.trans (List.prefix_append now [e])
    rw [List.append_cons]
    rcases readings_step? he hg with hsame | ⟨-, hcopy⟩
    · exact ih (h.step he) hrest hsame hbefore₁ (hshows.mono [e])
    · obtain ⟨g', hg', hlanes, hshows'⟩ := ih (h.step he) hrest hcopy hbefore₁
        ((hshows.copy hbefore (h.lane_eq _)).mono [e])
      exact ⟨g', hg', hlanes, hshows'⟩

/-- While no record is in progress and none begins, nothing is recorded. -/
theorem idle_run? (hrun : t.run? rest = some t') (hidle : t.entries = [])
    (hnone : ∀ k s, .count k s ∉ rest) :
    t'.recorder.recorded = t.recorder.recorded ∧ t'.recorder.failed = t.recorder.failed ∧
      ∀ k, recordedInto k rest = [] := by
  induction rest generalizing t with
  | nil =>
    cases hrun
    exact ⟨rfl, rfl, fun k => rfl⟩
  | cons e rest ih =>
    obtain ⟨t₁, he, hrest⟩ := Option.bind_eq_some_iff.1 hrun
    have hstep : t₁.entries = [] ∧ t₁.recorder.recorded = t.recorder.recorded ∧
        t₁.recorder.failed = t.recorder.failed ∧ ∀ k, e.pushed? k = none := by
      cases e with
      | openShard =>
        cases he
        exact ⟨hidle, rfl, rfl, fun k => rfl⟩
      | count k s => exact absurd List.mem_cons_self (hnone k s)
      | countFailure k s =>
        obtain ⟨hmem, -⟩ := step?_countFailure_eq_some.1 he
        simp [hidle] at hmem
      | push k s =>
        obtain ⟨hmem, -⟩ := step?_push_eq_some.1 he
        simp [hidle] at hmem
      | begin =>
        cases he
        exact ⟨hidle, rfl, rfl, fun k => rfl⟩
      | copy i =>
        obtain ⟨g, -, -, rfl⟩ := step?_copy_eq_some.1 he
        exact ⟨hidle, rfl, rfl, fun k => rfl⟩
    obtain ⟨hidle₁, hrecorded, hfailed, hpushed⟩ := hstep
    obtain ⟨hrecorded', hfailed', hrest'⟩ :=
      ih hrest hidle₁ fun k s hmem => hnone k s (List.mem_cons_of_mem e hmem)
    refine ⟨hrecorded'.trans hrecorded, hfailed'.trans hfailed, fun k => ?_⟩
    rw [recordedInto, List.filterMap_cons_none (hpushed k)]
    exact hrest' k

/-! ### Complete snapshots -/

/-- What holds of a snapshot that began in one state, after `before`, and is complete in another
one, after `before ++ .begin :: during`. -/
structure Faithful (before during : List Event) (t₀ t : Shared) (g : Reading) : Prop where
  /-- It shows the lanes that there were when it began, one after another. -/
  samples_eq : g.samples = (List.range t₀.recorder.lanes).flatMap g.part
  /-- Of every lane it shows all that was recorded before it began. -/
  keeps : ∀ k, recordedInto k before <+: g.part k
  /-- Of every lane it shows the first samples only that were recorded before it was complete. -/
  shows : ∀ k, g.part k <+: recordedInto k (before ++ .begin :: during)
  /-- Whatever happens afterwards, it stays as it is. -/
  stays : ∀ later t', t.run? later = some t' → t'.readings[t₀.readings.length]? = some g
  /-- A snapshot that begins afterwards shows all of it, lane by lane. -/
  extended : ∀ between t₁ during' t' g', t.run? between = some t₁ →
    t₁.run? (.begin :: during') = some t' → t'.readings[t₁.readings.length]? = some g' →
    g'.Complete → ∀ k, g.part k <+: g'.part k
  /-- If no record was in progress, the totals are those of the samples that it shows. -/
  counted : t₀.entries = [] → (∀ k s, .count k s ∉ during) →
    t.recorder.recorded = g.samples.length ∧ t.recorder.failed = g.samples.countP (!·.success)

variable {during : List Event} {t₀ : Shared}

/-- A complete snapshot shows of every lane what was there when it began, and nothing that came
after it. -/
theorem Kept.prefixes (h : Kept before t₀) (hrun : t₀.run? (.begin :: during) = some t)
    (hg : t.readings[t₀.readings.length]? = some g) (hcomplete : g.Complete) :
    g.lanes = t₀.recorder.lanes ∧ ∀ k, recordedInto k before <+: g.part k ∧
      g.part k <+: recordedInto k (before ++ .begin :: during) := by
  have hbegin : t₀.step? .begin =
      some { t₀ with readings := t₀.readings ++ [⟨t₀.recorder.lanes, []⟩] } := rfl
  have hduring := hrun
  rw [run?_cons, hbegin, Option.bind_some] at hduring
  -- when it begins, a snapshot has copied nothing
  have hfresh : (⟨t₀.recorder.lanes, []⟩ : Reading).Shows before (before ++ [.begin]) :=
    ⟨by simp, by simp [Reading.part]⟩
  obtain ⟨g', hg', hlanes, hshows⟩ := (h.step hbegin).readings_run? hduring
    List.getElem?_concat_length (List.prefix_append _ _) hfresh
  obtain rfl : g' = g := Option.some.inj (hg'.symm.trans hg)
  rw [← List.append_cons] at hshows
  refine ⟨hlanes, fun k => ⟨?_, hshows.shows k⟩⟩
  rcases Nat.lt_or_ge k g'.lanes with hk | hk
  · exact hshows.keeps k (hcomplete ▸ hk)
  · -- a lane that was opened later had nothing then
    rw [← h.lane_eq, lane_of_lanes_le (Nat.le_trans (Nat.le_of_eq hlanes.symm) hk)]
    exact List.nil_prefix

/-- **Nothing is lost, doubled or out of order.**  Whatever others do between any two actions of
a snapshot, it is faithful: it shows the lanes in their order, of each the first samples that
were recorded into it, among them all that were recorded before it began and none that was
recorded after it was complete. -/
theorem snapshots_between_writers (hbefore : run? {} before = some t₀)
    (hduring : t₀.run? (.begin :: during) = some t)
    (hg : t.readings[t₀.readings.length]? = some g) (hcomplete : g.Complete) :
    Faithful before during t₀ t g := by
  have hkept₀ : Kept before t₀ := kept_fresh.run hbefore
  have hkept : Kept (before ++ .begin :: during) t := hkept₀.run hduring
  obtain ⟨hlanes, hparts⟩ := hkept₀.prefixes hduring hg hcomplete
  have hsamples : g.samples = (List.range t₀.recorder.lanes).flatMap g.part :=
    hlanes ▸ Reading.samples_eq_flatMap_part hcomplete
  refine ⟨hsamples, fun k => (hparts k).1, fun k => (hparts k).2, ?stays, ?extended, ?counted⟩
  case stays =>
    intro later t' hlater
    exact readings_run?_of_complete hlater hg hcomplete
  case extended =>
    intro between t₁ during' t' g' hbetween hduring' hg' hcomplete' k
    have hparts' := ((hkept.run hbetween).prefixes hduring' hg' hcomplete').2 k
    exact ((hparts k).2.trans (isPrefix_recordedInto k _ between)).trans hparts'.1
  case counted =>
    intro hidle hnone
    obtain ⟨hrecorded, hfailed, hnothing⟩ := idle_run? hduring hidle (by simpa using hnone)
    -- so each lane is shown with exactly what was recorded before
    have hpart : ∀ k, g.part k = t₀.recorder.lane k := by
      intro k
      obtain ⟨hkeeps, hshows⟩ := hparts k
      rw [recordedInto_append, hnothing, List.append_nil] at hshows
      rw [hkept₀.lane_eq]
      exact hshows.eq_of_length_le hkeeps.length_le
    have hsnapshot : g.samples = t₀.recorder.snapshot := by
      rw [hsamples, snapshot_eq_flatMap_lane]
      exact congrArg (List.flatMap · _) (funext hpart)
    have hcount := hkept₀.recorded_eq
    have hcountFailed := hkept₀.failed_eq
    simp only [hidle, List.length_nil, List.countP_nil, Nat.add_zero] at hcount hcountFailed
    rw [hrecorded, hfailed, hsnapshot]
    exact ⟨hcount, hcountFailed⟩

/-- The first sample of each of two users, and the second one of the first, which has failed. -/
def firstOf (user : Nat) : Sample := { user, success := true }
def secondOfOne : Sample := { user := 1, timestamp := Duration.ofMillis 5 }

/-- One user has recorded when a snapshot begins.  It records again just after its lane has been
copied, and then the other user records, whose lane has not been copied yet. -/
def beforeOvertaking : List Event :=
  [.openShard, .openShard, .count 1 (firstOf 1), .push 1 (firstOf 1)]
def overtaking : List Event :=
  [.copy 0, .count 1 secondOfOne, .copy 0, .countFailure 1 secondOfOne, .push 1 secondOfOne,
    .openShard, .count 2 (firstOf 2), .push 2 (firstOf 2), .copy 0]

/-- The snapshot shows the sample that was recorded last, but not the one before it, which went
into a lane that had already been copied.  Both have been counted. -/
theorem overtaking_is_faithful : ∃ t₀ t g,
    run? {} beforeOvertaking = some t₀ ∧ t₀.run? (.begin :: overtaking) = some t ∧
    t.readings[t₀.readings.length]? = some g ∧ g.Complete ∧
    g.samples = [firstOf 1, firstOf 2] ∧ t.recorder.recorded = 3 ∧ t.recorder.failed = 1 ∧
    Faithful beforeOvertaking overtaking t₀ t g :=
  ⟨_, _, _, rfl, rfl, rfl, rfl, rfl, rfl, rfl, snapshots_between_writers rfl rfl rfl rfl⟩

end Shared
end StagedLoad.Recorder
