import Mathlib.Data.List.Perm.Basic
import StagedLoad.Metric.Recorder

/-!
# The shards of a recorder

A recorder grows one shard at a time: opening one adds it empty, and a sample goes to the end
of its own.  In a recorder whose shards belong to one user each, the samples of a user in a
snapshot are the samples of its shard.

## Main definitions

* `Recorder.shard` — the samples of a shard.
* `Recorder.lane`, `Recorder.push` — the shared shard and the others under one numbering.

## Main results

* `shard_record`, `shard_openShard` — what the operations do to each shard.
* `lane_push`, `snapshot_push_perm` — a sample goes to the end of its lane, and a snapshot shows
  one sample more.
* `filter_user_snapshot` — the samples of a user in a snapshot.
-/

namespace StagedLoad.Recorder

variable {r : Recorder} {s : Sample}

/-- The samples of a shard; none if it has not been opened. -/
def shard (r : Recorder) (k : Nat) : List Sample := (r.shards[k]?.getD #[]).toList

theorem shard_of_size_le {k : Nat} (h : r.shards.size ≤ k) : r.shard k = [] := by
  simp [shard, Array.getElem?_eq_none h]

@[simp] theorem size_shards_openShard (r : Recorder) :
    r.openShard.shards.size = r.shards.size + 1 := by
  simp [openShard]

@[simp] theorem size_shards_record (r : Recorder) (k : Nat) (s : Sample) :
    (r.record k s).shards.size = r.shards.size := by
  simp [record, observe]

@[simp] theorem shared_openShard (r : Recorder) : r.openShard.shared = r.shared := rfl
@[simp] theorem recorded_openShard (r : Recorder) : r.openShard.recorded = r.recorded := rfl
@[simp] theorem failed_openShard (r : Recorder) : r.openShard.failed = r.failed := rfl
@[simp] theorem shared_record (r : Recorder) (k : Nat) (s : Sample) :
    (r.record k s).shared = r.shared := rfl

@[simp] theorem shard_openShard (r : Recorder) (k : Nat) : r.openShard.shard k = r.shard k := by
  unfold shard openShard
  rw [Array.getElem?_push]
  split
  case isTrue h => simp [h]
  case isFalse => rfl

theorem shard_record (r : Recorder) {k : Nat} (s : Sample) (h : k < r.shards.size) (j : Nat) :
    (r.record k s).shard j = r.shard j ++ if j = k then [s] else [] := by
  unfold shard record observe
  rw [Array.getElem?_modify]
  by_cases hjk : j = k
  · subst hjk
    simp [Array.getElem?_eq_getElem h]
  · simp [hjk, Ne.symm hjk]

/-- A new shard is empty, so a snapshot does not show it. -/
@[simp] theorem snapshot_openShard (r : Recorder) : r.openShard.snapshot = r.snapshot := by
  simp [snapshot, openShard]

/-! ### Lanes -/

/-- The samples of a lane.  Lane zero is the shared shard, and the other shards follow in the
order in which they were opened. -/
def lane (r : Recorder) : Nat → List Sample
  | 0 => r.shared.toList
  | k + 1 => r.shard k

/-- How many lanes there are. -/
def lanes (r : Recorder) : Nat := r.shards.size + 1

/-- Puts a sample at the end of a lane, without counting it. -/
def push (r : Recorder) : Nat → Sample → Recorder
  | 0, s => { r with shared := r.shared.push s }
  | k + 1, s => { r with shards := r.shards.modify k fun a => a.push s }

@[simp] theorem lane_zero (r : Recorder) : r.lane 0 = r.shared.toList := rfl

/-- Recording counts a sample and puts it into its lane. -/
theorem recordShared_eq_push (r : Recorder) (s : Sample) :
    r.recordShared s = (r.observe s).push 0 s := rfl
theorem record_eq_push (r : Recorder) (k : Nat) (s : Sample) :
    r.record k s = (r.observe s).push (k + 1) s := rfl

theorem lane_of_lanes_le {k : Nat} (h : r.lanes ≤ k) : r.lane k = [] := by
  cases k with
  | zero => exact absurd h (Nat.not_succ_le_zero _)
  | succ k => exact shard_of_size_le (Nat.le_of_succ_le_succ h)

@[simp] theorem lane_openShard (r : Recorder) (k : Nat) : r.openShard.lane k = r.lane k := by
  cases k with
  | zero => rfl
  | succ k => exact shard_openShard r k

@[simp] theorem lanes_openShard (r : Recorder) : r.openShard.lanes = r.lanes + 1 := by
  simp [lanes]

@[simp] theorem lanes_push (r : Recorder) (k : Nat) (s : Sample) :
    (r.push k s).lanes = r.lanes := by
  cases k with
  | zero => rfl
  | succ k => simp [lanes, push]

@[simp] theorem recorded_push (r : Recorder) (k : Nat) (s : Sample) :
    (r.push k s).recorded = r.recorded := by
  cases k <;> rfl

@[simp] theorem failed_push (r : Recorder) (k : Nat) (s : Sample) :
    (r.push k s).failed = r.failed := by
  cases k <;> rfl

theorem lane_push (r : Recorder) {k : Nat} (s : Sample) (h : k < r.lanes) (j : Nat) :
    (r.push k s).lane j = r.lane j ++ if j = k then [s] else [] := by
  cases k with
  | zero =>
    cases j with
    | zero => simp [push]
    | succ j => exact (List.append_nil _).symm
  | succ k =>
    cases j with
    | zero => exact (List.append_nil _).symm
    | succ j =>
      have hrecord := shard_record r s (Nat.lt_of_succ_lt_succ h) j
      simp only [Nat.succ.injEq]
      exact hrecord

/-- A snapshot lists the lanes. -/
theorem snapshot_eq_flatMap_lane (r : Recorder) :
    r.snapshot = (List.range r.lanes).flatMap r.lane := by
  have hshards : r.shards.toList = (List.range r.shards.size).map fun k => r.shards[k]?.getD #[] :=
    List.ext_getElem (by simp) (by simp +contextual)
  rw [snapshot, hshards, List.flatMap_map, lanes, List.range_succ_eq_map, List.flatMap_cons,
    List.flatMap_map]
  rfl

/-- If no sample has been recorded without a shard, a snapshot lists the shards. -/
theorem snapshot_eq_flatMap_shard (hshared : r.shared = #[]) :
    r.snapshot = (List.range r.shards.size).flatMap r.shard := by
  rw [snapshot_eq_flatMap_lane, lanes, List.range_succ_eq_map, List.flatMap_cons,
    List.flatMap_map, lane_zero, hshared]
  rfl

/-- What stands at one place of a range stands in it once. -/
theorem flatMap_range_ite {α : Type} {n k : Nat} (l : List α) (h : k < n) :
    (List.range n).flatMap (fun j => if j = k then l else []) = l := by
  induction n with
  | zero => exact absurd h (Nat.not_lt_zero k)
  | succ n ih =>
    rw [List.range_succ, List.flatMap_append, List.flatMap_singleton]
    rcases Nat.lt_succ_iff_lt_or_eq.mp h with hlt | rfl
    · rw [ih hlt, if_neg (Nat.ne_of_gt hlt), List.append_nil]
    · have hnone : (List.range k).flatMap (fun j => if j = k then l else []) = [] := by
        rw [List.flatMap_eq_nil_iff]
        intro j hj
        exact if_neg (Nat.ne_of_lt (List.mem_range.mp hj))
      rw [hnone, if_pos rfl, List.nil_append]

/-- With a sample in one of the lanes a snapshot shows one sample more. -/
theorem snapshot_push_perm (r : Recorder) {k : Nat} (s : Sample) (h : k < r.lanes) :
    (r.push k s).snapshot.Perm (s :: r.snapshot) := by
  have hlanes : (r.push k s).snapshot =
      (List.range r.lanes).flatMap fun j => r.lane j ++ if j = k then [s] else [] := by
    rw [snapshot_eq_flatMap_lane, lanes_push]
    exact congrArg (List.flatMap · _) (funext (lane_push r s h))
  have hsplit := List.flatMap_append_perm (List.range r.lanes) r.lane
    fun j => if j = k then [s] else []
  rw [flatMap_range_ite [s] h, ← snapshot_eq_flatMap_lane] at hsplit
  rw [hlanes]
  exact hsplit.symm.trans List.perm_append_comm

/-! ### Totals -/

/-- The totals of a recorder are those of its samples. -/
structure Counted (r : Recorder) : Prop where
  /-- All samples. -/
  recorded_eq : r.recorded = r.snapshot.length
  /-- Those that did not succeed. -/
  failed_eq : r.failed = r.snapshot.countP (!·.success)

theorem counted_empty : empty.Counted := ⟨rfl, rfl⟩

theorem Counted.openShard (h : r.Counted) : r.openShard.Counted where
  recorded_eq := by rw [recorded_openShard, snapshot_openShard, h.recorded_eq]
  failed_eq := by rw [failed_openShard, snapshot_openShard, h.failed_eq]

/-- What is recorded is counted. -/
theorem Counted.record (h : r.Counted) {k : Nat} (hk : k < r.shards.size) :
    (r.record k s).Counted := by
  have hperm : (r.record k s).snapshot.Perm (s :: r.snapshot) :=
    snapshot_push_perm (r.observe s) s (Nat.succ_lt_succ hk)
  refine ⟨?_, ?_⟩
  · rw [hperm.length_eq, List.length_cons, ← h.recorded_eq]
    rfl
  · rw [hperm.countP_eq, List.countP_cons, ← h.failed_eq]
    cases hs : s.success <;> simp [Recorder.record, observe, hs]

/-! ### Samples of users -/

/-- If no sample has been recorded without a shard, a snapshot shows the samples of all shards. -/
theorem mem_snapshot (hshared : r.shared = #[]) : s ∈ r.snapshot ↔ ∃ k, s ∈ r.shard k := by
  rw [snapshot, hshared, List.mem_append, List.mem_flatMap]
  constructor
  · rintro (hs | ⟨a, ha, hs⟩)
    · cases hs
    · obtain ⟨k, hk, rfl⟩ := List.getElem_of_mem ha
      have hsize : k < r.shards.size := hk
      exact ⟨k, by simpa [shard, Array.getElem?_eq_getElem hsize] using hs⟩
  · rintro ⟨k, hs⟩
    rcases Nat.lt_or_ge k r.shards.size with hk | hk
    · rw [shard, Array.getElem?_eq_getElem hk] at hs
      exact .inr ⟨r.shards[k], by simp, hs⟩
    · rw [shard_of_size_le hk] at hs
      cases hs

/-- A snapshot shows what was recorded last and everything before. -/
theorem mem_snapshot_record {k : Nat} {s' : Sample} (hshared : r.shared = #[])
    (hk : k < r.shards.size) :
    s' ∈ (r.record k s).snapshot ↔ s' ∈ r.snapshot ∨ s' = s := by
  rw [mem_snapshot hshared, mem_snapshot (r := r.record k s) hshared]
  simp only [shard_record r s hk, List.mem_append]
  constructor
  · rintro ⟨j, hold | hnew⟩
    · exact .inl ⟨j, hold⟩
    · split at hnew
      · exact .inr (List.mem_singleton.1 hnew)
      · cases hnew
  · rintro (⟨j, hold⟩ | rfl)
    · exact ⟨j, .inl hold⟩
    · exact ⟨k, .inr (by simp)⟩

theorem filter_user_eq_nil {l : List Sample} {n : Nat} (h : ∀ s ∈ l, s.user ≠ n) :
    l.filter (fun s => s.user == n) = [] := by
  rw [List.filter_eq_nil_iff]
  intro s hs
  simpa using h s hs

/-- If shard by shard all samples are of the user with the number that comes next, the samples
of one user are those of one shard. -/
theorem filter_flatMap_eq {l : List (Array Sample)} {n : Nat}
    (h : ∀ k s, s ∈ (l[k]?.getD #[]).toList → s.user = n + k) (k : Nat) :
    (l.flatMap Array.toList).filter (fun s => s.user == n + k) = (l[k]?.getD #[]).toList := by
  induction l generalizing n k with
  | nil => simp
  | cons a rest ih =>
    have hhead : ∀ s ∈ a.toList, s.user = n := by
      intro s hs
      exact h 0 s (by simpa using hs)
    have hrest : ∀ k s, s ∈ (rest[k]?.getD #[]).toList → s.user = n + 1 + k := by
      intro k s hs
      have := h (k + 1) s (by simpa using hs)
      omega
    rw [List.flatMap_cons, List.filter_append]
    cases k with
    | zero =>
      have hall : a.toList.filter (fun s => s.user == n + 0) = a.toList := by
        rw [List.filter_eq_self]
        intro s hs
        simp [hhead s hs]
      have hnone : (rest.flatMap Array.toList).filter (fun s => s.user == n + 0) = [] := by
        apply filter_user_eq_nil
        intro s hs
        obtain ⟨b, hb, hsb⟩ := List.mem_flatMap.1 hs
        obtain ⟨j, hj, rfl⟩ := List.getElem_of_mem hb
        have := hrest j s (by simpa [hj] using hsb)
        omega
      simp only [hall, hnone, List.append_nil, List.getElem?_cons_zero, Option.getD_some]
    | succ k =>
      have hnone : a.toList.filter (fun s => s.user == n + (k + 1)) = [] := by
        apply filter_user_eq_nil
        intro s hs
        have := hhead s hs
        omega
      have hnumber : n + (k + 1) = n + 1 + k := by omega
      rw [hnone, List.nil_append, List.getElem?_cons_succ, hnumber]
      exact ih hrest k

/-- If the shards belong to the users one, two, and so on, a snapshot shows of each user the
samples of its shard. -/
theorem filter_user_snapshot (hshared : r.shared = #[])
    (huser : ∀ k, ∀ s ∈ r.shard k, s.user = k + 1) (k : Nat) :
    r.snapshot.filter (fun s => s.user == k + 1) = r.shard k := by
  have h : ∀ j s, s ∈ (r.shards.toList[j]?.getD #[]).toList → s.user = 1 + j := by
    intro j s hs
    have := huser j s (by simpa [shard] using hs)
    omega
  have hfilter := filter_flatMap_eq h k
  rw [snapshot, hshared, Nat.add_comm k 1]
  simpa [shard] using hfilter

end StagedLoad.Recorder
