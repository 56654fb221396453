import StagedLoad.Pool.Basic
import StagedLoad.Proofs.Metric.Recorder

/-!
# Bringing the number of live users to a target

Resizing a pool changes its users, their shards, and who is alive, and notes the peak; there
are as many live users as asked for, and no sample comes or goes.  Users that come take the
next numbers, and those that are told to leave are the ones that came last.

## Main results

* `spawnMany_spec`, `resize_spec` — all that resizing changes.
* `resize_of_le`, `resize_of_lt` — who comes when a pool grows, and who is told to leave when it
  shrinks.
* `reconcile_cases` — what the owner of a pool can find and do.
* `frame_reconcile` — reconciling takes no time, and no sample comes or goes.
-/

namespace StagedLoad.Pool

variable {σ : Type}

/-! ### Growing and shrinking -/

/-- Users that come have empty shards, take the next numbers and are alive; nothing else
changes. -/
theorem spawnMany_spec (n : Nat) (p : Pool σ) : ∃ recorder added,
    spawnMany n p = { p with
      recorder
      users := p.users ++ added
      live := p.live ++ List.range' p.nextId n
      nextId := p.nextId + n } ∧
    recorder.snapshot = p.recorder.snapshot ∧
    added.map VirtualUser.id = List.range' p.nextId n ∧ ∀ u ∈ added, u.retired = false := by
  induction n generalizing p with
  | zero => exact ⟨p.recorder, [], by simp [spawnMany], rfl, rfl, by simp⟩
  | succ n ih =>
    obtain ⟨recorder, added, heq, hsnapshot, hnumbers, hstay⟩ := ih p.spawn
    -- the user that comes first stands before those that come after it
    refine ⟨recorder, ⟨p.nextId, p.recorder.shards.size, false, 0, .waiting⟩ :: added,
      ?_, ?_, ?_, ?_⟩
    · rw [spawnMany, heq]
      simp [spawn, List.range'_succ, Nat.add_assoc, Nat.add_comm 1 n]
    · rw [hsnapshot]
      exact p.recorder.snapshot_openShard
    · rw [List.map_cons, hnumbers, List.range'_succ]
      rfl
    · intro u hu
      rcases List.mem_cons.1 hu with rfl | hu
      · rfl
      · exact hstay u hu

/-- A pool that has fewer live users than asked for keeps them, and the users that come take the
next numbers. -/
theorem resize_of_le {p : Pool σ} {target : Nat} (h : p.live.length ≤ target) :
    ∃ recorder added,
      p.resize target = { p with
        recorder
        users := p.users ++ added
        live := p.live ++ List.range' p.nextId (target - p.live.length)
        nextId := p.nextId + (target - p.live.length)
        peak := max p.peak target } ∧
      recorder.snapshot = p.recorder.snapshot ∧
      added.map VirtualUser.id = List.range' p.nextId (target - p.live.length) ∧
      ∀ u ∈ added, u.retired = false := by
  obtain ⟨recorder, added, heq, hsnapshot, hnumbers, hstay⟩ :=
    spawnMany_spec (target - p.live.length) p
  refine ⟨recorder, added, ?_, hsnapshot, hnumbers, hstay⟩
  have hlength : p.live.length + (target - p.live.length) = target := by omega
  rw [resize, if_neg (by omega), heq]
  simp only [List.length_append, List.length_range', hlength]

/-- A pool that has more live users than asked for keeps the first of them, and tells the others
to leave. -/
theorem resize_of_lt {p : Pool σ} {target : Nat} (h : target < p.live.length) :
    p.resize target = { p.retireBeyond target with peak := max p.peak target } := by
  have hlength : (p.retireBeyond target).live.length = target := by
    simp only [retireBeyond, List.length_take]
    omega
  rw [resize, if_pos h]
  dsimp only
  rw [hlength]
  rfl

/-- Resizing brings the number of live users to the target and notes the peak, and no sample
comes or goes. -/
theorem resize_spec (p : Pool σ) (target : Nat) : ∃ recorder users live nextId,
    p.resize target = { p with recorder, users, live, nextId, peak := max p.peak target } ∧
    recorder.snapshot = p.recorder.snapshot ∧ live.length = target := by
  rcases Nat.lt_or_ge target p.live.length with h | h
  · -- numbers are taken from the live ones at once, although the users leave later
    have hlength : (p.retireBeyond target).live.length = target := by
      simp only [retireBeyond, List.length_take]
      omega
    exact ⟨p.recorder, (p.retireBeyond target).users, (p.retireBeyond target).live, p.nextId,
      resize_of_lt h, rfl, hlength⟩
  · obtain ⟨recorder, added, heq, hsnapshot, -, -⟩ := resize_of_le h
    refine ⟨recorder, _, _, _, heq, hsnapshot, ?_⟩
    rw [List.length_append, List.length_range']
    omega

/-! ### Looking after departures -/

theorem frame_reap (p : Pool σ) : ∃ departures, p.reap.1 = { p with departures } := by
  unfold reap
  cases reapDepartures p.departures
  dsimp only
  split
  · exact ⟨_, rfl⟩
  · split <;> exact ⟨_, rfl⟩

/-- The owner of a pool looks after departures first.  If that shows a fault, or if the pool is
stopped, it does nothing else, and otherwise it resizes the pool. -/
theorem reconcile_cases {p q : Pool σ} {n : Nat} {fault : Option PoolFault}
    (h : p.reconcile n = (q, fault)) : ∃ departures,
      (q = { p with departures } ∧ (fault ≠ none ∨ p.stopped = true)) ∨
      (q = ({ p with departures } : Pool σ).resize n ∧ fault = none ∧ p.stopped = false) := by
  obtain ⟨departures, hreap⟩ := frame_reap p
  refine ⟨departures, ?_⟩
  unfold reconcile at h
  split at h
  case h_1 r f hp =>
    rw [hp] at hreap
    cases h
    exact .inl ⟨hreap, .inl (by simp)⟩
  case h_2 r hp =>
    rw [hp] at hreap
    obtain rfl : r = { p with departures } := hreap
    dsimp only at h
    split at h
    case isTrue hstopped =>
      cases h
      exact .inl ⟨rfl, .inr hstopped⟩
    case isFalse hgoing =>
      cases h
      exact .inr ⟨rfl, rfl, by simpa using hgoing⟩

/-- Whatever the owner of a pool finds, no time passes, and no sample comes or goes. -/
theorem frame_reconcile (p : Pool σ) (target : Nat) :
    (p.reconcile target).1.now = p.now ∧
      (p.reconcile target).1.recorder.snapshot = p.recorder.snapshot := by
  obtain ⟨departures, ⟨hq, -⟩ | ⟨hq, -, -⟩⟩ :=
    reconcile_cases (p := p) (n := target) (q := (p.reconcile target).1) rfl
  · rw [hq]
    exact ⟨rfl, rfl⟩
  · obtain ⟨_, _, _, _, hresize, hsnapshot, -⟩ :=
      resize_spec ({ p with departures } : Pool σ) target
    rw [hq, hresize]
    exact ⟨rfl, hsnapshot⟩

end StagedLoad.Pool
