import StagedLoad.Proofs.Pool.Fault
import StagedLoad.Proofs.Run.Outcome

/-!
# The log of a run

A run whose workload keeps a log does the same steps and ends in the same way as without.  The
log tells which invocations there were, of all users that have ever come.  When a run has ended
with a report, none of them has crashed and none is in flight, so every one of them has a sample,
and there are no other samples.

## Main definitions

* `Run.withLog` — a run with a log.
* `Pool.Logged` — every invocation in the log is one that the workload made for a user.

## Main results

* `execute?_withLog` — a log changes nothing that a run does.
* `Pool.Kept.snapshot_eq`, `Pool.Kept.snapshot_perm` — in the end the samples are those of the
  invocations.
* `not_crash_of_mem_log` — if no invocation in flight ever crashes, none in the log does.
-/

namespace StagedLoad

/-! ### What is in the log of a pool -/

namespace Pool

variable {σ : Type} {w : Workload σ} {p q : Pool (σ × List Call)} {u : VirtualUser} {call : Call}

/-- What is in the log after a user has acted was there before, or the user is in it now. -/
theorem mem_log_of_act (hw : p.workload = w.logged) (hu : u ∈ p.users)
    (hcall : call ∈ (p.act u).state.2) : call ∈ p.state.2 ∨
      call ∈ (p.act u).calls ∧ call.1.user = u.id ∧ ∃ s, (w.invoke call.1 s).1 = call.2 := by
  have hacts := acts_act p u
  generalize p.act u = q at hacts hcall ⊢
  cases hacts with
  | begin =>
    have hinvoke : (p.workload.invoke (p.context u) p.state).1 =
        (w.invoke (p.context u) p.state.1).1 := by rw [hw]; rfl
    simp only [invoke, hw, Workload.logged, List.mem_append, List.mem_singleton] at hcall
    rcases hcall with hold | rfl
    · exact .inl hold
    · refine .inr ⟨?_, rfl, p.state.1, rfl⟩
      refine List.mem_filterMap.2 ⟨_, List.mem_map.2 ⟨u, hu, if_pos rfl⟩, ?_⟩
      rw [hinvoke]
      rfl
  | _ => exact .inl hcall

/-- Every invocation in the log is one that the workload made for a user that has come. -/
structure Logged (w : Workload σ) (p : Pool (σ × List Call)) : Prop where
  /-- It was for a user that has come. -/
  user : ∀ call ∈ p.state.2, 1 ≤ call.1.user ∧ call.1.user < p.nextId
  /-- The workload made it. -/
  genuine : ∀ call ∈ p.state.2, ∃ s, (w.invoke call.1 s).1 = call.2

theorem Logged.move (h : Logged w p) (hk : Kept w p) (hm : Move p q) : Logged w q := by
  cases hm with
  | @act u _ hu =>
    refine ⟨?_, ?_⟩
    · intro call hcall
      rw [nextId_act]
      rcases mem_log_of_act hk.workload hu hcall with hold | ⟨-, huser, -⟩
      · exact h.user call hold
      · have := hk.valid.numbered u hu
        omega
    · intro call hcall
      rcases mem_log_of_act hk.workload hu hcall with hold | ⟨-, -, hgenuine⟩
      · exact h.genuine call hold
      · exact hgenuine
  | spawn =>
    refine ⟨fun call hcall => ?_, h.genuine⟩
    obtain ⟨hpos, hlt⟩ := h.user call hcall
    exact ⟨hpos, Nat.lt_succ_of_lt hlt⟩
  | _ => exact ⟨h.user, h.genuine⟩

/-- Nothing is ever in the log that the workload did not make. -/
theorem Logged.course (h : Logged w p) (hk : Kept w p) (hc : Course p q) : Logged w q := by
  have hall : Kept w q ∧ Logged w q := by
    refine hc.preserves (P := fun p => Kept w p ∧ Logged w p) ?_ ⟨hk, h⟩
    rintro p q hm ⟨hk, h⟩
    exact ⟨hk.move hm, h.move hk hm⟩
  exact hall.2

/-- The totals of the recorder are right whatever happens. -/
theorem counted_course {p q : Pool σ} (h : p.recorder.Counted) (hp : p.Valid)
    (hc : Course p q) : q.recorder.Counted := by
  have hall : q.Valid ∧ q.recorder.Counted := by
    refine hc.preserves (P := fun p => p.Valid ∧ p.recorder.Counted) ?_ ⟨hp, h⟩
    rintro p q hm ⟨hp, h⟩
    refine ⟨hp.move hm, ?_⟩
    cases hm with
    | @act u _ hu =>
      have hrecord : ∀ s, (p.recorder.record u.shard s).Counted :=
        fun s => h.record (hp.shard_lt hu)
      have hacts := acts_act p u
      generalize p.act u = q at hacts ⊢
      cases hacts with
      | finish => exact hrecord _
      | pause => exact hrecord _
      | _ => exact h
    | spawn => exact h.openShard
    | _ => exact h
  exact hall.2

/-! ### The samples in the end -/

/-- What is sorted into as many classes as there are is all there, in some order. -/
theorem flatMap_filter_perm {α : Type} (f : α → Nat) {n : Nat} {l : List α}
    (h : ∀ a ∈ l, f a < n) :
    ((List.range n).flatMap fun k => l.filter fun a => f a == k).Perm l := by
  induction l with
  | nil => simp
  | cons a l ih =>
    rw [List.forall_mem_cons] at h
    have hcons : ∀ k, (a :: l).filter (fun b => f b == k) =
        (if k = f a then [a] else []) ++ l.filter fun b => f b == k := by
      intro k
      by_cases hk : k = f a
      · simp [hk]
      · simp [hk, Ne.symm hk]
    simp only [hcons]
    refine (List.flatMap_append_perm _ _ _).symm.trans ?_
    rw [Recorder.flatMap_range_ite [a] h.1]
    exact (ih h.2).cons a

/-- Once nobody is left, the samples are those of the invocations of all users that have come,
one user after the other. -/
theorem Kept.snapshot_eq (h : Kept w p) (husers : p.users = []) :
    p.recorder.snapshot =
      (List.range (p.nextId - 1)).flatMap fun k => (p.begunBy (k + 1)).filterMap Call.sample? := by
  have hshards : p.recorder.shards.size = p.nextId - 1 := by
    have := h.valid.shards
    omega
  rw [Recorder.snapshot_eq_flatMap_shard h.valid.shared, hshards]
  refine congrArg (List.flatMap · _) (funext fun k => ?_)
  obtain ⟨done, hdone, hsamples⟩ := h.kept (k + 1)
  have hflight : p.inFlight (k + 1) = [] := by simp [inFlight, user?, husers]
  rw [hdone, hflight, List.append_nil, ← hsamples, h.valid.samplesOf_succ]

/-- So the samples are those of the invocations in the log, in some order. -/
theorem Kept.snapshot_perm (h : Kept w p) (hlogged : Logged w p) (husers : p.users = []) :
    p.recorder.snapshot.Perm (p.state.2.filterMap Call.sample?) := by
  have hlt : ∀ call ∈ p.state.2, call.1.user - 1 < p.nextId - 1 := by
    intro call hcall
    have := hlogged.user call hcall
    omega
  have hperm := flatMap_filter_perm (fun call : Call => call.1.user - 1) hlt
  rw [h.snapshot_eq husers]
  have hbegun : ∀ k, p.begunBy (k + 1) = p.state.2.filter fun call => call.1.user - 1 == k := by
    intro k
    refine List.filter_congr fun call hcall => ?_
    have := hlogged.user call hcall
    rw [Bool.eq_iff_iff, beq_iff_eq, beq_iff_eq]
    omega
  simp only [hbegun]
  rw [← List.filterMap_flatMap]
  exact hperm.filterMap _

/-! ### Where the log does not grow -/

theorem state_spawnMany {σ : Type} (n : Nat) (p : Pool σ) : (spawnMany n p).state = p.state := by
  induction n generalizing p with
  | zero => rfl
  | succ n ih => exact ih p.spawn

theorem state_resize {σ : Type} (target : Nat) (p : Pool σ) :
    (p.resize target).state = p.state := by
  unfold resize
  split
  · rfl
  · exact state_spawnMany _ p

theorem state_reconcile {σ : Type} (target : Nat) (p : Pool σ) :
    (p.reconcile target).1.state = p.state := by
  obtain ⟨departures, ⟨hq, -⟩ | ⟨hq, -, -⟩⟩ :=
    reconcile_cases (p := p) (n := target) (q := (p.reconcile target).1) rfl
  · rw [hq]
  · rw [hq, state_resize]

end Pool

namespace Run

variable {σ : Type}

/-! ### A log changes nothing that a run does -/

/-- A run with a log of the invocations of its users. -/
def withLog (r : Run σ) (calls : List Call) : Run (σ × List Call) where
  plan := r.plan
  pool := r.pool.withLog calls
  reporting := r.reporting
  aborts := r.aborts
  polls := r.polls
  ticks := r.ticks
  evaluations := r.evaluations
  lastTick := r.lastTick
  updates := r.updates
  mode := r.mode

section WithLog

variable (r : Run σ) (calls : List Call)

theorem poll_withLog : (r.withLog calls).poll = r.poll.withLog calls := by
  unfold poll
  rw [show (r.withLog calls).plan = r.plan from rfl,
    show (r.withLog calls).elapsed = r.elapsed from rfl,
    show (r.withLog calls).pool = r.pool.withLog calls from rfl]
  cases (r.plan.schedule.targetAt r.elapsed).users? with
  | none => rfl
  | some target =>
    dsimp only
    rw [Pool.reconcile_withLog]
    rcases r.pool.reconcile target.toNat with ⟨pool, _ | fault⟩
    · dsimp only
      rw [show (r.withLog calls).polls = r.polls from rfl]
      split <;> rfl
    · rfl

theorem perform_withLog (task : Task) :
    (r.withLog calls).perform task = (r.perform task).withLog calls := by
  cases task with
  | poll => exact poll_withLog r calls
  | tell => rfl
  | judge =>
    unfold perform judge
    dsimp only
    rw [show (r.withLog calls).evaluation = r.evaluation from rfl]
    split <;> rfl
  | obey => rfl

/-- Whatever a run does in one step, it does with a log as well. -/
theorem step_withLog : ∃ more, (r.withLog calls).step = r.step.withLog more := by
  unfold step
  rw [show (r.withLog calls).mode = r.mode from rfl]
  cases r.mode with
  | idle => exact ⟨calls, rfl⟩
  | running =>
    dsimp only
    unfold stepRunning
    rw [show (r.withLog calls).nextTask = r.nextTask from rfl,
      show (r.withLog calls).pool = r.pool.withLog calls from rfl,
      show (r.pool.withLog calls).next? = r.pool.next? from rfl]
    dsimp only
    have hperform : (r.withLog calls).performAt r.nextTask.1 r.nextTask.2 =
        (r.performAt r.nextTask.1 r.nextTask.2).withLog calls :=
      perform_withLog { r with pool := { r.pool with now := max r.pool.now r.nextTask.1 } } calls _
    cases r.pool.next? with
    | none => exact ⟨calls, hperform⟩
    | some e =>
      dsimp only
      split
      · obtain ⟨more, hmore⟩ := Pool.actAt_withLog calls r.pool e.1 e.2
        exact ⟨more, by rw [hmore]; rfl⟩
      · exact ⟨calls, hperform⟩
  | draining cause =>
    dsimp only
    rw [show (r.withLog calls).pool = r.pool.withLog calls from rfl, Pool.step?, Pool.step?,
      show (r.pool.withLog calls).next? = r.pool.next? from rfl]
    cases r.pool.next? with
    | none => exact ⟨calls, rfl⟩
    | some e =>
      obtain ⟨more, hmore⟩ := Pool.actAt_withLog calls r.pool e.1 e.2
      exact ⟨more, by dsimp only [Option.map_some]; rw [hmore]; rfl⟩
  | ended result => exact ⟨calls, rfl⟩

end WithLog

/-- A run ends with a log as it does without. -/
theorem execute?_withLog {r r' : Run σ} {fuel : Nat} {result : Except PoolFault RunReport}
    (calls : List Call) (h : execute? fuel r = some (r', result)) :
    ∃ more, execute? fuel (r.withLog calls) = some (r'.withLog more, result) := by
  induction fuel generalizing r calls with
  | zero => cases h
  | succ fuel ih =>
    by_cases hover : r.IsOver
    · obtain ⟨ended, hmode⟩ := hover
      rw [execute?_of_ended hmode] at h
      cases h
      exact ⟨calls, execute?_of_ended (r := r'.withLog calls) hmode fuel⟩
    · rw [execute?_of_not_isOver hover] at h
      obtain ⟨more, hmore⟩ := step_withLog r calls
      obtain ⟨last, hlast⟩ := ih more h
      refine ⟨last, ?_⟩
      rw [execute?_of_not_isOver (r := r.withLog calls) hover, hmore, hlast]

/-- A prepared run with a log is the prepared run of the workload that keeps one. -/
theorem prepare_logged {config : RunConfig} {workload : Workload σ} {state : σ}
    {reporting : Bool} {aborts : List Nat} {r : Run σ}
    (h : prepare config workload state reporting aborts = .ok r) :
    prepare config workload.logged (state, []) reporting aborts = .ok (r.withLog []) := by
  obtain ⟨plan, hplan, rfl⟩ := prepare_eq_ok h
  unfold prepare
  rw [show workload.logged.declared = workload.declared from rfl, hplan]
  rfl

/-! ### Crashes in the log -/

variable {w : Workload σ} {r : Run (σ × List Call)} {call : Call}

theorem state_perform {σ : Type} (r : Run σ) (task : Task) :
    (r.perform task).pool.state = r.pool.state := by
  have hdoes := does_perform r task
  generalize r.perform task = r' at hdoes ⊢
  cases hdoes with
  | @fail target pool fault _ faulty =>
    have hstate := Pool.state_reconcile target.toNat r.pool
    rwa [faulty] at hstate
  | @adjust target pool _ fine =>
    have hstate := Pool.state_reconcile target.toNat r.pool
    rw [fine] at hstate
    dsimp only
    split
    · exact hstate
    · exact hstate
  | _ => rfl

/-- What is in the log after a step was there before, or it is in flight now. -/
theorem mem_log_of_step (hw : r.pool.workload = w.logged)
    (hcall : call ∈ r.step.pool.state.2) :
    call ∈ r.pool.state.2 ∨ call ∈ r.step.pool.calls := by
  have hact : ∀ {t : Nat} {u : VirtualUser}, r.pool.next? = some (t, u) →
      call ∈ (r.pool.actAt t u).state.2 →
      call ∈ r.pool.state.2 ∨ call ∈ (r.pool.actAt t u).calls := by
    intro t u hnext hmem
    have hnew := Pool.mem_log_of_act (p := { r.pool with now := max r.pool.now t }) hw
      (Pool.next?_eq_some hnext).1 hmem
    exact hnew.imp_right fun h => h.1
  have hsteps := steps_step r
  generalize r.step = r' at hsteps hcall ⊢
  cases hsteps with
  | user _ next => exact hact next hcall
  | task =>
    rw [performAt, state_perform] at hcall
    exact .inl hcall
  | drain _ next => exact hact next hcall
  | _ => exact .inl hcall

/-- If no invocation in flight ever crashes, none in the log does. -/
theorem not_crash_of_mem_log (hkept : Pool.Kept w r.pool) (hempty : r.pool.state.2 = []) {n : Nat}
    (hnone : ∀ m < n + 1, ∀ cause, ¬ (r.after m).pool.Crashing cause)
    (hcall : call ∈ (r.after n).pool.state.2) : call.2.ending.cause? = none := by
  induction n with
  | zero =>
    rw [after_zero, hempty] at hcall
    cases hcall
  | succ n ih =>
    have hw := (hkept.course (course_after r (Nat.zero_le n))).workload
    rcases mem_log_of_step hw hcall with hold | hnew
    · exact ih (fun m hm => hnone m (Nat.lt_succ_of_lt hm)) hold
    · refine Option.eq_none_iff_forall_ne_some.2 fun cause hcause => ?_
      have hcrash := Ending.cause?_eq_some_iff.1 hcause
      exact hnone (n + 1) (Nat.lt_succ_self _) cause ⟨call, hnew, hcrash⟩

end Run

end StagedLoad
