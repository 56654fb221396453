import StagedLoad.Proofs.Pool.Drain
import StagedLoad.Run.Controller

/-!
# The steps of a run

A run is the sequence of what it is after no step, after one step, and so on.  Every step is
one of six things, and to the pool of the run it is a course.

## Main definitions

* `Run.after` — a run after some steps.
* `Run.Steps`, `Run.Does` — what one step can be, and what doing a task can be.
* `Run.IsOver` — a run that has a result.
* `Run.Closing` — what a run that has stopped has done to its pool.

## Main results

* `steps_step`, `does_perform` — a step is one of those things, and so is doing a task.
* `course_after` — what a run does to its pool is a course.
* `execute?_eq_some` — executing a run finds the first step after which it has a result.
* `Closing.after` — in the end everyone has left.
-/

namespace StagedLoad.Run

variable {σ : Type} {r r' : Run σ} {m n : Nat}

/-! ### Sequences of steps -/

/-- A run after some steps. -/
def after (r : Run σ) : Nat → Run σ
  | 0 => r
  | n + 1 => (after r n).step

@[simp] theorem after_zero (r : Run σ) : r.after 0 = r := rfl
@[simp] theorem after_succ (r : Run σ) (n : Nat) : r.after (n + 1) = (r.after n).step := rfl

theorem after_step (r : Run σ) (n : Nat) : r.step.after n = r.after (n + 1) := by
  induction n with
  | zero => rfl
  | succ n ih => rw [after_succ, ih]; rfl

theorem after_add (r : Run σ) (m n : Nat) : r.after (m + n) = (r.after m).after n := by
  induction n with
  | zero => rfl
  | succ n ih => rw [Nat.add_succ, after_succ, ih, after_succ]

/-- What holds of a run and is preserved by every step holds after any number of steps. -/
theorem after_preserves {P : Run σ → Prop} (step : ∀ r, P r → P r.step) (h : P r) (n : Nat) :
    P (r.after n) := by
  induction n with
  | zero => exact h
  | succ n ih => exact step _ ih

/-- A run that has a result. -/
def IsOver (r : Run σ) : Prop := ∃ result, r.mode = .ended result

theorem step_of_isOver (h : r.IsOver) : r.step = r := by
  obtain ⟨result, hmode⟩ := h
  rw [step, hmode]

theorem after_of_isOver (h : r.IsOver) (n : Nat) : r.after n = r := by
  induction n with
  | zero => rfl
  | succ n ih => rw [after_succ, ih, step_of_isOver h]

/-- Once a run is over it stays as it is. -/
theorem after_eq_of_isOver (h : (r.after m).IsOver) (hmn : m ≤ n) : r.after n = r.after m := by
  obtain ⟨k, rfl⟩ := Nat.exists_eq_add_of_le hmn
  rw [after_add, after_of_isOver h]

theorem execute?_of_not_isOver (h : ¬ r.IsOver) (fuel : Nat) :
    execute? (fuel + 1) r = execute? fuel r.step := by
  unfold execute?
  split
  case h_1 result hmode => exact absurd ⟨result, hmode⟩ h
  case h_2 => cases fuel <;> rfl

theorem execute?_of_ended {result : Except PoolFault RunReport} (h : r.mode = .ended result)
    (fuel : Nat) : execute? (fuel + 1) r = some (r, result) := by
  unfold execute?
  rw [h]

/-- Executing a run finds the first step after which it has a result. -/
theorem execute?_eq_some {fuel : Nat} {result : Except PoolFault RunReport} :
    execute? fuel r = some (r', result) ↔ ∃ n < fuel, r.after n = r' ∧
      r'.mode = .ended result ∧ ∀ m < n, ¬ (r.after m).IsOver := by
  induction fuel generalizing r with
  | zero => simp [execute?]
  | succ fuel ih =>
    by_cases hover : r.IsOver
    · obtain ⟨result', hmode⟩ := hover
      rw [execute?_of_ended hmode]
      constructor
      · intro h
        cases h
        exact ⟨0, Nat.succ_pos _, rfl, hmode, by simp⟩
      · rintro ⟨n, -, rfl, hended, hfirst⟩
        cases n with
        | zero => rw [after_zero, hmode] at hended; cases hended; rfl
        | succ n => exact absurd ⟨result', hmode⟩ (hfirst 0 (Nat.succ_pos _))
    · rw [execute?_of_not_isOver hover, ih]
      simp only [after_step]
      constructor
      · -- what happens after `n` steps of the next run happens after `n + 1` of this one
        rintro ⟨n, hn, hafter, hmode, hfirst⟩
        refine ⟨n + 1, by omega, hafter, hmode, ?_⟩
        intro m hm
        cases m with
        | zero => exact hover
        | succ m => exact hfirst m (by omega)
      · rintro ⟨n, hn, rfl, hmode, hfirst⟩
        cases n with
        | zero => exact absurd ⟨result, hmode⟩ hover
        | succ n => exact ⟨n, by omega, rfl, hmode, fun m hm => hfirst (m + 1) (by omega)⟩

/-- A run that is over after some steps can be executed. -/
theorem execute?_isSome {result : Except PoolFault RunReport}
    (h : (r.after n).mode = .ended result) :
    ∃ fuel, execute? fuel r = some (r.after n, result) := by
  induction n generalizing r with
  | zero => exact ⟨1, execute?_of_ended h 0⟩
  | succ n ih =>
    by_cases hover : r.IsOver
    · rw [after_of_isOver hover] at h ⊢
      exact ⟨1, execute?_of_ended h 0⟩
    · obtain ⟨fuel, hfuel⟩ := ih (r := r.step) (by rw [after_step]; exact h)
      exact ⟨fuel + 1, by rw [execute?_of_not_isOver hover, hfuel, after_step]⟩

/-! ### What a step can be -/

/-- What one step can be. -/
inductive Steps (r : Run σ) : Run σ → Prop
  /-- The run begins. -/
  | begin (idle : r.mode = .idle) : Steps r { r with mode := .running }
  /-- A user acts before the run has something to do. -/
  | user {t : Nat} {u : VirtualUser} (running : r.mode = .running)
      (next : r.pool.next? = some (t, u)) (before : t < r.nextTask.1) :
      Steps r { r with pool := r.pool.actAt t u }
  /-- The run does what is due, before any user acts. -/
  | task (running : r.mode = .running) (first : r.pool.NoneDueBefore r.nextTask.1) :
      Steps r (r.performAt r.nextTask.1 r.nextTask.2)
  /-- A user acts after the run has stopped. -/
  | drain {cause : Except PoolFault StopReason} {t : Nat} {u : VirtualUser}
      (draining : r.mode = .draining cause) (next : r.pool.next? = some (t, u)) :
      Steps r { r with pool := r.pool.actAt t u }
  /-- Everyone has left. -/
  | finish {cause : Except PoolFault StopReason} (draining : r.mode = .draining cause)
      (none : r.pool.next? = none) : Steps r (r.finish cause)
  /-- The run is over. -/
  | rest (isOver : r.IsOver) : Steps r r

theorem steps_stepRunning (hmode : r.mode = .running) : Steps r r.stepRunning := by
  unfold stepRunning
  dsimp only
  split
  case h_1 t u hnext =>
    split
    case isTrue ht => exact .user hmode hnext ht
    case isFalse ht =>
      refine .task hmode ?_
      intro v hv d hd
      exact Nat.le_trans (Nat.le_of_not_lt ht) ((Pool.next?_eq_some hnext).2.2 v hv d hd)
  case h_2 hnext => exact .task hmode (Pool.noneDueBefore_of_next?_eq_none hnext _)

/-- A step is one of six things. -/
theorem steps_step (r : Run σ) : Steps r r.step := by
  unfold step
  split
  case h_1 hmode => exact .begin hmode
  case h_2 hmode => exact steps_stepRunning hmode
  case h_3 cause hmode =>
    cases hnext : r.pool.next? with
    | none =>
      rw [Pool.step?, hnext]
      exact .finish hmode hnext
    | some x =>
      rw [Pool.step?, hnext]
      exact .drain hmode hnext
  case h_4 result hmode => exact .rest ⟨result, hmode⟩

/-- What doing a task can be. -/
inductive Does (r : Run σ) : Task → Run σ → Prop
  /-- The schedule is over. -/
  | complete (isOver : r.plan.schedule.targetAt r.elapsed = .completed) :
      Does r .poll (r.stopFor (.ok .scheduleCompleted))
  /-- The pool is at fault. -/
  | fail {target : UInt64} {pool : Pool σ} {fault : PoolFault}
      (active : r.plan.schedule.targetAt r.elapsed = .active target)
      (faulty : r.pool.reconcile target.toNat = (pool, some fault)) :
      Does r .poll ({ r with pool }.stopFor (.error fault))
  /-- There are as many live users as there should be. -/
  | adjust {target : UInt64} {pool : Pool σ}
      (active : r.plan.schedule.targetAt r.elapsed = .active target)
      (fine : r.pool.reconcile target.toNat = (pool, none)) :
      Does r .poll { r with
        pool := if r.polls = 0 then pool.start else pool, polls := r.polls + 1 }
  /-- The run tells of its progress. -/
  | tell : Does r .tell r.tell
  /-- The judgement says that the run must stop. -/
  | abort (fails : r.evaluation.shouldAbort = true) :
      Does r .judge (r.stopFor (.ok .thresholdAbort))
  /-- The judgement lets the run go on. -/
  | judge (holds : r.evaluation.shouldAbort = false) :
      Does r .judge { r with evaluations := r.evaluations + 1 }
  /-- The run is asked to stop. -/
  | obey : Does r .obey (r.stopFor (.ok .aborted))

/-- Bringing the users in line with the schedule is one of three things. -/
theorem does_poll (r : Run σ) : Does r .poll r.poll := by
  cases htarget : r.plan.schedule.targetAt r.elapsed with
  | completed =>
    have hpoll : r.poll = r.stopFor (.ok .scheduleCompleted) := by
      rw [poll, htarget]
      rfl
    rw [hpoll]
    exact .complete htarget
  | active target =>
    obtain ⟨pool, fault, hreconcile⟩ : ∃ pool fault,
        r.pool.reconcile target.toNat = (pool, fault) := ⟨_, _, rfl⟩
    cases fault with
    | some fault =>
      have hpoll : r.poll = { r with pool }.stopFor (.error fault) := by
        rw [poll, htarget]
        simp only [ScheduleTarget.users?, hreconcile]
      rw [hpoll]
      exact .fail htarget hreconcile
    | none =>
      have hpoll : r.poll = { r with
          pool := if r.polls = 0 then pool.start else pool, polls := r.polls + 1 } := by
        rw [poll, htarget]
        simp only [ScheduleTarget.users?, hreconcile]
      rw [hpoll]
      exact .adjust htarget hreconcile

/-- Doing a task is one of seven things. -/
theorem does_perform (r : Run σ) (task : Task) : Does r task (r.perform task) := by
  cases task with
  | poll => exact does_poll r
  | tell => exact .tell
  | judge =>
    unfold perform judge
    dsimp only
    split
    case isTrue fails => exact .abort fails
    case isFalse holds => exact .judge (by simpa using holds)
  | obey => exact .obey

/-! ### Steps are courses -/

theorem course_perform (r : Run σ) (task : Task) : Pool.Course r.pool (r.perform task).pool := by
  have hdoes := does_perform r task
  generalize r.perform task = r' at hdoes ⊢
  cases hdoes with
  | complete | abort | obey => exact Pool.course_abandon _
  | @fail target pool fault _ faulty =>
    have hcourse := Pool.course_reconcile r.pool target.toNat
    rw [faulty] at hcourse
    exact hcourse.trans (Pool.course_abandon pool)
  | @adjust target pool _ fine =>
    have hcourse := Pool.course_reconcile r.pool target.toNat
    rw [fine] at hcourse
    dsimp only at hcourse ⊢
    split
    · exact hcourse.tail .start
    · exact hcourse
  | tell | judge => exact .refl

/-- What a step does to the pool is a course. -/
theorem course_step (r : Run σ) : Pool.Course r.pool r.step.pool := by
  have hsteps := steps_step r
  generalize r.step = r' at hsteps ⊢
  cases hsteps with
  | begin => exact .refl
  | user _ next => exact Pool.course_actAt next
  | task _ first => exact (Relation.ReflTransGen.single (.pass first)).trans (course_perform _ _)
  | drain _ next => exact Pool.course_actAt next
  | finish => exact .single (Pool.move_settle _)
  | rest => exact .refl

/-- What a run does to its pool is a course. -/
theorem course_after (r : Run σ) (h : m ≤ n) :
    Pool.Course (r.after m).pool (r.after n).pool := by
  induction h with
  | refl => exact .refl
  | step _ ih => exact ih.trans (course_step _)

/-! ### What never changes -/

theorem frame_perform (r : Run σ) (task : Task) :
    (r.perform task).plan = r.plan ∧ (r.perform task).aborts = r.aborts := by
  have hdoes := does_perform r task
  generalize r.perform task = r' at hdoes ⊢
  cases hdoes <;> exact ⟨rfl, rfl⟩

/-- A run follows one plan and obeys the same requests to stop all the time. -/
theorem frame_step (r : Run σ) : r.step.plan = r.plan ∧ r.step.aborts = r.aborts := by
  have hsteps := steps_step r
  generalize r.step = r' at hsteps ⊢
  cases hsteps with
  | task => exact frame_perform _ _
  | _ => exact ⟨rfl, rfl⟩

theorem plan_after (r : Run σ) (n : Nat) : (r.after n).plan = r.plan := by
  induction n with
  | zero => rfl
  | succ n ih => rw [after_succ, (frame_step _).1, ih]

theorem aborts_after (r : Run σ) (n : Nat) : (r.after n).aborts = r.aborts := by
  induction n with
  | zero => rfl
  | succ n ih => rw [after_succ, (frame_step _).2, ih]

/-! ### What stopping leaves -/

/-- A run that waits for its users has stopped its pool and given up its users, and in the end
everyone has left. -/
structure Closing (r : Run σ) : Prop where
  /-- Nobody begins anything anymore. -/
  draining : ∀ cause, r.mode = .draining cause → r.pool.stopped = true ∧ r.pool.live = []
  /-- Nobody is left. -/
  atEnd : r.IsOver → r.pool.Emptied ∧ r.pool.running = 0

theorem closing_stopFor (r : Run σ) (cause : Except PoolFault StopReason) :
    (r.stopFor cause).Closing :=
  ⟨fun _ _ => ⟨rfl, rfl⟩, fun ⟨_, h⟩ => (by cases h)⟩

theorem closing_of_running (h : r.mode = .running) : r.Closing :=
  ⟨fun cause hcause => (by rw [h] at hcause; cases hcause),
    fun ⟨_, hover⟩ => (by rw [h] at hover; cases hover)⟩

theorem closing_perform (h : r.mode = .running) (task : Task) : (r.perform task).Closing := by
  have hdoes := does_perform r task
  generalize r.perform task = r' at hdoes ⊢
  cases hdoes with
  | complete | fail | abort | obey => exact closing_stopFor _ _
  | adjust | tell | judge => exact closing_of_running h

theorem Closing.step (h : r.Closing) : r.step.Closing := by
  have hsteps := steps_step r
  generalize r.step = r' at hsteps ⊢
  cases hsteps with
  | begin => exact closing_of_running rfl
  | user running => exact closing_of_running running
  | task running =>
    exact closing_perform (r := { r with
      pool := { r.pool with now := max r.pool.now r.nextTask.1 } }) running r.nextTask.2
  | @drain cause t u draining next =>
    have hpool := (Pool.course_actAt next).preserves (fun _ _ => Pool.live_eq_nil_of_move)
      (h.draining cause draining)
    exact ⟨fun _ _ => hpool, fun ⟨_, hover⟩ => (by rw [draining] at hover; cases hover)⟩
  | @finish cause draining none =>
    have hempty := Pool.emptied_of_next?_eq_none (h.draining cause draining) none
    refine ⟨fun _ hcause => (by cases hcause), fun _ => ⟨hempty.move (Pool.move_settle _), ?_⟩⟩
    simp [finish, Pool.settle, Pool.running, hempty.users]
  | rest => exact h

theorem Closing.after (h : r.Closing) (n : Nat) : (r.after n).Closing :=
  after_preserves (fun _ h => h.step) h n

/-! ### Prepared runs -/

/-- A prepared run is about to begin, with a pool that nobody has come into. -/
theorem prepare_eq_ok {config : RunConfig} {workload : Workload σ} {state : σ} {reporting : Bool}
    {aborts : List Nat} (h : prepare config workload state reporting aborts = .ok r) :
    ∃ plan, config.validate workload.declared = .ok plan ∧ r =
      { plan, pool := { workload, state, thinkTime := plan.thinkTime }, reporting, aborts } := by
  unfold prepare at h
  cases hplan : config.validate workload.declared with
  | error e => rw [hplan] at h; cases h
  | ok plan => rw [hplan] at h; cases h; exact ⟨plan, rfl, rfl⟩

theorem closing_of_prepare {config : RunConfig} {workload : Workload σ} {state : σ}
    {reporting : Bool} {aborts : List Nat}
    (h : prepare config workload state reporting aborts = .ok r) : r.Closing := by
  obtain ⟨plan, -, rfl⟩ := prepare_eq_ok h
  exact ⟨fun _ hcause => (by cases hcause), fun ⟨_, hover⟩ => (by cases hover)⟩

end StagedLoad.Run
