import StagedLoad.Proofs.Run.Events

/-!
# Runs that are not late

From its beginning on nothing is overdue in a run: no user, and while it follows its schedule no
task.  So it is either a user that acts next, strictly before the next task, or the run does
this task at the very time at which it is due.

## Main definitions

* `Run.Timely` — a run in which nothing is overdue.

## Main results

* `timely_of_prepare`, `Timely.step` — a prepared run is not late, and never becomes so.
* `step_of_first`, `step_of_before` — what a run does next.
-/

namespace StagedLoad.Run

variable {σ : Type} {r : Run σ}

/-- A run whose intervals are not zero and in which neither a user nor a task is overdue. -/
structure Timely (r : Run σ) : Prop where
  intervals : r.plan.pollInterval.isZero = false ∧ r.plan.progressInterval.isZero = false ∧
    ∀ interval, r.plan.evaluationInterval = some interval → interval.isZero = false
  valid : r.pool.Valid
  punctual : r.mode = .idle ∨ r.mode = .running → r.Punctual

theorem timely_of_prepare {config : RunConfig} {workload : Workload σ} {state : σ}
    {reporting : Bool} {aborts : List Nat}
    (h : prepare config workload state reporting aborts = .ok r) : r.Timely := by
  have hintervals := intervals_of_prepare h
  obtain ⟨plan, -, rfl⟩ := prepare_eq_ok h
  exact ⟨hintervals, Pool.valid_fresh _ _ _, fun _ _ _ => Nat.zero_le _⟩

theorem Punctual.perform (h : r.Punctual)
    (hmode : (r.whenDue.perform r.nextTask.2).mode = .running) :
    (r.whenDue.perform r.nextTask.2).Punctual := by
  obtain ⟨hplan, haborts⟩ := frame_perform r.whenDue r.nextTask.2
  have hnow := (pool_perform r.whenDue r.nextTask.2).1.trans h.now_whenDue
  have hdoes := does_perform r.whenDue r.nextTask.2
  generalize r.nextTask.2 = task at hplan haborts hnow hdoes hmode ⊢
  generalize r.whenDue.perform task = r' at hplan haborts hnow hdoes hmode ⊢
  cases hdoes with
  | complete | fail | abort | obey => cases hmode
  | adjust =>
    exact Punctual.next hnow hplan haborts rfl (Nat.le_succ _) (Nat.le_refl _) (Nat.le_refl _)
  | tell =>
    exact Punctual.next hnow hplan haborts rfl (Nat.le_refl _) (Nat.le_succ _) (Nat.le_refl _)
  | judge =>
    exact Punctual.next hnow hplan haborts rfl (Nat.le_refl _) (Nat.le_refl _) (Nat.le_succ _)

theorem Timely.step (h : r.Timely) : r.step.Timely := by
  have hsteps := steps_step r
  refine ⟨?_, (course_step r).valid h.valid, ?_⟩
  · rw [(frame_step r).1]
    exact h.intervals
  · generalize r.step = r' at hsteps
    intro hmode
    cases hsteps with
    | begin idle => exact h.punctual (.inl idle)
    | user running _ before => exact (h.punctual (.inr running)).user before
    | task running =>
      rw [performAt_nextTask] at hmode ⊢
      refine (h.punctual (.inr running)).perform ?_
      have hdoes := does_perform r.whenDue r.nextTask.2
      generalize r.nextTask.2 = task at hdoes hmode ⊢
      generalize r.whenDue.perform task = r' at hdoes hmode ⊢
      cases hdoes with
      | complete | fail | abort | obey => simp [stopFor] at hmode
      | adjust | tell | judge => exact running
    | drain draining => simp [draining] at hmode
    | finish => simp [finish] at hmode
    | rest isOver =>
      obtain ⟨result, hover⟩ := isOver
      simp [hover] at hmode

theorem Timely.after (h : r.Timely) (n : Nat) : (r.after n).Timely :=
  after_preserves (fun _ h => h.step) h n

/-! ### What a run does next -/

theorem step_of_first (hmode : r.mode = .running) (hfirst : r.pool.NoneDueBefore r.nextTask.1) :
    r.step = r.whenDue.perform r.nextTask.2 := by
  have hsteps := steps_step r
  generalize r.step = r' at hsteps ⊢
  cases hsteps with
  | task => exact performAt_nextTask r
  | @user t u _ next before =>
    obtain ⟨hmem, hdue, -⟩ := Pool.next?_eq_some next
    have := hfirst u hmem t hdue
    omega
  | begin other | drain other | finish other => rw [hmode] at other; cases other
  | rest isOver =>
    obtain ⟨result, hover⟩ := isOver
    rw [hmode] at hover
    cases hover

theorem step_of_before {t : Nat} {u : VirtualUser} (hmode : r.mode = .running)
    (hnext : r.pool.next? = some (t, u)) (hbefore : t < r.nextTask.1) :
    r.step = { r with pool := r.pool.actAt t u } := by
  have hstep : r.step = r.stepRunning := by simp only [step, hmode]
  rw [hstep]
  simp only [stepRunning, hnext, if_pos hbefore]

end StagedLoad.Run
