import Mathlib.Order.Monotone.Basic
import Mathlib.Order.Nat
import StagedLoad.Proofs.Pool.Remainder
import StagedLoad.Proofs.Run.Launch

/-!
# How a run ends

A run begins, follows its schedule, waits for its users, and ends.  It ends with a report
exactly if no invocation crashed, whichever user it was of and whenever that was, and else with
the fault that a user crashed.

## Main definitions

* `Run.Faithful` — what a run knows about the crashes so far.
* `Run.stage` — how far a run has come.

## Main results

* `Faithful.step` — no crash is lost, and none is made up.
* `exists_phases` — the phases of a run that ends.
* `draining_induction` — the users of a run that has stopped leave one by one.
* `ends_of_draining` — a run that has stopped ends, and its report is settled when it stops.
-/

namespace StagedLoad.Run

variable {σ : Type} {r r' : Run σ} {crashed : String → Prop} {m n : Nat}

/-! ### No crash is lost -/

/-- What a run knows about the causes for which invocations crash that have been begun: while it
follows its schedule or waits for its users, such an invocation is in flight or its user has not
been looked after, and a fault is a crash for one of these causes. -/
def Faithful (r : Run σ) (crashed : String → Prop) : Prop :=
  match r.mode with
  | .idle => r.pool.Sound ∧ ∀ cause, r.pool.Tainted cause ↔ crashed cause
  | .running => r.pool.Sound ∧ ∀ cause, r.pool.Tainted cause ↔ crashed cause
  | .draining (.ok _) => r.pool.Valid ∧ ∀ cause, r.pool.Tainted cause ↔ crashed cause
  | .draining (.error fault) => ∃ cause, fault = .crash cause ∧ crashed cause
  | .ended (.ok _) => r.pool.users = [] ∧ ∀ cause, ¬ crashed cause
  | .ended (.error fault) => ∃ cause, fault = .crash cause ∧ crashed cause

/-- A crash in flight taints the pool, so it need not be counted again. -/
theorem tainted_iff_or_crashing {p : Pool σ} (h : ∀ cause, p.Tainted cause ↔ crashed cause)
    (cause : String) : p.Tainted cause ↔ crashed cause ∨ p.Crashing cause :=
  ⟨fun ht => .inl ((h cause).1 ht), fun hc => hc.elim (h cause).2 .inl⟩

theorem faithful_stopFor (reason : StopReason) (hvalid : r.pool.Valid)
    (h : ∀ cause, r.pool.Tainted cause ↔ crashed cause) :
    (r.stopFor (.ok reason)).Faithful fun cause =>
      crashed cause ∨ (r.stopFor (.ok reason)).pool.Crashing cause :=
  ⟨(Pool.course_abandon r.pool).valid hvalid, tainted_iff_or_crashing h⟩

/-- What a run does while it follows its schedule loses no crash: whatever fault it finds is
one. -/
theorem faithful_perform (hmode : r.mode = .running) (hsound : r.pool.Sound)
    (h : ∀ cause, r.pool.Tainted cause ↔ crashed cause) (task : Task) :
    (r.perform task).Faithful fun cause =>
      crashed cause ∨ (r.perform task).pool.Crashing cause := by
  have hstay : ∀ {r' : Run σ}, r'.mode = .running → r'.pool.Sound →
      (∀ cause, r'.pool.Tainted cause ↔ crashed cause) →
      r'.Faithful fun cause => crashed cause ∨ r'.pool.Crashing cause := by
    intro r' hmode' hsound' htainted'
    rw [Faithful]
    simp only [hmode']
    exact ⟨hsound', tainted_iff_or_crashing htainted'⟩
  have hdoes := does_perform r task
  generalize r.perform task = r' at hdoes ⊢
  cases hdoes with
  | complete | abort | obey => exact faithful_stopFor _ hsound.valid h
  | fail _ faulty =>
    obtain ⟨cause, hfault, hcrashed⟩ := Pool.reconcile_some hsound.valid hsound.accounted faulty
    exact ⟨cause, hfault, .inl ((h cause).1 (.inr hcrashed))⟩
  | @adjust target pool _ fine =>
    obtain ⟨hpool, htainted⟩ := hsound.reconcile fine
    have hstart : (if r.polls = 0 then pool.start else pool).Sound ∧ ∀ cause,
        (if r.polls = 0 then pool.start else pool).Tainted cause ↔ crashed cause := by
      split
      · exact ⟨hpool.start, fun cause => (htainted cause).trans (h cause)⟩
      · exact ⟨hpool, fun cause => (htainted cause).trans (h cause)⟩
    exact hstay hmode hstart.1 hstart.2
  | tell | judge => exact hstay hmode hsound h

theorem mode_finish_of_crashed (reason : StopReason) {cause : String}
    (h : r.pool.Crashed cause) : ∃ cause,
      (r.finish (.ok reason)).mode = .ended (.error (.crash cause)) ∧ r.pool.Crashed cause := by
  obtain ⟨first, hsettle, hcrashed⟩ := Pool.settle_of_crashed h
  exact ⟨first, by rw [finish, hsettle], hcrashed⟩

theorem mode_finish_of_not_crashed (reason : StopReason) (h : ∀ cause, ¬ r.pool.Crashed cause) :
    (r.finish (.ok reason)).mode = .ended (.ok (RunReport.ofSamples r.plan
      r.pool.recorder.snapshot reason r.elapsed r.pool.peak)) := by
  rw [finish, Pool.settle_of_not_crashed h]

/-- When everyone has left, a run knows about all crashes. -/
theorem Faithful.finish {why : Except PoolFault StopReason} (h : r.Faithful crashed)
    (hmode : r.mode = .draining why) (husers : r.pool.users = []) :
    (r.finish why).Faithful fun cause => crashed cause ∨ r.pool.Crashing cause := by
  have hquiet : ∀ cause, ¬ r.pool.Crashing cause :=
    fun _ => Pool.not_crashing_of_users_eq_nil husers
  rw [Faithful] at h
  simp only [hmode] at h
  cases why with
  | error fault => exact h.imp fun _ => And.imp_right .inl
  | ok reason =>
    -- nothing is in flight anymore, so a crash has not been looked after, and now it is found
    have hcrashed : ∀ cause, r.pool.Crashed cause ↔ crashed cause :=
      fun cause => (or_iff_right (hquiet cause)).symm.trans (h.2 cause)
    by_cases hc : ∃ cause, r.pool.Crashed cause
    · obtain ⟨cause, hfinish, hfirst⟩ := mode_finish_of_crashed reason hc.choose_spec
      rw [Faithful, hfinish]
      exact ⟨cause, rfl, .inl ((hcrashed cause).1 hfirst)⟩
    · have hfine := not_exists.1 hc
      rw [Faithful, mode_finish_of_not_crashed reason hfine]
      exact ⟨husers, fun cause => not_or.2 ⟨mt (hcrashed cause).2 (hfine cause), hquiet cause⟩⟩

/-- No crash is lost in a step, and none is made up. -/
theorem Faithful.step (h : r.Faithful crashed) (hclosing : r.Closing) :
    r.step.Faithful fun cause => crashed cause ∨ r.step.pool.Crashing cause := by
  have hsteps := steps_step r
  generalize r.step = r' at hsteps ⊢
  have hknown := h
  rw [Faithful] at h
  cases hsteps with
  | begin idle =>
    simp only [idle] at h
    exact ⟨h.1, tainted_iff_or_crashing h.2⟩
  | @user t u running next =>
    simp only [running] at h
    rw [Faithful]
    simp only [running]
    exact ⟨h.1.actAt next,
      fun cause => (Pool.tainted_actAt h.1.valid next).trans (or_congr_left (h.2 cause))⟩
  | task running first =>
    simp only [running] at h
    exact faithful_perform (r := { r with
      pool := { r.pool with now := max r.pool.now r.nextTask.1 } }) running (h.1.pass first) h.2 _
  | @drain why t u draining next =>
    simp only [draining] at h
    rw [Faithful]
    simp only [draining]
    cases why with
    | error fault => exact h.imp fun _ => And.imp_right .inl
    | ok reason =>
      exact ⟨(Pool.course_actAt next).valid h.1,
        fun cause => (Pool.tainted_actAt h.1 next).trans (or_congr_left (h.2 cause))⟩
  | @finish why draining none =>
    have husers := Pool.users_eq_nil_of_next?_eq_none (hclosing.draining why draining).1 none
    exact hknown.finish draining husers
  | rest isOver =>
    obtain ⟨result, hmode⟩ := isOver
    simp only [hmode] at h
    rw [Faithful]
    simp only [hmode]
    cases result with
    | error fault => exact h.imp fun _ => And.imp_right .inl
    | ok report =>
      exact ⟨h.1, fun cause => not_or.2 ⟨h.2 cause, Pool.not_crashing_of_users_eq_nil h.1⟩⟩

/-- What a run knows after some steps is for which causes invocations crash that have been
begun. -/
theorem Faithful.after (h : r.Faithful r.pool.Crashing) (hclosing : r.Closing) (n : Nat) :
    (r.after n).Faithful fun cause => ∃ m < n + 1, (r.after m).pool.Crashing cause := by
  induction n with
  | zero => simpa using h
  | succ n ih =>
    have hstep := ih.step (hclosing.after n)
    simpa only [← after_succ, ← Nat.exists_lt_succ_right] using hstep

/-! ### The phases of a run -/

/-- How far a run has come. -/
def stage (r : Run σ) : Nat :=
  match r.mode with
  | .idle => 0
  | .running => 1
  | .draining _ => 2
  | .ended _ => 3

theorem stage_eq_three : r.stage = 3 ↔ r.IsOver := by
  unfold stage IsOver
  cases r.mode <;> simp

theorem stage_le_three (r : Run σ) : r.stage ≤ 3 := by
  unfold stage
  split <;> omega

theorem phase_of_stage_eq_one (h : r.stage = 1) : r.phase = .running := by
  unfold stage at h
  unfold phase
  cases hmode : r.mode <;> simp_all

theorem phase_of_stage_eq_two (h : r.stage = 2) : r.phase = .draining := by
  unfold stage at h
  unfold phase
  cases hmode : r.mode <;> simp_all

theorem mode_of_phase_eq_running (h : r.phase = .running) : r.mode = .running := by
  unfold phase at h
  split at h
  case h_2 hmode => exact hmode
  all_goals cases h

theorem mode_of_phase_eq_draining (h : r.phase = .draining) :
    ∃ cause, r.mode = .draining cause := by
  unfold phase at h
  split at h
  case h_3 cause hmode => exact ⟨cause, hmode⟩
  all_goals cases h

/-- What a run does either lets it go on or stops it. -/
theorem mode_perform (r : Run σ) (task : Task) :
    (r.perform task).mode = r.mode ∨ ∃ cause, (r.perform task).mode = .draining cause := by
  have hdoes := does_perform r task
  generalize r.perform task = r' at hdoes ⊢
  cases hdoes with
  | complete | fail | abort | obey => exact .inr ⟨_, rfl⟩
  | adjust | tell | judge => exact .inl rfl

/-- A run never goes back, and it leaves no stage out. -/
theorem stage_step (r : Run σ) :
    r.stage ≤ r.step.stage ∧ r.step.stage ≤ r.stage + 1 ∧ (r.stage = 0 → r.step.stage = 1) := by
  have hsteps := steps_step r
  generalize r.step = r' at hsteps ⊢
  cases hsteps with
  | begin idle => simp [stage, idle]
  | user running => simp [stage, running]
  | task running =>
    have hmode := mode_perform
      ({ r with pool := { r.pool with now := max r.pool.now r.nextTask.1 } } : Run σ) r.nextTask.2
    rw [← performAt] at hmode
    rcases hmode with hmode | ⟨cause, hmode⟩
    · simp [stage, hmode, running]
    · simp [stage, hmode, running]
  | drain draining => simp [stage, draining]
  | finish draining => simp [stage, draining, finish]
  | rest isOver => simp [stage_eq_three.2 isOver]

theorem stage_mono (r : Run σ) {m n : Nat} (h : m ≤ n) :
    (r.after m).stage ≤ (r.after n).stage :=
  monotone_nat_of_le_succ (f := fun i => (r.after i).stage)
    (fun i => (stage_step (r.after i)).1) h

theorem stage_eq_one : r.stage = 1 ↔ r.mode = .running := by
  unfold stage
  cases r.mode <;> simp

/-- A run that follows its schedule did so before, unless it had not begun. -/
theorem running_of_succ (hn : 0 < n) (h : (r.after (n + 1)).mode = .running) :
    (r.after n).mode = .running := by
  obtain ⟨k, rfl⟩ : ∃ k, n = k + 1 := ⟨n - 1, by omega⟩
  have hbegun : (r.after (k + 1)).stage ≠ 0 := by
    have hstep := stage_step (r.after k)
    rw [← after_succ] at hstep
    omega
  have hle := stage_mono r (Nat.le_succ (k + 1))
  rw [stage_eq_one.2 h] at hle
  exact stage_eq_one.1 (by omega)

/-- A run that is over after some steps, and not before, was following its schedule from the
first step on, and later waiting for its users. -/
theorem exists_phases (hidle : r.mode = .idle) (hover : (r.after n).IsOver)
    (hfirst : ∀ m < n, ¬ (r.after m).IsOver) :
    ∃ a, 1 < a ∧ a < n ∧ (∀ i, 1 ≤ i → i < a → (r.after i).phase = .running) ∧
      ∀ i, a ≤ i → i < n → (r.after i).phase = .draining := by
  have hmono : ∀ {i j : Nat}, i ≤ j → (r.after i).stage ≤ (r.after j).stage := stage_mono r
  have hzero : (r.after 0).stage = 0 := by simp [stage, hidle]
  have hone : (r.after 1).stage = 1 := (stage_step r).2.2 hzero
  have hend : (r.after n).stage = 3 := stage_eq_three.2 hover
  have hstop : ∃ i, 2 ≤ (r.after i).stage := ⟨n, by omega⟩
  -- the first time at which the run does not follow its schedule anymore
  obtain ⟨a, ha, hbefore⟩ : ∃ a, 2 ≤ (r.after a).stage ∧ ∀ i < a, (r.after i).stage < 2 :=
    ⟨Nat.find hstop, Nat.find_spec hstop, fun i hi => Nat.lt_of_not_le (Nat.find_min hstop hi)⟩
  obtain ⟨k, rfl⟩ : ∃ k, a = k + 1 := ⟨a - 1, by rcases a with _ | a <;> omega⟩
  have hk : 1 ≤ k := by
    rcases k with _ | k
    · exact absurd (ha.trans (Nat.le_of_eq hone)) (by decide)
    · omega
  have hlast := hbefore k (Nat.lt_succ_self k)
  have hturn : (r.after (k + 1)).stage ≤ (r.after k).stage + 1 := (stage_step (r.after k)).2.1
  have hkn : k + 1 < n := by
    rcases Nat.lt_or_ge (k + 1) n with hlt | hge
    · exact hlt
    · have : (r.after n).stage ≤ (r.after (k + 1)).stage := hmono hge
      omega
  refine ⟨k + 1, by omega, hkn, ?_, ?_⟩
  · intro i hi hik
    have hfrom : (r.after 1).stage ≤ (r.after i).stage := hmono hi
    have hto := hbefore i hik
    exact phase_of_stage_eq_one (by omega)
  · intro i hik hin
    have hfrom : (r.after (k + 1)).stage ≤ (r.after i).stage := hmono hik
    have hto := stage_le_three (r.after i)
    have hnot := mt stage_eq_three.1 (hfirst i hin)
    exact phase_of_stage_eq_two (by omega)

/-! ### How a run ends -/

/-- What holds of a run without users, and of a run with users if it does when one of them has
left, holds of every run that has stopped. -/
theorem draining_induction {cause : Except PoolFault StopReason} {motive : Run σ → Prop}
    (empty : ∀ r : Run σ, r.pool.stopped = true → r.pool.next? = none → r.step = r.finish cause →
      motive r)
    (leave : ∀ (r : Run σ) (t : Nat) (u : VirtualUser), r.pool.stopped = true →
      r.pool.next? = some (t, u) → r.step = { r with pool := r.pool.actAt t u } →
      motive r.step → motive r)
    (hclosing : r.Closing) (hmode : r.mode = .draining cause) : motive r := by
  -- every user that acts leaves, so the induction is on their number
  generalize hlength : r.pool.users.length = length
  induction length using Nat.strong_induction_on generalizing r with
  | _ length ih =>
    have hstopped := (hclosing.draining _ hmode).1
    cases hnext : r.pool.next? with
    | none =>
      refine empty r hstopped hnext ?_
      rw [step, hmode]
      dsimp only
      rw [Pool.step?, hnext]
      rfl
    | some x =>
      obtain ⟨t, u⟩ := x
      have hstep : r.step = { r with pool := r.pool.actAt t u } := by
        rw [step, hmode]
        dsimp only
        rw [Pool.step?, hnext]
        rfl
      have hfewer : r.step.pool.users.length < length := by
        rw [hstep, ← hlength]
        exact Pool.length_users_act_lt (p := { r.pool with now := max r.pool.now t }) hstopped
          (Pool.next?_eq_some hnext).1
      have hrest := ih _ hfewer hclosing.step (by rw [hstep]; exact hmode) rfl
      exact leave r t u hstopped hnext hstep hrest

/-- A run that has stopped for a reason ends, and then its report is that of the samples which it
was to have when it stopped, at the time when the last invocation in flight was to end. -/
theorem ends_of_draining (hclosing : r.Closing) (hvalid : r.pool.Valid) {reason : StopReason}
    (hmode : r.mode = .draining (.ok reason)) :
    ∃ n result, (r.after n).mode = .ended result ∧ ∀ report, result = .ok report →
      report = RunReport.ofSamples r.plan r.pool.finalSamples reason
        (Duration.ofMillis r.pool.lastEnd) r.pool.peak := by
  refine draining_induction (motive := fun r => r.pool.Valid → ∃ n result,
    (r.after n).mode = .ended result ∧ ∀ report, result = .ok report →
      report = RunReport.ofSamples r.plan r.pool.finalSamples reason
        (Duration.ofMillis r.pool.lastEnd) r.pool.peak) ?empty ?leave hclosing hmode hvalid
  case empty =>
    intro r hstopped hnext hstep hvalid
    have hafter : r.after 1 = r.finish (.ok reason) := by rw [after_succ, after_zero, hstep]
    by_cases hcrashed : ∃ cause, r.pool.Crashed cause
    · obtain ⟨cause, hfinish, -⟩ := mode_finish_of_crashed reason hcrashed.choose_spec
      exact ⟨1, _, by rw [hafter, hfinish], fun report hreport => (by cases hreport)⟩
    · have hfine := not_exists.1 hcrashed
      refine ⟨1, _, by rw [hafter, mode_finish_of_not_crashed reason hfine], ?_⟩
      intro report hreport
      have hcalls : r.pool.calls = [] := by
        rw [Pool.calls, Pool.users_eq_nil_of_next?_eq_none hstopped hnext]
        rfl
      rw [hvalid.finalSamples_of_calls_eq_nil hcalls, Pool.lastEnd_of_calls_eq_nil hcalls]
      exact (Except.ok.inj hreport).symm
  case leave =>
    intro r t u hstopped hnext hstep ih hvalid
    obtain ⟨n, result, hended, hreport⟩ := ih ((course_step r).valid hvalid)
    refine ⟨n + 1, result, by rwa [← after_step], ?_⟩
    intro report hok
    have hpeak : (r.pool.actAt t u).peak = r.pool.peak := Pool.peak_act _ _
    rw [hreport report hok, hstep]
    dsimp only
    rw [hvalid.finalSamples_actAt hstopped hnext, hvalid.lastEnd_actAt hstopped hnext, hpeak]

theorem faithful_of_prepare {config : RunConfig} {workload : Workload σ} {state : σ}
    {reporting : Bool} {aborts : List Nat}
    (h : prepare config workload state reporting aborts = .ok r) :
    r.Faithful r.pool.Crashing := by
  obtain ⟨plan, -, rfl⟩ := prepare_eq_ok h
  have hfresh := Pool.valid_fresh workload state plan.thinkTime
  refine ⟨⟨hfresh, fun id hid => (by cases hid), rfl⟩, fun cause => ?_⟩
  exact ⟨fun ht => ht.elim id fun ⟨_, hd, _⟩ => (by cases hd), .inl⟩

/-- A run that ends with a report has stopped for a reason.  Nothing that was in flight then has
crashed, and the report is that of the samples which the run was to have. -/
theorem exists_stop_of_report {config : RunConfig} {workload : Workload σ} {state : σ}
    {reporting : Bool} {aborts : List Nat} {fuel : Nat} {report : RunReport}
    (hprepare : prepare config workload state reporting aborts = .ok r)
    (hexecute : execute? fuel r = some (r', .ok report)) :
    ∃ n reason, (r.after n).mode = .running ∧
      (r.after (n + 1)).mode = .draining (.ok reason) ∧ (r.after (n + 1)).pool.Valid ∧
      (∀ cause, ¬ (r.after (n + 1)).pool.Crashing cause) ∧
      report = RunReport.ofSamples r.plan (r.after (n + 1)).pool.finalSamples reason
        (Duration.ofMillis (r.after (n + 1)).pool.lastEnd) (r.after (n + 1)).pool.peak := by
  obtain ⟨b, -, rfl, hmode, hfirst⟩ := execute?_eq_some.1 hexecute
  have hidle : r.mode = .idle := by
    obtain ⟨plan, -, rfl⟩ := prepare_eq_ok hprepare
    rfl
  obtain ⟨a, ha, hab, hrunning, hdraining⟩ := exists_phases hidle ⟨_, hmode⟩ hfirst
  obtain ⟨n, rfl⟩ : ∃ n, a = n + 1 := ⟨a - 1, by omega⟩
  have hrun := mode_of_phase_eq_running (hrunning n (by omega) (Nat.lt_succ_self n))
  obtain ⟨cause, hcause⟩ := mode_of_phase_eq_draining (hdraining (n + 1) (Nat.le_refl _) hab)
  have hclosing := closing_of_prepare hprepare
  have hstopped := (faithful_of_prepare hprepare).after hclosing (n + 1)
  have hended := (faithful_of_prepare hprepare).after hclosing b
  rw [Faithful, hcause] at hstopped
  rw [Faithful, hmode] at hended
  cases cause with
  | error fault =>
    -- a fault is a crash, and after a crash there is no report
    obtain ⟨why, -, m, hm, hcrashing⟩ := hstopped
    exact absurd ⟨m, by omega, hcrashing⟩ (hended.2 why)
  | ok reason =>
    obtain ⟨m, result, hresult, hreport⟩ :=
      ends_of_draining (hclosing.after (n + 1)) hstopped.1 hcause
    rw [← after_add] at hresult
    have hsame : r.after (n + 1 + m) = r.after b := by
      rcases Nat.le_total (n + 1 + m) b with hle | hle
      · exact (after_eq_of_isOver ⟨_, hresult⟩ hle).symm
      · exact after_eq_of_isOver ⟨_, hmode⟩ hle
    rw [hsame, hmode] at hresult
    cases hresult
    refine ⟨n, reason, hrun, hcause, hstopped.1, ?_, ?_⟩
    · intro why hcrashing
      exact hended.2 why ⟨n + 1, by omega, hcrashing⟩
    · rw [hreport report rfl, plan_after]

/-- If no invocation of its workload crashes, none is in flight that does. -/
theorem not_crashing_of_prepare {config : RunConfig} {workload : Workload σ} {state : σ}
    {reporting : Bool} {aborts : List Nat}
    (hprepare : prepare config workload state reporting aborts = .ok r)
    (hworkload : ∀ c s, (workload.invoke c s).1.ending.cause? = none) (n : Nat) (cause : String) :
    ¬ (r.after n).pool.Crashing cause := by
  have hcourse := course_after r (Nat.zero_le n)
  obtain ⟨plan, -, rfl⟩ := prepare_eq_ok hprepare
  refine Pool.not_crashing_of_genuine ((Pool.genuine_of_users_eq_nil rfl).course hcourse) ?_
  intro c s
  rw [hcourse.workload.1]
  exact hworkload c s

section Execution

variable {config : RunConfig} {workload : Workload σ} {state : σ} {reporting : Bool}
  {aborts : List Nat} {fuel : Nat} {result : Except PoolFault RunReport}
  (hprepare : prepare config workload state reporting aborts = .ok r)
  (hexecute : execute? fuel r = some (r', result))

include hprepare hexecute

/-- A run that ends was idle, then followed its schedule, then waited for its users, and then was
over. -/
theorem phases_of_execute? : ∃ a b, 1 < a ∧ a < b ∧ (r.after 0).phase = .idle ∧
    (∀ i, 1 ≤ i → i < a → (r.after i).phase = .running) ∧
    (∀ i, a ≤ i → i < b → (r.after i).phase = .draining) ∧
    (∀ i, b ≤ i → r.after i = r') ∧ r'.mode = .ended result := by
  obtain ⟨n, -, rfl, hmode, hfirst⟩ := execute?_eq_some.1 hexecute
  have hover : (r.after n).IsOver := ⟨result, hmode⟩
  have hidle : r.mode = .idle := by
    obtain ⟨plan, -, rfl⟩ := prepare_eq_ok hprepare
    rfl
  obtain ⟨a, ha, han, hrunning, hdraining⟩ := exists_phases hidle hover hfirst
  exact ⟨a, n, ha, han, by simp [phase, hidle], hrunning, hdraining,
    fun i hi => after_eq_of_isOver hover hi, hmode⟩

/-- If there is a report, no invocation was in flight that crashed. -/
theorem not_crashing_of_report {report : RunReport} (hreport : result = .ok report) (n : Nat)
    (cause : String) : ¬ (r.after n).pool.Crashing cause := by
  subst hreport
  obtain ⟨b, -, rfl, hmode, -⟩ := execute?_eq_some.1 hexecute
  have hknown := (faithful_of_prepare hprepare).after (closing_of_prepare hprepare) b
  rw [Faithful, hmode] at hknown
  intro hcrashing
  rcases Nat.lt_or_ge n (b + 1) with hn | hn
  · exact hknown.2 cause ⟨n, hn, hcrashing⟩
  · rw [after_eq_of_isOver ⟨_, hmode⟩ (show b ≤ n by omega)] at hcrashing
    exact hknown.2 cause ⟨b, Nat.lt_succ_self b, hcrashing⟩

/-- If there is none, the fault tells for what cause one of them did. -/
theorem exists_crashing_of_fault {fault : PoolFault} (hfault : result = .error fault) :
    ∃ cause, fault = .crash cause ∧ ∃ n, (r.after n).pool.Crashing cause := by
  subst hfault
  obtain ⟨b, -, rfl, hmode, -⟩ := execute?_eq_some.1 hexecute
  have hknown := (faithful_of_prepare hprepare).after (closing_of_prepare hprepare) b
  rw [Faithful, hmode] at hknown
  obtain ⟨cause, hcrash, n, -, hcrashing⟩ := hknown
  exact ⟨cause, hcrash, n, hcrashing⟩

end Execution

/-- **How a run ends.**  Let the intervals of a run fit the clock.  Whatever the workload does and
whenever the run is asked to stop: if the run ends, it does not crash, it was idle, then followed
its schedule, then waited for its users, and then was over, completed if there is a report and
faulted if not.  There is a report exactly if at no time an invocation was in flight that
crashed; and without a report the fault is always that a user crashed, for the cause of such an
invocation. -/
theorem report_iff_no_crash {config : RunConfig} {workload : Workload σ} {state : σ}
    {reporting : Bool} {aborts : List Nat} {start : Instant} {fuel : Nat}
    {outcome : Except Instant.Crash (Except PoolFault RunReport)}
    (hprepare : prepare config workload state reporting aborts = .ok r)
    (hfits : r.IntervalsFit start)
    (hlaunch : r.launch? start fuel = some (r', outcome)) :
    ∃ result, outcome = .ok result ∧
      (∃ a b, 1 < a ∧ a < b ∧ (r.after 0).phase = .idle ∧
        (∀ i, 1 ≤ i → i < a → (r.after i).phase = .running) ∧
        (∀ i, a ≤ i → i < b → (r.after i).phase = .draining) ∧
        (∀ i, b ≤ i → r.after i = r') ∧
        r'.phase = match result with | .ok _ => .completed | .error _ => .faulted) ∧
      ((∃ report, result = .ok report) ↔ ∀ n cause, ¬ (r.after n).pool.Crashing cause) ∧
      ∀ fault, result = .error fault → ∃ cause, fault = .crash cause ∧
        fault.message = "scheduler fault: virtual user panicked: " ++ cause ∧
        ∃ n, (r.after n).pool.Crashing cause := by
  cases outcome with
  | error crash => exact absurd hfits (launch?_eq_error_iff.1 hlaunch).1
  | ok result =>
    obtain ⟨-, hexecute⟩ := launch?_eq_ok_iff.1 hlaunch
    obtain ⟨a, b, ha, hab, hidle, hrunning, hdraining, hrest, hmode⟩ :=
      phases_of_execute? hprepare hexecute
    refine ⟨result, rfl, ⟨a, b, ha, hab, hidle, hrunning, hdraining, hrest, ?_⟩, ?_, ?_⟩
    · rw [phase, hmode]
      cases result <;> rfl
    · constructor
      · rintro ⟨report, hreport⟩
        exact not_crashing_of_report hprepare hexecute hreport
      · intro hnone
        cases result with
        | ok report => exact ⟨report, rfl⟩
        | error fault =>
          obtain ⟨cause, -, n, hcrashing⟩ := exists_crashing_of_fault hprepare hexecute rfl
          exact absurd hcrashing (hnone n cause)
    · intro fault hfault
      obtain ⟨cause, rfl, hcrashing⟩ := exists_crashing_of_fault hprepare hexecute hfault
      exact ⟨cause, rfl, rfl, hcrashing⟩

/-- One user whose second iteration crashes 140 milliseconds after the start, in a run that is
asked to stop after 110. -/
def crashConfig : RunConfig := { startUsers := 1, stages := [⟨Duration.ofMillis 200, 1⟩] }

/-- Iterations of 60 milliseconds, of which every second one crashes. -/
def crashWorkload : Workload Unit where
  declared := {}
  invoke c s := (⟨60, if c.iteration = 1 then .crash "boom"
    else .outcome { thinkTime := some (Duration.ofMillis 20) }⟩, s)

/-- The run ends with a fault, so an invocation was in flight that crashed. -/
theorem crash_while_draining_is_found : ∃ r r' fault,
    prepare crashConfig crashWorkload () false [110] = .ok r ∧
    r.launch? (.clamp 0) 20 = some (r', .ok (.error fault)) ∧
    fault.message = "scheduler fault: virtual user panicked: boom" ∧
    ∃ n, (r.after n).pool.Crashing "boom" := by
  obtain ⟨r, r', hprepare, hprogress, hevaluation, hexecute⟩ : ∃ r r',
      prepare crashConfig crashWorkload () false [110] = .ok r ∧
      r.plan.progressInterval = crashConfig.progressInterval ∧
      r.plan.evaluationInterval = none ∧
      execute? 20 r = some (r', .error (.crash "boom")) := ⟨_, _, rfl, rfl, rfl, rfl⟩
  have hfits : r.IntervalsFit (.clamp 0) :=
    intervalsFit_of_evaluationInterval_eq_none hevaluation (by rw [hprogress]; decide)
  have hlaunch : r.launch? (.clamp 0) 20 = some (r', .ok (.error (.crash "boom"))) :=
    launch?_eq_ok_iff.2 ⟨hfits, hexecute⟩
  obtain ⟨result, hok, -, -, hfault⟩ := report_iff_no_crash hprepare hfits hlaunch
  cases hok
  obtain ⟨cause, hcause, hmessage, hcrashing⟩ := hfault _ rfl
  cases hcause
  exact ⟨r, r', .crash "boom", hprepare, hlaunch, hmessage, hcrashing⟩

/-- One user, in a run that tells of its progress after the longest duration. -/
def endlessConfig : RunConfig where
  startUsers := 1
  stages := [⟨Duration.ofMillis 200, 1⟩]
  progressInterval := Duration.clamp Duration.maxNanos

/-- Iterations of 60 milliseconds. -/
def calmWorkload : Workload Unit where
  declared := {}
  invoke _ s := (⟨60, .outcome {}⟩, s)

/-- The run crashes while it follows its schedule, although no invocation ever does. -/
theorem endless_interval_crashes : ∃ r,
    prepare endlessConfig calmWorkload () false [] = .ok r ∧
    (∀ start fuel, ∃ r', r.launch? start fuel = some (r', .error .overflow) ∧
      r'.phase = .running) ∧
    ∀ n cause, ¬ (r.after n).pool.Crashing cause := by
  obtain ⟨r, hprepare, hprogress, hbegun⟩ : ∃ r,
      prepare endlessConfig calmWorkload () false [] = .ok r ∧
      r.plan.progressInterval.nanos = Duration.maxNanos ∧ r.step.phase = .running :=
    ⟨_, rfl, rfl, rfl⟩
  refine ⟨r, hprepare, ?_, not_crashing_of_prepare hprepare fun _ _ => rfl⟩
  intro start fuel
  have hlong : Instant.limit ≤ r.plan.progressInterval.nanos := by rw [hprogress]; decide
  exact ⟨r.step, launch?_of_not_fit (not_intervalsFit_of_progressInterval hlong) fuel, hbegun⟩

end StagedLoad.Run
