import StagedLoad.Proofs.Run.Stall
import StagedLoad.Proofs.Run.Timely
import StagedLoad.Proofs.Threshold.Abort
import StagedLoad.Proofs.Threshold.Percentiles

/-!
# Watching a run does not change it

A run tells of its progress and judges its rules between what it does to its users.  To tell is
only to watch, and so is to judge if no rule stops the run: the clock shows another time, but
everyone is due when it was.  So two runs that differ only in how they are watched go through
the same states of their users, each with steps of its own in between, in which it only watches.
There are only finitely many of these before the run does something, for they are due before
its next poll.

## Main definitions

* `Pool.SameButClock` — pools whose users are due at the same times.
* `RunPlan.Alike`, `Run.Alike` — what differs only in how a run is watched.
* `Run.Watching` — a run that is about to watch.

## Main results

* `Watching.step`, `Alike.step` — one step of a run that watches, and of two that do not.
* `Timely.exists_not_watching` — no run watches for ever.
* `Alike.exists_after` — what one run comes through the other one comes through as well.
* `watching_changes_nothing` — **watching a run does not change it**.
-/

namespace StagedLoad

/-! ### Pools -/

namespace Pool

variable {σ : Type} {p q q' : Pool σ} {t : Nat}

/-- The clocks of two pools may show different times, but everyone is due at the same time. -/
structure SameButClock (p q : Pool σ) : Prop where
  /-- The pools differ in nothing else. -/
  pool : q = { p with now := q.now }
  /-- Nobody goes by the clock. -/
  due : ∀ u ∈ p.users, q.due? u = p.due? u

theorem SameButClock.refl (p : Pool σ) : p.SameButClock p := ⟨rfl, fun _ _ => rfl⟩

theorem SameButClock.symm (h : p.SameButClock q) : q.SameButClock p := by
  have husers : q.users = p.users := by rw [h.pool]
  refine ⟨by rw [h.pool], ?_⟩
  intro u hu
  rw [husers] at hu
  exact (h.due u hu).symm

theorem SameButClock.trans (h : p.SameButClock q) (h' : q.SameButClock q') :
    p.SameButClock q' := by
  have husers : q.users = p.users := by rw [h.pool]
  refine ⟨by rw [h'.pool, h.pool], ?_⟩
  intro u hu
  rw [h'.due u (husers ▸ hu), h.due u hu]

theorem SameButClock.eq (h : p.SameButClock q) (hnow : q.now = p.now) : q = p := by
  rw [h.pool, hnow]

theorem SameButClock.next?_eq (h : p.SameButClock q) : q.next? = p.next? := by
  have husers : q.users = p.users := by rw [h.pool]
  have hmap : q.users.map (fun u => (q.due? u).map fun t => (t, u)) =
      p.users.map fun u => (p.due? u).map fun t => (t, u) := by
    rw [husers]
    exact List.map_congr_left fun u hu => by rw [h.due u hu]
  exact congrArg (List.foldl earlier none) hmap

theorem NoneDueBefore.mono {t' : Nat} (h : p.NoneDueBefore t) (hle : t' ≤ t) :
    p.NoneDueBefore t' :=
  fun u hu d hd => Nat.le_trans hle (h u hu d hd)

theorem noneDueBefore_of_next? (h : ∀ t' u, p.next? = some (t', u) → t ≤ t') :
    p.NoneDueBefore t := by
  cases hnext : p.next? with
  | none => exact noneDueBefore_of_next?_eq_none hnext t
  | some x => exact (next?_eq_some hnext).2.2.mono (h x.1 x.2 hnext)

/-- Where nobody is due before a time, time may pass up to it. -/
theorem sameButClock_pass (h : p.NoneDueBefore t) :
    p.SameButClock { p with now := max p.now t } := by
  refine ⟨rfl, ?_⟩
  intro u hu
  have hdue := h u hu
  -- who waits or has to leave is due at once, so no time can pass
  simp only [due?, VirtualUser.due?] at hdue ⊢
  cases hactivity : u.activity with
  | invoking c i => rfl
  | waiting =>
    rw [hactivity] at hdue
    by_cases hbegun : (p.started || p.stopped) = true
    · have hle := hdue p.now (by simp only [hbegun, if_true])
      simp only [hbegun, if_true, Nat.max_eq_left hle]
    · simp only [hbegun, Bool.false_eq_true, if_false]
  | thinking until_ =>
    rw [hactivity] at hdue
    by_cases hleaves : u.mustLeave p.stopped = true
    · have hle := hdue p.now (by simp only [hleaves, if_true])
      simp only [hleaves, if_true, Nat.max_eq_left hle]
    · simp only [hleaves, Bool.false_eq_true, if_false]

end Pool

/-! ### Plans -/

namespace RunPlan

variable {p q q' : RunPlan}

/-- Some rule of a plan stops the run when it fails. -/
def stops (p : RunPlan) : Bool := p.rules.any Threshold.Rule.abortOnFail

/-- Two plans differ in nothing but when a run tells of its progress, which percentiles it reports,
and, if no rule stops it, when it judges its rules. -/
structure Alike (p q : RunPlan) : Prop where
  schedule : q.schedule = p.schedule
  rules : q.rules = p.rules
  pollInterval : q.pollInterval = p.pollInterval
  evaluationInterval : p.stops = true → q.evaluationInterval = p.evaluationInterval
  aggregate : q.aggregate = { p.aggregate with percentiles := q.aggregate.percentiles }
  failOnUndetermined : q.failOnUndetermined = p.failOnUndetermined
  /-- What a rule looks at is reported by both. -/
  percentiles : ∀ rule ∈ p.rules, ∀ x, rule.percentile? = some x →
    x ∈ p.aggregate.percentiles ∧ x ∈ q.aggregate.percentiles

theorem Alike.stops_eq (h : p.Alike q) : q.stops = p.stops := by rw [stops, h.rules, stops]

theorem Alike.symm (h : p.Alike q) : q.Alike p where
  schedule := h.schedule.symm
  rules := h.rules.symm
  pollInterval := h.pollInterval.symm
  evaluationInterval hstops := (h.evaluationInterval (h.stops_eq ▸ hstops)).symm
  aggregate := by rw [h.aggregate]
  failOnUndetermined := h.failOnUndetermined.symm
  percentiles rule hrule x hx := (h.percentiles rule (h.rules ▸ hrule) x hx).symm

/-- Two such plans judge the same samples in the same way. -/
theorem Alike.judge_eq (h : p.Alike q) (samples : List Sample) (elapsed : Duration) :
    q.judge (q.statistics samples elapsed) = p.judge (p.statistics samples elapsed) := by
  have hcongr := Threshold.evaluate_aggregate_congr samples
    { p.aggregate with elapsed := some elapsed } p.failOnUndetermined h.percentiles
  rw [judge, judge, statistics, statistics, h.rules, h.failOnUndetermined, h.aggregate]
  exact hcongr

/-- A plan none of whose rules stops the run never asks it to stop. -/
theorem shouldAbort_of_not_stops (h : p.stops = false) (stats : Table String Statistics) :
    (p.judge stats).shouldAbort = false := by
  have hrules : ∀ rule ∈ p.rules, rule.abortOnFail = false := by
    simpa [stops] using h
  rw [Bool.eq_false_iff]
  intro habort
  obtain ⟨rule, hlast, hstops⟩ := (Threshold.shouldAbort_iff stats _).1 habort
  exact Bool.false_ne_true ((hrules rule hlast.mem).symm.trans hstops.asks)

end RunPlan

/-- A report without the statistics of the series. -/
def RunReport.withoutStatistics (report : RunReport) : RunReport :=
  { report with perMetric := Table.empty }

namespace Run

variable {σ : Type} {r s s' : Run σ} {m n : Nat}

/-! ### What is only watching -/

/-- Whether a task of a run is only to watch. -/
def watches (r : Run σ) : Task → Bool
  | .poll => false
  | .tell => true
  | .judge => !r.plan.stops
  | .obey => false

/-- A run follows its schedule, and next it is only going to watch. -/
structure Watching (r : Run σ) : Prop where
  running : r.mode = .running
  /-- Nobody acts before. -/
  first : r.pool.NoneDueBefore r.nextTask.1
  task : r.watches r.nextTask.2 = true

/-- What a run is about to do, its result without the statistics. -/
def Mode.essence : Run.Mode → Run.Mode
  | .ended result => .ended (result.map RunReport.withoutStatistics)
  | mode => mode

/-- Two runs are in the same state except for what they have watched. -/
structure Alike (r s : Run σ) : Prop where
  plan : r.plan.Alike s.plan
  aborts : s.aborts = r.aborts
  mode : s.mode.essence = r.mode.essence
  polls : s.polls = r.polls
  evaluations : r.plan.stops = true → s.evaluations = r.evaluations
  pool : r.pool.SameButClock s.pool
  /-- Watching takes place only while a run follows its schedule. -/
  clock : r.mode ≠ .running → s.pool.now = r.pool.now

theorem Mode.eq_of_essence {mode mode' : Run.Mode} (h : mode'.essence = mode.essence)
    (hgoing : ∀ result, mode ≠ .ended result) : mode' = mode := by
  cases mode with
  | ended result => exact absurd rfl (hgoing result)
  | idle | running | draining => cases mode' <;> simp_all [essence]

theorem Alike.mode_eq (h : r.Alike s) {mode : Run.Mode} (hmode : r.mode = mode)
    (hgoing : ∀ result, mode ≠ .ended result) : s.mode = mode := by
  have hessence := h.mode
  rw [hmode] at hessence
  exact Mode.eq_of_essence hessence hgoing

theorem Alike.running (h : r.Alike s) (hmode : r.mode = .running) : s.mode = .running :=
  h.mode_eq hmode (by simp)

theorem Alike.symm (h : r.Alike s) : s.Alike r where
  plan := h.plan.symm
  aborts := h.aborts.symm
  mode := h.mode.symm
  polls := h.polls.symm
  evaluations hstops := (h.evaluations (h.plan.stops_eq ▸ hstops)).symm
  pool := h.pool.symm
  clock hmode := (h.clock fun hrunning => hmode (h.running hrunning)).symm

/-! ### One step -/

/-- What a run changes when it watches. -/
theorem Watching.step_eq (h : r.Watching) : ∃ ticks lastTick updates evaluations,
    r.step = { r.whenDue with ticks, lastTick, updates, evaluations } ∧
      (r.plan.stops = true → evaluations = r.evaluations) := by
  have htask := h.task
  rw [step_of_first h.running h.first]
  cases hnext : r.nextTask.2 with
  | poll | obey => simp [hnext, watches] at htask
  | tell => exact ⟨_, _, _, _, rfl, fun _ => rfl⟩
  | judge =>
    have hstops : r.plan.stops = false := by simpa [hnext, watches] using htask
    have hgoes : r.whenDue.evaluation.shouldAbort = false :=
      RunPlan.shouldAbort_of_not_stops hstops _
    refine ⟨r.ticks, r.lastTick, r.updates, r.evaluations + 1, ?_, ?_⟩
    · rw [perform, judge, hgoes]
      rfl
    · intro hstops'
      rw [hstops] at hstops'
      cases hstops'

/-- When one of two runs watches, they stay alike. -/
theorem Watching.step (h : r.Watching) (halike : r.Alike s) : r.step.Alike s := by
  obtain ⟨ticks, lastTick, updates, evaluations, hstep, hevaluations⟩ := h.step_eq
  rw [hstep]
  exact {
    plan := halike.plan
    aborts := halike.aborts
    mode := halike.mode
    polls := halike.polls
    evaluations := fun hstops => (halike.evaluations hstops).trans (hevaluations hstops).symm
    pool := (Pool.sameButClock_pass h.first).symm.trans halike.pool
    clock := fun hmode => absurd h.running hmode }

/-! ### What two runs have to do -/

/-- What a run has on its agenda besides watching. -/
def duties (r : Run σ) : List (Nat × Task) := r.agenda.filter fun e => !r.watches e.2

theorem duties_eq (r : Run σ) : r.duties =
    [(intervalEnd r.polls r.plan.pollInterval, .poll)] ++
      (if r.plan.stops then r.plan.evaluationInterval.elim [] fun e =>
        [(intervalEnd (r.evaluations + 1) e, .judge)] else []) ++
      r.aborts.map fun t => (t, .obey) := by
  have haborts : (r.aborts.map fun t => (t, Task.obey)).filter (fun e => !r.watches e.2) =
      r.aborts.map fun t => (t, .obey) := by
    rw [List.filter_eq_self]
    intro e he
    obtain ⟨t, -, rfl⟩ := List.mem_map.1 he
    rfl
  rw [duties, agenda, List.filter_append, haborts]
  cases r.plan.evaluationInterval <;> cases r.reporting <;> cases hstops : r.plan.stops <;>
    simp [watches, hstops]

theorem Alike.duties_eq (h : r.Alike s) : s.duties = r.duties := by
  rw [Run.duties_eq, Run.duties_eq, h.polls, h.plan.pollInterval, h.plan.stops_eq, h.aborts]
  cases hstops : r.plan.stops with
  | false => simp only [Bool.false_eq_true, if_false]
  | true => rw [h.plan.evaluationInterval hstops, h.evaluations hstops]

theorem mem_agenda_of_duties {e : Nat × Task} (h : e ∈ r.duties) : e ∈ r.agenda :=
  (List.mem_filter.1 h).1

theorem nextTask_mem_duties (h : r.watches r.nextTask.2 = false) : r.nextTask ∈ r.duties :=
  List.mem_filter.2 ⟨r.nextTask_mem, by simp [h]⟩

/-- Two runs that are alike do the same next, unless one of them is going to watch. -/
theorem Alike.nextTask_eq (h : r.Alike s) (hr : r.watches r.nextTask.2 = false)
    (hs : s.watches s.nextTask.2 = false) : s.nextTask = r.nextTask := by
  have hfirst : First r.nextTask r.duties := (first_nextTask r).filter (by simp [hr])
  have hfirst' : First s.nextTask s.duties := (first_nextTask s).filter (by simp [hs])
  rw [h.duties_eq] at hfirst'
  exact hfirst'.unique hfirst

/-- A user that acts in one of them before the next task acts in the other one as well, unless
that one is going to watch. -/
theorem Alike.before {t : Nat} {u : VirtualUser} (h : r.Alike s) (hmode : r.mode = .running)
    (hs : ¬ s.Watching) (hnext : r.pool.next? = some (t, u)) (hbefore : t < r.nextTask.1) :
    t < s.nextTask.1 := by
  by_contra hlate
  have hnext' : s.pool.next? = some (t, u) := by rw [h.pool.next?_eq, hnext]
  have hfirst : s.pool.NoneDueBefore s.nextTask.1 :=
    (Pool.next?_eq_some hnext').2.2.mono (Nat.le_of_not_lt hlate)
  have hduty : s.watches s.nextTask.2 = false := by
    rw [Bool.eq_false_iff]
    exact fun htask => hs ⟨h.running hmode, hfirst, htask⟩
  have hmem := nextTask_mem_duties hduty
  rw [h.duties_eq] at hmem
  have hle := nextTask_le (mem_agenda_of_duties hmem)
  omega

/-! ### Two steps -/

/-- Two runs that are alike remain so when they get the same pool. -/
theorem Alike.withPool (h : r.Alike s) (pool : Pool σ) :
    Alike { r with pool } { s with pool } where
  plan := h.plan
  aborts := h.aborts
  mode := h.mode
  polls := h.polls
  evaluations := h.evaluations
  pool := .refl pool
  clock _ := rfl

theorem Alike.stopFor (h : r.Alike s) (hpool : s.pool = r.pool)
    (cause : Except PoolFault StopReason) : (r.stopFor cause).Alike (s.stopFor cause) where
  plan := h.plan
  aborts := h.aborts
  mode := rfl
  polls := h.polls
  evaluations := h.evaluations
  pool := by
    rw [Run.stopFor, Run.stopFor, hpool]
    exact .refl _
  clock _ := by rw [Run.stopFor, Run.stopFor, hpool]

theorem Alike.poll (h : r.Alike s) (hpool : s.pool = r.pool) : r.poll.Alike s.poll := by
  have helapsed : s.elapsed = r.elapsed := by rw [elapsed, hpool, elapsed]
  rw [Run.poll, Run.poll, helapsed, h.plan.schedule, hpool]
  cases (r.plan.schedule.targetAt r.elapsed).users? with
  | none => exact h.stopFor hpool _
  | some target =>
    dsimp only
    obtain ⟨pool, fault⟩ := r.pool.reconcile target.toNat
    cases fault with
    | some fault =>
      show (Run.stopFor { r with pool } _).Alike (Run.stopFor { s with pool } _)
      exact (h.withPool pool).stopFor rfl _
    | none =>
      have hsame := h.withPool (if r.polls = 0 then pool.start else pool)
      rw [h.polls]
      exact { hsame with polls := rfl }

theorem Alike.judge (h : r.Alike s) (hpool : s.pool = r.pool) (hstops : r.plan.stops = true) :
    r.judge.Alike s.judge := by
  have hevaluation : s.evaluation = r.evaluation := by
    rw [evaluation, evaluation, elapsed, elapsed, hpool, h.plan.judge_eq]
  rw [Run.judge, Run.judge, hevaluation]
  split
  case isTrue => exact h.stopFor hpool _
  case isFalse =>
    exact {
      plan := h.plan
      aborts := h.aborts
      mode := h.mode
      polls := h.polls
      evaluations := fun _ => by rw [h.evaluations hstops]
      pool := h.pool
      clock := h.clock }

/-- A task that is more than watching is done in the same way. -/
theorem Alike.perform (h : r.Alike s) (hpool : s.pool = r.pool) {task : Task}
    (hduty : r.watches task = false) : (r.perform task).Alike (s.perform task) := by
  cases task with
  | poll => exact h.poll hpool
  | tell => cases hduty
  | judge => exact h.judge hpool (by simpa [watches] using hduty)
  | obey => exact h.stopFor hpool _

theorem Alike.finish (h : r.Alike s) (hpool : s.pool = r.pool)
    (cause : Except PoolFault StopReason) : (r.finish cause).Alike (s.finish cause) where
  plan := h.plan
  aborts := h.aborts
  mode := by
    have helapsed : s.elapsed = r.elapsed := by rw [elapsed, hpool, elapsed]
    simp only [Run.finish, hpool, helapsed]
    cases cause with
    | error fault => rfl
    | ok reason =>
      cases r.pool.settle.2 with
      | some fault => rfl
      | none =>
        simp only [Mode.essence, Except.map, RunReport.withoutStatistics, RunReport.ofSamples,
          h.plan.judge_eq]
  polls := h.polls
  evaluations := h.evaluations
  pool := by
    simp only [Run.finish, hpool]
    exact .refl _
  clock _ := by simp only [Run.finish, hpool]

/-- A user acts in the same way in both, whatever the clocks have shown before. -/
theorem Alike.actAt_eq {t : Nat} {u : VirtualUser} (h : r.Alike s) (hr : r.Timely) (hs : s.Timely)
    (hnext : r.pool.next? = some (t, u)) : s.pool.actAt t u = r.pool.actAt t u := by
  have hnext' : s.pool.next? = some (t, u) := by rw [h.pool.next?_eq, hnext]
  obtain ⟨hmem, hat, -⟩ := Pool.next?_eq_some hnext
  obtain ⟨hmem', hat', -⟩ := Pool.next?_eq_some hnext'
  rw [Pool.actAt, Pool.actAt, Nat.max_eq_right (hr.valid.punctual u hmem t hat),
    Nat.max_eq_right (hs.valid.punctual u hmem' t hat'), h.pool.pool]

/-- When the same task is due in both, their clocks show the same time. -/
theorem Alike.pool_whenDue (h : r.Alike s) (hr : r.Punctual) (hs : s.Punctual)
    (hnext : s.nextTask = r.nextTask) : s.whenDue.pool = r.whenDue.pool := by
  have hnow : s.whenDue.pool.now = r.whenDue.pool.now := by
    rw [hs.now_whenDue, hr.now_whenDue, hnext]
  rw [show s.whenDue.pool = { s.pool with now := s.whenDue.pool.now } from rfl, hnow,
    h.pool.pool]
  rfl

/-- While two runs that are alike follow their schedules and neither is going to watch, they take
the same step. -/
theorem Alike.stepRunning (h : r.Alike s) (hr : r.Timely) (hs : s.Timely)
    (hmode : r.mode = .running) (hduty : ¬ r.Watching) (hduty' : ¬ s.Watching) :
    r.step.Alike s.step := by
  have hmode' := h.running hmode
  have hdue := h.pool.next?_eq
  by_cases hacts : ∃ t u, r.pool.next? = some (t, u) ∧ t < r.nextTask.1
  · obtain ⟨t, u, hnext, hbefore⟩ := hacts
    rw [step_of_before hmode hnext hbefore,
      step_of_before hmode' (hdue.trans hnext) (h.before hmode hduty' hnext hbefore),
      h.actAt_eq hr hs hnext]
    exact h.withPool _
  · have hnone : r.pool.NoneDueBefore r.nextTask.1 := by
      refine Pool.noneDueBefore_of_next? fun t u hnext => Nat.le_of_not_lt fun hlt => ?_
      exact hacts ⟨t, u, hnext, hlt⟩
    have hnone' : s.pool.NoneDueBefore s.nextTask.1 := by
      refine Pool.noneDueBefore_of_next? fun t u hnext => Nat.le_of_not_lt fun hlt => ?_
      exact hacts ⟨t, u, by rw [← hdue, hnext], h.symm.before hmode' hduty hnext hlt⟩
    have htask : r.watches r.nextTask.2 = false := by
      rw [Bool.eq_false_iff]
      exact fun htask => hduty ⟨hmode, hnone, htask⟩
    have htask' : s.watches s.nextTask.2 = false := by
      rw [Bool.eq_false_iff]
      exact fun htask => hduty' ⟨hmode', hnone', htask⟩
    have hnext := h.nextTask_eq htask htask'
    have hpool := h.pool_whenDue (hr.punctual (.inr hmode)) (hs.punctual (.inr hmode')) hnext
    have hwhenDue : r.whenDue.Alike s.whenDue := by
      have hsame := h.withPool r.whenDue.pool
      rw [show s.whenDue = { s with pool := s.whenDue.pool } from rfl, hpool]
      exact hsame
    rw [step_of_first hmode hnone, step_of_first hmode' hnone', hnext]
    exact hwhenDue.perform hpool htask

/-- When neither of two runs is going to watch, they take the same step. -/
theorem Alike.step (h : r.Alike s) (hr : r.Timely) (hs : s.Timely) (hduty : ¬ r.Watching)
    (hduty' : ¬ s.Watching) : r.step.Alike s.step := by
  cases hmode : r.mode with
  | running => exact h.stepRunning hr hs hmode hduty hduty'
  | idle =>
    have hmode' : s.mode = .idle := h.mode_eq hmode (by simp)
    simp only [Run.step, hmode, hmode']
    exact {
      plan := h.plan
      aborts := h.aborts
      mode := rfl
      polls := h.polls
      evaluations := h.evaluations
      pool := h.pool
      clock := fun hgoing => absurd rfl hgoing }
  | draining cause =>
    have hmode' : s.mode = .draining cause := h.mode_eq hmode (by simp)
    have hpool : s.pool = r.pool := h.pool.eq (h.clock (by rw [hmode]; simp))
    simp only [Run.step, hmode, hmode', hpool]
    cases r.pool.step? with
    | none => exact h.finish hpool cause
    | some pool =>
      have hsame := h.withPool pool
      simpa only [hmode, hmode'] using hsame
  | ended result =>
    have hmode' : s.IsOver := by
      have hessence := h.mode
      rw [hmode] at hessence
      cases hs : s.mode with
      | ended result' => exact ⟨result', hs⟩
      | idle | running | draining => rw [hs] at hessence; cases hessence
    rw [step_of_isOver ⟨result, hmode⟩, step_of_isOver hmode']
    exact h

/-! ### Whole runs -/

/-- A run that watches goes on to something else after finitely many steps, and until then it is
like every run that it is like now. -/
theorem Timely.exists_not_watching (hs : s.Timely) : ∃ k, ¬ (s.after k).Watching ∧
    ∀ r : Run σ, r.Alike s → r.Alike (s.after k) := by
  obtain ⟨bound, hbound⟩ : ∃ bound,
      intervalEnd s.polls s.plan.pollInterval * Duration.nanosPerMilli < bound :=
    ⟨_, Nat.lt_succ_self _⟩
  -- it cannot watch more often than there is time for before its next poll
  generalize hgap : 3 * bound - s.counted bound = gap
  induction gap using Nat.strong_induction_on generalizing s with
  | _ gap ih =>
    by_cases hwatching : s.Watching
    · have hpoll : s.nextTask.1 ≤ intervalEnd s.polls s.plan.pollInterval :=
        nextTask_le (mem_agenda.2 (.inl rfl))
      have hless : s.counted bound < s.step.counted bound := by
        have hstep := step_of_first hwatching.running hwatching.first
        obtain ⟨ticks, lastTick, updates, evaluations, heq, -⟩ := hwatching.step_eq
        rw [hstep]
        refine counted_perform_lt hs.intervals ?_ ?_
        · rw [← hstep, heq]
          exact hwatching.running
        · exact Nat.lt_of_le_of_lt (Nat.mul_le_mul_right _ hpoll) hbound
      have hnext : intervalEnd s.step.polls s.step.plan.pollInterval * Duration.nanosPerMilli <
          bound := by
        obtain ⟨ticks, lastTick, updates, evaluations, heq, -⟩ := hwatching.step_eq
        rw [heq]
        exact hbound
      have hroom := counted_le bound s.step
      obtain ⟨k, hk, hlike⟩ := ih (3 * bound - s.step.counted bound) (by omega) hs.step hnext rfl
      rw [after_step] at hk
      refine ⟨k + 1, hk, ?_⟩
      intro r hr
      rw [← after_step]
      exact hlike r (hwatching.step hr.symm).symm
    · exact ⟨0, hwatching, fun r hr => hr⟩

/-- What one of two runs that are alike comes through, the other one comes through as well. -/
theorem Alike.exists_after (h : r.Alike s) (hr : r.Timely) (hs : s.Timely) (n : Nat) :
    ∃ m, (r.after n).Alike (s.after m) := by
  induction n with
  | zero => exact ⟨0, h⟩
  | succ n ih =>
    obtain ⟨m, hm⟩ := ih
    by_cases hwatching : (r.after n).Watching
    · exact ⟨m, hwatching.step hm⟩
    · obtain ⟨k, hduty, hlike⟩ := (hs.after m).exists_not_watching
      have hk := hlike _ hm
      rw [← after_add] at hduty hk
      exact ⟨m + k + 1, hk.step (hr.after n) (hs.after (m + k)) hwatching hduty⟩

/-- Whatever one run has recorded at some time, another one has recorded at some time as well; and
if the one ends so does the other, with the same samples and, but for the statistics of the
series, with the same result.  Both begin at an instant, and neither of them crashes. -/
structure Mirrors (start : Instant) (s r : Run σ) : Prop where
  recorded : ∀ n, ∃ m, (s.after m).pool.recorder = (r.after n).pool.recorder
  ends : ∀ fuel r' outcome, r.launch? start fuel = some (r', outcome) →
    ∃ result fuel' s' result', outcome = .ok result ∧
      s.launch? start fuel' = some (s', .ok result') ∧
      s'.pool.recorder = r'.pool.recorder ∧
      result'.map RunReport.withoutStatistics = result.map RunReport.withoutStatistics

theorem Alike.mirrors {start : Instant} (h : r.Alike s) (hr : r.Timely) (hs : s.Timely)
    (hfits : r.IntervalsFit start) (hfits' : s.IntervalsFit start) : s.Mirrors start r where
  recorded n := by
    obtain ⟨m, hm⟩ := h.exists_after hr hs n
    exact ⟨m, by rw [hm.pool.pool]⟩
  ends fuel r' outcome hlaunch := by
    obtain ⟨result, rfl⟩ : ∃ result, outcome = .ok result := by
      cases outcome with
      | ok result => exact ⟨result, rfl⟩
      | error crash => exact absurd hfits (launch?_eq_error_iff.1 hlaunch).1
    obtain ⟨n, -, rfl, hended, -⟩ := execute?_eq_some.1 (launch?_eq_ok_iff.1 hlaunch).2
    obtain ⟨m, hm⟩ := h.exists_after hr hs n
    have hessence := hm.mode
    rw [hended] at hessence
    cases hmode : (s.after m).mode with
    | idle | running | draining => rw [hmode] at hessence; cases hessence
    | ended result' =>
      rw [hmode] at hessence
      obtain ⟨fuel', hexecute'⟩ := execute?_isSome hmode
      exact ⟨result, fuel', s.after m, result', rfl, launch?_eq_ok_iff.2 ⟨hfits', hexecute'⟩,
        by rw [hm.pool.pool], by simpa only [Mode.essence, Mode.ended.injEq] using hessence⟩

/-- Configurations that differ only in how a run is watched lead to runs that are alike. -/
theorem alike_of_prepare {config : RunConfig} {workload : Workload σ} {state : σ}
    {aborts : List Nat} {reporting reporting' : Bool} {progressInterval : Duration}
    {percentiles : List Percentile} {evaluationInterval : Option Duration}
    (hstops : (∃ set ∈ config.thresholds, ∃ d ∈ set.declarations, d.abortOnFail = true) →
      evaluationInterval = config.evaluationInterval)
    (h : prepare config workload state reporting aborts = .ok r)
    (h' : prepare { config with progressInterval, percentiles, evaluationInterval } workload state
      reporting' aborts = .ok s) : r.Alike s := by
  obtain ⟨plan, hplan, rfl⟩ := prepare_eq_ok h
  obtain ⟨plan', hplan', rfl⟩ := prepare_eq_ok h'
  obtain ⟨schedule, rules, hschedule, -, hrules, rfl⟩ := RunConfig.validate_eq_ok hplan
  obtain ⟨schedule', rules', hschedule', -, hrules', rfl⟩ := RunConfig.validate_eq_ok hplan'
  obtain rfl : schedule = schedule' := Except.ok.inj (hschedule.symm.trans hschedule')
  obtain rfl : rules = rules' := Except.ok.inj (hrules.symm.trans hrules')
  refine ⟨⟨rfl, rfl, rfl, ?_, rfl, rfl, ?_⟩, rfl, rfl, rfl, fun _ => rfl, .refl _, fun _ => rfl⟩
  · intro hany
    obtain ⟨rule, hrule, hasks⟩ := List.any_eq_true.1 hany
    exact hstops (Threshold.abortOnFail_of_mem_compile hrules hrule hasks)
  · intro rule hrule x hx
    exact ⟨RunConfig.mem_allPercentiles.2 (.inr ⟨rule, hrule, hx⟩),
      RunConfig.mem_allPercentiles.2 (.inr ⟨rule, hrule, hx⟩)⟩

/-- **Watching a run does not change it.**  Whether a run tells of its progress and how often,
which percentiles it reports and, unless some declaration stops the run, whether and how often
it judges its rules: as long as the intervals fit the clock, what it records and how it ends is
the same.  A result is the same if both
runs fail with the same fault, or if their reports agree on the verdict, on every rule, on the
reason, the duration, the iterations, the peak and the errors. -/
theorem watching_changes_nothing {config : RunConfig} {workload : Workload σ} {state : σ}
    {aborts : List Nat} {reporting reporting' : Bool} {progressInterval : Duration}
    {percentiles : List Percentile} {evaluationInterval : Option Duration} {start : Instant}
    (hstops : (∃ set ∈ config.thresholds, ∃ d ∈ set.declarations, d.abortOnFail = true) →
      evaluationInterval = config.evaluationInterval)
    (h : prepare config workload state reporting aborts = .ok r)
    (h' : prepare { config with progressInterval, percentiles, evaluationInterval } workload state
      reporting' aborts = .ok s)
    (hfits : r.IntervalsFit start) (hfits' : s.IntervalsFit start) :
    r.Mirrors start s ∧ s.Mirrors start r := by
  have halike := alike_of_prepare hstops h h'
  have hr := timely_of_prepare h
  have hs := timely_of_prepare h'
  exact ⟨halike.symm.mirrors hs hr hfits' hfits, halike.mirrors hr hs hfits hfits'⟩

/-- A ramp to two users, with a rule that does not stop the run. -/
def slowConfig : RunConfig where
  stages := [⟨Duration.ofMillis 300, 2⟩]
  thinkTime := Duration.ofMillis 20
  thresholds := [⟨"iteration_duration", [⟨"p(99.9) < 30", false⟩]⟩]

/-- Iterations of 40 milliseconds. -/
def slowWorkload : Workload Unit where
  declared := {}
  invoke _ s := (⟨40, .outcome {}⟩, s)

/-- One run tells every 30 milliseconds and judges every 70 milliseconds, and the other one does
neither.  Both make six iterations. -/
theorem watched_run_mirrors : ∃ r s s' report,
    prepare slowConfig slowWorkload () false [] = .ok r ∧
    prepare { slowConfig with
      progressInterval := Duration.ofMillis 30
      percentiles := []
      evaluationInterval := some (Duration.ofMillis 70) } slowWorkload () true [] = .ok s ∧
    s.Mirrors (.clamp 0) r ∧ s.launch? (.clamp 0) 40 = some (s', .ok (.ok report)) ∧
    s'.ticks = 13 ∧ s'.evaluations = 5 ∧ report.iterations = 6 := by
  obtain ⟨r, s, s', report, hr, hs, hfirst, hsecond, hexecute, hticks, hevaluations,
      hiterations⟩ :
      ∃ r s s' report, prepare slowConfig slowWorkload () false [] = .ok r ∧
        prepare { slowConfig with
          progressInterval := Duration.ofMillis 30
          percentiles := []
          evaluationInterval := some (Duration.ofMillis 70) } slowWorkload () true [] = .ok s ∧
        (r.plan.progressInterval = Duration.seconds 1 ∧ r.plan.evaluationInterval = none) ∧
        (s.plan.progressInterval = Duration.ofMillis 30 ∧
          s.plan.evaluationInterval = some (Duration.ofMillis 70)) ∧
        execute? 40 s = some (s', .ok report) ∧ s'.ticks = 13 ∧ s'.evaluations = 5 ∧
        report.iterations = 6 :=
    ⟨_, _, _, _, rfl, rfl, ⟨rfl, rfl⟩, ⟨rfl, rfl⟩, rfl, by decide +kernel, by decide +kernel,
      by decide +kernel⟩
  have hfits : r.IntervalsFit (.clamp 0) :=
    intervalsFit_of_evaluationInterval_eq_none hfirst.2 (by rw [hfirst.1]; decide)
  have hfits' : s.IntervalsFit (.clamp 0) := by
    refine ⟨by rw [hsecond.1]; decide, fun interval hinterval => ?_⟩
    rw [hsecond.2] at hinterval
    cases hinterval
    decide
  have hstops : ¬ ∃ set ∈ slowConfig.thresholds, ∃ d ∈ set.declarations, d.abortOnFail = true := by
    decide
  obtain ⟨-, hmirrors⟩ :=
    watching_changes_nothing (fun hasks => absurd hasks hstops) hr hs hfits hfits'
  exact ⟨r, s, s', report, hr, hs, hmirrors, launch?_eq_ok_iff.2 ⟨hfits', hexecute⟩, hticks,
    hevaluations, hiterations⟩

/-- One run ends with a report, and the other one, which differs only in that it would tell of its
progress after the longest duration, crashes, although nobody is told. -/
theorem endless_progress_crashes : ∃ r s r' report,
    prepare slowConfig slowWorkload () false [] = .ok r ∧
    prepare { slowConfig with progressInterval := Duration.clamp Duration.maxNanos } slowWorkload
      () false [] = .ok s ∧
    r.launch? (.clamp 0) 40 = some (r', .ok (.ok report)) ∧
    ∀ fuel, s.launch? (.clamp 0) fuel = some (s.step, .error .overflow) := by
  obtain ⟨r, s, r', report, hr, hs, hfirst, hsecond, hexecute⟩ :
      ∃ r s r' report, prepare slowConfig slowWorkload () false [] = .ok r ∧
        prepare { slowConfig with progressInterval := Duration.clamp Duration.maxNanos }
          slowWorkload () false [] = .ok s ∧
        (r.plan.progressInterval = Duration.seconds 1 ∧ r.plan.evaluationInterval = none) ∧
        s.plan.progressInterval = Duration.clamp Duration.maxNanos ∧
        execute? 40 r = some (r', .ok report) := ⟨_, _, _, _, rfl, rfl, ⟨rfl, rfl⟩, rfl, rfl⟩
  have hfits : r.IntervalsFit (.clamp 0) :=
    intervalsFit_of_evaluationInterval_eq_none hfirst.2 (by rw [hfirst.1]; decide)
  have hlong : Instant.limit ≤ s.plan.progressInterval.nanos := by rw [hsecond]; decide
  exact ⟨r, s, r', report, hr, hs, launch?_eq_ok_iff.2 ⟨hfits, hexecute⟩,
    launch?_of_not_fit (not_intervalsFit_of_progressInterval hlong)⟩

end Run

end StagedLoad
