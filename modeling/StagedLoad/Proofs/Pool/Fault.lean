import StagedLoad.Proofs.Pool.Crash
import StagedLoad.Proofs.Pool.Ledger
import StagedLoad.Proofs.Pool.Log

/-!
# What the owner of a pool is told

When the owner of a pool looks after those who left, it is told of a fault if one of them
crashed, or if more users are alive than are there.  Who has been told to retire is not alive
any more, so as long as the pool is not stopped, users can only be missing because one of them
crashed.  But a pool that is stopped keeps counting its users as alive when they leave, until it
is drained: then users are missing that left because they were told to.

## Main definitions

* `Pool.HasCrashed` — an invocation that was begun has crashed by now, for some cause.
* `Pool.Explained` — whatever would be a fault can be explained by such an invocation.
* `Pool.ReportsCrashes` — what the owner of a pool is told.

## Main results

* `performAll?_withLog` — a log changes nothing that the owner of a pool does.
* `Explained.deed` — faults can be explained whatever happens.
* `faults_are_crashes_unless_stopped` — **a fault is a crash**, or users were told to leave and
  the pool has not been drained.
-/

namespace StagedLoad.Pool

variable {σ : Type}

/-! ### A log changes nothing that the owner does -/

section WithLog

variable {fuel : Nat} {p q : Pool σ} (calls : List Call)

theorem spawnMany_withLog (n : Nat) (p : Pool σ) :
    spawnMany n (p.withLog calls) = (spawnMany n p).withLog calls := by
  induction n generalizing p with
  | zero => rfl
  | succ n ih => exact ih p.spawn

theorem resize_withLog (target : Nat) (p : Pool σ) :
    (p.withLog calls).resize target = (p.resize target).withLog calls := by
  unfold resize
  rw [show (p.withLog calls).live = p.live from rfl, spawnMany_withLog]
  split <;> rfl

theorem reap_withLog (p : Pool σ) :
    (p.withLog calls).reap = (p.reap.1.withLog calls, p.reap.2) := by
  unfold reap
  rw [show (p.withLog calls).departures = p.departures from rfl]
  rcases reapDepartures p.departures with ⟨cause, l⟩
  cases cause with
  | some cause => rfl
  | none =>
    dsimp only
    by_cases hless : ({ p with departures := l } : Pool σ).running < p.live.length
    · rw [if_pos hless]
      exact if_pos hless
    · rw [if_neg hless]
      exact if_neg hless

theorem reconcile_withLog (target : Nat) (p : Pool σ) :
    (p.withLog calls).reconcile target =
      ((p.reconcile target).1.withLog calls, (p.reconcile target).2) := by
  unfold reconcile
  rw [reap_withLog]
  rcases p.reap with ⟨r, _ | fault⟩
  · dsimp only
    rw [show (r.withLog calls).stopped = r.stopped from rfl, resize_withLog]
    split <;> rfl
  · rfl

theorem actAt_withLog (p : Pool σ) (t : Nat) (u : VirtualUser) :
    ∃ more, (p.withLog calls).actAt t u = (p.actAt t u).withLog more :=
  act_withLog { p with now := max p.now t } u calls

theorem advance?_withLog {limit : Nat} (h : p.advance? limit fuel = some q) :
    ∃ more, (p.withLog calls).advance? limit fuel = some (q.withLog more) := by
  induction fuel generalizing p calls with
  | zero => cases h
  | succ fuel ih =>
    unfold advance? stepWithin? at h ⊢
    rw [show (p.withLog calls).next? = p.next? from rfl]
    cases hnext : p.next? with
    | none =>
      rw [hnext] at h
      cases h
      exact ⟨calls, rfl⟩
    | some e =>
      rw [hnext] at h
      dsimp only at h ⊢
      by_cases hlimit : e.1 ≤ limit
      · rw [if_pos hlimit] at h ⊢
        obtain ⟨more, hmore⟩ := actAt_withLog calls p e.1 e.2
        rw [hmore]
        exact ih more h
      · rw [if_neg hlimit] at h ⊢
        cases h
        exact ⟨calls, rfl⟩

theorem exhaust?_withLog (h : exhaust? fuel p = some q) :
    ∃ more, exhaust? fuel (p.withLog calls) = some (q.withLog more) := by
  induction fuel generalizing p calls with
  | zero => cases h
  | succ fuel ih =>
    unfold exhaust? step? at h ⊢
    rw [show (p.withLog calls).next? = p.next? from rfl]
    cases hnext : p.next? with
    | none =>
      rw [hnext] at h
      cases h
      exact ⟨calls, rfl⟩
    | some e =>
      rw [hnext] at h
      obtain ⟨more, hmore⟩ := actAt_withLog calls p e.1 e.2
      dsimp only [Option.map_some] at h ⊢
      rw [hmore]
      exact ih more h

theorem drain?_withLog {fault : Option PoolFault} (h : p.drain? fuel = some (q, fault)) :
    ∃ more, (p.withLog calls).drain? fuel = some (q.withLog more, fault) := by
  obtain ⟨r, hr, hsettle⟩ := Option.map_eq_some_iff.1 h
  cases hsettle
  obtain ⟨more, hmore⟩ := exhaust?_withLog calls hr
  refine ⟨more, ?_⟩
  rw [drain?, show (p.withLog calls).abandon = p.abandon.withLog calls from rfl, hmore]
  rfl

theorem perform?_withLog {command : Command} (h : p.perform? fuel command = some q) :
    ∃ more, (p.withLog calls).perform? fuel command = some (q.withLog more) := by
  cases command with
  | reconcile target =>
    cases h
    exact ⟨calls, by rw [perform?, reconcile_withLog]⟩
  | start => cases h; exact ⟨calls, rfl⟩
  | stop => cases h; exact ⟨calls, rfl⟩
  | drain =>
    obtain ⟨⟨q, fault⟩, hdrain, rfl⟩ := Option.map_eq_some_iff.1 h
    obtain ⟨more, hmore⟩ := drain?_withLog calls hdrain
    exact ⟨more, by rw [perform?, hmore]; rfl⟩
  | wait d =>
    simp only [perform?, wait?] at h ⊢
    by_cases hzero : d.isZero = true
    · rw [if_pos hzero] at h
      cases h
      exact ⟨calls, if_pos hzero⟩
    · rw [if_neg hzero] at h
      obtain ⟨more, hmore⟩ := advance?_withLog calls h
      exact ⟨more, (if_neg hzero).trans hmore⟩

/-- Whatever the owner of a pool does, it does with a log as well. -/
theorem performAll?_withLog {commands : List Command}
    (h : p.performAll? fuel commands = some q) :
    ∃ more, (p.withLog calls).performAll? fuel commands = some (q.withLog more) := by
  induction commands generalizing p calls with
  | nil => cases h; exact ⟨calls, rfl⟩
  | cons command rest ih =>
    obtain ⟨r, hr, hrest⟩ := Option.bind_eq_some_iff.1 h
    obtain ⟨more, hmore⟩ := perform?_withLog calls hr
    obtain ⟨last, hlast⟩ := ih more hrest
    exact ⟨last, Option.bind_eq_some_iff.2 ⟨_, hmore, hlast⟩⟩

end WithLog

/-! ### Stopping and draining -/

section Stopping

variable {fuel : Nat} {p q : Pool σ} {command : Command} {commands : List Command}

theorem Progress.stopped_eq (h : Progress p q) : q.stopped = p.stopped := by
  induction h with
  | refl => rfl
  | tail _ hlast ih =>
    rw [← ih]
    cases hlast with
    | act => exact stopped_act _ _
    | pass => rfl

theorem stopped_reconcile (p : Pool σ) (target : Nat) :
    (p.reconcile target).1.stopped = p.stopped := by
  obtain ⟨departures, ⟨hq, -⟩ | ⟨hq, -, -⟩⟩ :=
    reconcile_cases (p := p) (n := target) (q := (p.reconcile target).1) rfl
  · rw [hq]
  · rw [hq, stopped_resize]

/-- Nothing but stopping and draining stops a pool. -/
theorem stopped_perform? (h : p.perform? fuel command = some q) (hstop : command ≠ .stop)
    (hdrain : command ≠ .drain) : q.stopped = p.stopped := by
  cases command with
  | reconcile target => cases h; exact stopped_reconcile p target
  | start => cases h; rfl
  | stop => exact absurd rfl hstop
  | drain => exact absurd rfl hdrain
  | wait d => exact (progress_wait? h).stopped_eq

theorem stopped_performAll? (h : p.performAll? fuel commands = some q)
    (hstop : .stop ∉ commands) (hdrain : .drain ∉ commands) : q.stopped = p.stopped := by
  induction commands generalizing p with
  | nil => cases h; rfl
  | cons command rest ih =>
    obtain ⟨r, hr, hrest⟩ := Option.bind_eq_some_iff.1 h
    rw [List.mem_cons, not_or] at hstop hdrain
    rw [ih hrest hstop.2 hdrain.2, stopped_perform? hr (Ne.symm hstop.1) (Ne.symm hdrain.1)]

/-- Once a pool has been drained, nobody is alive, whatever its owner does. -/
theorem live_performAll?_of_drain (h : p.performAll? fuel commands = some q)
    (hdrain : .drain ∈ commands) : q.live = [] := by
  induction commands generalizing p with
  | nil => cases hdrain
  | cons command rest ih =>
    obtain ⟨r, hr, hrest⟩ := Option.bind_eq_some_iff.1 h
    rcases List.mem_cons.1 hdrain with rfl | hdrain
    · obtain ⟨⟨r, fault⟩, hdrained, rfl⟩ := Option.map_eq_some_iff.1 hr
      have hempty := (emptied_drain? hdrained).1
      exact ((course_performAll? hrest).preserves (fun _ _ => live_eq_nil_of_move)
        ⟨hempty.stopped, hempty.live⟩).2
    · exact ih hrest hdrain

end Stopping

/-! ### What the owner finds -/

section Reap

variable {p q : Pool σ} {n : Nat} {cause : String}

theorem mem_reapDepartures {l : List Departure} {d : Departure}
    (h : d ∈ (reapDepartures l).2) : d ∈ l := by
  induction l with
  | nil => exact h
  | cons e rest ih =>
    unfold reapDepartures at h
    split at h
    · exact List.mem_cons_of_mem _ h
    · exact List.mem_cons_of_mem _ (ih h)

/-- Who crashed and has not been looked after when the owner has done so, had not been before. -/
theorem crashed_of_reconcile (h : (p.reconcile n).1.Crashed cause) : p.Crashed cause := by
  have hreap : p.reap.1.Crashed cause → p.Crashed cause := by
    rintro ⟨d, hd, hcrashed⟩
    refine ⟨d, mem_reapDepartures ?_, hcrashed⟩
    unfold reap at hd
    revert hd
    rcases reapDepartures p.departures with ⟨_ | found, l⟩
    · dsimp only
      split <;> exact id
    · exact id
  unfold reconcile at h
  rcases hp : p.reap with ⟨r, _ | fault⟩
  · rw [hp] at h hreap
    dsimp only at h hreap
    split at h
    · exact hreap h
    · rw [Crashed, departures_resize] at h
      exact hreap h
  · rw [hp] at h hreap
    exact hreap h

/-- If nobody crashed and more users are alive than are there, the owner of a pool is told so. -/
theorem reap_of_missing (h : ∀ cause, ¬ p.Crashed cause)
    (hlive : p.users.length < p.live.length) :
    p.reap.2 = some (.missing p.live.length p.users.length) := by
  have hrunning : ({ p with departures := [] } : Pool σ).running = p.users.length := rfl
  unfold reap
  rw [reapDepartures_departures h]
  dsimp only
  rw [hrunning, if_pos hlive]

theorem reconcile_snd (p : Pool σ) (n : Nat) : (p.reconcile n).2 = p.reap.2 := by
  unfold reconcile
  rcases p.reap with ⟨r, _ | fault⟩ <;> rfl

/-- The owner of a pool is told of no fault exactly if nobody crashed who has not been looked
after, and no more users are alive than are there. -/
theorem reconcile_snd_eq_none_iff :
    (p.reconcile n).2 = none ↔
      (∀ cause, ¬ p.Crashed cause) ∧ p.live.length ≤ p.users.length := by
  rw [reconcile_snd]
  by_cases hcrashed : ∃ cause, p.Crashed cause
  · obtain ⟨cause, hreap, hcause⟩ := reap_of_crashed hcrashed.choose_spec
    simp only [hreap, reduceCtorEq, false_iff, not_and]
    exact fun hfine => absurd hcause (hfine cause)
  · have hfine := not_exists.1 hcrashed
    rcases Nat.lt_or_ge p.users.length p.live.length with hlive | hlive
    · simp [reap_of_missing hfine hlive, hlive]
    · simp [reap_of_not_crashed hfine hlive, hfine, hlive]

end Reap

/-! ### Faults and crashes -/

variable {w : Workload σ} {p q : Pool (σ × List Call)} {u : VirtualUser} {cause : String}

/-- An invocation that was begun has crashed by now, for this cause. -/
def HasCrashed (p : Pool (σ × List Call)) (cause : String) : Prop :=
  ∃ call ∈ p.state.2, call.2.ending = .crash cause ∧ call.1.elapsed + call.2.takes ≤ p.now

/-- The invocation that a user is in has been logged. -/
theorem Kept.mem_log (h : Kept w p) (hu : u ∈ p.users) {c : IterationContext} {i : Invocation}
    (hbusy : u.activity = .invoking c i) : (c, i) ∈ p.state.2 := by
  obtain ⟨done, hdone, -⟩ := h.kept u.id
  have hflight := inFlight_of_user? (h.valid.user?_of_mem hu)
  rw [hflight, hbusy] at hdone
  have hmem : (c, i) ∈ p.begunBy u.id := by
    rw [hdone]
    exact List.mem_append_right _ (List.mem_singleton_self _)
  exact (List.mem_filter.1 hmem).1

/-- A user that was brought down when its time had come was so by an invocation of the log. -/
theorem Kept.hasCrashed_of_doomed (h : Kept w p) (hu : u ∈ p.users) {t : Nat}
    (hdue : p.due? u = some t) (hready : t ≤ p.now) (hdoomed : Doomed u cause) :
    p.HasCrashed cause := by
  obtain ⟨c, i, hbusy, hcrash⟩ := hdoomed
  rw [due?_of_invoking hbusy, Option.some.injEq] at hdue
  exact ⟨(c, i), h.mem_log hu hbusy, hcrash, hdue ▸ hready⟩

/-- What has been logged stays in the log. -/
theorem mem_log_act (hw : p.workload = w.logged) {call : Call} (hcall : call ∈ p.state.2) :
    call ∈ (p.act u).state.2 := by
  have hacts := acts_act p u
  generalize p.act u = q at hacts ⊢
  cases hacts with
  | begin =>
    simp only [invoke, hw, Workload.logged]
    exact List.mem_append_left _ hcall
  | _ => exact hcall

/-- What has crashed has crashed for good. -/
theorem HasCrashed.move (h : p.HasCrashed cause) (hw : p.workload = w.logged) (hm : Move p q) :
    q.HasCrashed cause := by
  obtain ⟨call, hcall, hcrash, hover⟩ := h
  refine ⟨call, ?_, hcrash, Nat.le_trans hover (now_le_move hm)⟩
  cases hm with
  | act => exact mem_log_act hw hcall
  | _ => exact hcall

theorem HasCrashed.course (h : p.HasCrashed cause) (hw : p.workload = w.logged)
    (hc : Course p q) : q.HasCrashed cause := by
  have hall : q.HasCrashed cause ∧ q.workload = w.logged := by
    refine hc.preserves (P := fun r => r.HasCrashed cause ∧ r.workload = w.logged) ?_ ⟨h, hw⟩
    rintro r s hm ⟨hr, hwr⟩
    exact ⟨hr.move hwr hm, (workload_move hm).1.trans hwr⟩
  exact hall.1

/-- Whatever would be a fault of a pool can be explained: by an invocation that has crashed, or
by users that have to leave. -/
structure Explained (w : Workload σ) (p : Pool (σ × List Call)) : Prop where
  /-- Nothing that was begun has been lost. -/
  kept : Kept w p
  /-- Whoever crashed and has not been looked after did so in an invocation that was begun. -/
  crashed : ∀ cause, p.Crashed cause → p.HasCrashed cause
  /-- No live user has been lost, unless users have to leave or an invocation has crashed. -/
  sound : p.stopped = true ∨ (∃ cause, p.HasCrashed cause) ∨ p.Sound

theorem explained_fresh (w : Workload σ) (s : σ) (think : Duration) :
    Explained w ((fresh w s think).withLog []) where
  kept := kept_fresh w s think
  crashed cause := by simp [Crashed, withLog, fresh]
  sound := .inr (.inr ⟨(kept_fresh w s think).valid, by simp [Accounted, withLog, fresh], rfl⟩)

/-- Faults can still be explained after something by which nobody crashes, if no live user is
lost by it. -/
theorem Explained.of_course (h : Explained w p) (hc : Course p q)
    (hcrashed : ∀ cause, q.Crashed cause → p.Crashed cause)
    (hsound : p.Sound → q.stopped = true ∨ q.Sound) : Explained w q := by
  have hlater : ∀ cause, p.HasCrashed cause → q.HasCrashed cause :=
    fun _ hp => hp.course h.kept.workload hc
  refine ⟨h.kept.course hc,
    fun cause hq => hlater cause (h.crashed cause (hcrashed cause hq)), ?_⟩
  rcases h.sound with hstopped | hold | hp
  · exact .inl (hc.stopped hstopped)
  · exact .inr (.inl (hold.imp hlater))
  · exact (hsound hp).imp_right .inr

/-- If someone is brought down, it is by an invocation that was begun. -/
theorem Explained.act (h : Explained w p) {t : Nat} (hu : u ∈ p.users)
    (hdue : p.due? u = some t) (hready : t ≤ p.now) : Explained w (p.act u) := by
  have hmove := Move.act hu hdue hready
  have hlater : ∀ cause, p.HasCrashed cause → (p.act u).HasCrashed cause :=
    fun _ hp => hp.move h.kept.workload hmove
  refine ⟨h.kept.move hmove, ?_, ?_⟩
  · intro cause hcrashed
    rcases crashed_act.1 hcrashed with hold | hdoomed
    · exact hlater cause (h.crashed cause hold)
    · exact hlater cause (h.kept.hasCrashed_of_doomed hu hdue hready hdoomed)
  · rcases h.sound with hstopped | hold | hsound
    · exact .inl (stopped_of_move hmove hstopped)
    · exact .inr (.inl (hold.imp hlater))
    · exact .inr (.inr (hsound.act hu))

theorem Explained.tick (h : Explained w p) (ht : Tick p q) : Explained w q := by
  cases ht with
  | act mem due ready => exact h.act mem due ready
  | pass first =>
    exact h.of_course (.single (.pass first)) (fun _ => id) fun hsound => .inr (hsound.pass first)

theorem Explained.progress (h : Explained w p) (hp : Progress p q) : Explained w q := by
  induction hp with
  | refl => exact h
  | tail _ hlast ih => exact ih.tick hlast

/-- If the owner of a pool is told of a fault while users need not leave, an invocation has
crashed. -/
theorem Explained.hasCrashed_of_reconcile (h : Explained w p) (hgoing : p.stopped = false)
    {n : Nat} {fault : PoolFault} (hfault : p.reconcile n = (q, some fault)) :
    ∃ cause, p.HasCrashed cause := by
  rcases h.sound with hstopped | hcrashed | hsound
  · rw [hgoing] at hstopped
    cases hstopped
  · exact hcrashed
  · obtain ⟨cause, -, hcrashed⟩ := reconcile_some hsound.valid hsound.accounted hfault
    exact ⟨cause, h.crashed cause hcrashed⟩

/-- **Faults can be explained whatever happens.** -/
theorem Explained.deed (h : Explained w p) {count : Option Nat} (hd : Deed p q count) :
    Explained w q := by
  have hc := hd.course
  cases hd with
  | @reconcile _ n done =>
    refine h.of_course hc ?_ fun hsound => .inr (hsound.reconcile done).1
    intro cause hq
    rw [show q = (p.reconcile n).1 by rw [done]] at hq
    exact crashed_of_reconcile hq
  | @refuse _ n fault refused =>
    have hcrashed : ∀ cause, q.Crashed cause → p.Crashed cause := by
      intro cause hq
      rw [show q = (p.reconcile n).1 by rw [refused]] at hq
      exact crashed_of_reconcile hq
    -- a sound pool refuses only after a crash
    cases hgoing : p.stopped with
    | true =>
      refine h.of_course hc hcrashed fun hsound => ?_
      rw [hsound.going] at hgoing
      cases hgoing
    | false =>
      have hlater : ∀ cause, p.HasCrashed cause → q.HasCrashed cause :=
        fun _ hp => hp.course h.kept.workload hc
      exact ⟨h.kept.course hc, fun cause hq => hlater cause (h.crashed cause (hcrashed cause hq)),
        .inr (.inl ((h.hasCrashed_of_reconcile hgoing refused).imp hlater))⟩
  | start => exact h.of_course hc (fun _ => id) fun hsound => .inr hsound.start
  | stop => exact h.of_course hc (fun _ => id) fun _ => .inl rfl
  | abandon => exact h.of_course hc (fun _ => id) fun _ => .inl rfl
  | settle stopped =>
    exact h.of_course hc (by simp [Crashed, settle]) fun _ => .inl stopped
  | tick tick => exact h.tick tick

theorem Explained.chronicle {p₀ : Pool (σ × List Call)} {l : Ledger} (h : Explained w p₀)
    (hc : Chronicle p₀ l p) : Explained w p := by
  induction hc with
  | nothing => exact h
  | deed _ hd ih => exact ih.deed hd

/-- Draining shows a fault only if an invocation has crashed by the end of it. -/
theorem Explained.hasCrashed_of_drain? (h : Explained w p) {fuel : Nat} {fault : PoolFault}
    (hdrain : p.drain? fuel = some (q, some fault)) :
    ∃ cause, fault = .crash cause ∧ q.HasCrashed cause := by
  obtain ⟨r, hr, hsettle⟩ := Option.map_eq_some_iff.1 hdrain
  have hgone := (h.deed .abandon).progress (progress_exhaust? hr)
  by_cases hcrashed : ∃ cause, r.Crashed cause
  · obtain ⟨cause, hr, hcause⟩ := settle_of_crashed hcrashed.choose_spec
    rw [hr] at hsettle
    cases hsettle
    exact ⟨cause, rfl, hgone.crashed cause hcause⟩
  · rw [settle_of_not_crashed (not_exists.1 hcrashed)] at hsettle
    cases hsettle

/-! ### What the owner is told -/

/-- What the owner of a pool is told after it has done some things. -/
structure ReportsCrashes (commands : List Command) (p : Pool (σ × List Call)) : Prop where
  /-- If looking after those who left shows a fault, it is an invocation that has crashed, and the
  fault tells its cause; or users are missing, which is so after a crash, or in a pool that was
  stopped and has not been drained. -/
  reconcile : ∀ n q fault, p.reconcile n = (q, some fault) →
    (∃ cause, fault = .crash cause ∧ p.HasCrashed cause) ∨
    fault = .missing p.live.length p.users.length ∧ p.users.length < p.live.length ∧
      ((∃ cause, p.HasCrashed cause) ∨ .stop ∈ commands ∧ .drain ∉ commands)
  /-- If draining shows a fault, an invocation has crashed, and the fault tells its cause. -/
  drain : ∀ fuel q fault, p.drain? fuel = some (q, some fault) →
    ∃ cause, fault = .crash cause ∧ q.HasCrashed cause
  /-- Once users have to leave, nothing changes whatever the target is.  There is no fault exactly
  if nobody crashed who has not been looked after, and no more users are alive than are there. -/
  stopped : p.stopped = true → ∀ n, ∃ departures fault,
    p.reconcile n = ({ p with departures }, fault) ∧
    (fault = none ↔ (∀ cause, ¬ p.Crashed cause) ∧ p.live.length ≤ p.users.length)

theorem Explained.reportsCrashes (h : Explained w p) {commands : List Command}
    (halive : .drain ∈ commands → p.live = [])
    (hgoing : .stop ∉ commands → .drain ∉ commands → p.stopped = false) :
    p.ReportsCrashes commands where
  reconcile := by
    intro n q fault hfault
    have htold := reconcile_snd p n
    rw [hfault] at htold
    by_cases hfine : ∃ cause, p.Crashed cause
    · obtain ⟨cause, hreap, hcause⟩ := reap_of_crashed hfine.choose_spec
      rw [hreap, Option.some.injEq] at htold
      exact .inl ⟨cause, htold, h.crashed cause hcause⟩
    rw [not_exists] at hfine
    have hmissing : p.users.length < p.live.length := by
      by_contra hlive
      have hnone := (reconcile_snd_eq_none_iff (n := n)).2 ⟨hfine, Nat.le_of_not_lt hlive⟩
      rw [hfault] at hnone
      cases hnone
    have hdrain : .drain ∉ commands := by
      intro hdrain
      rw [halive hdrain] at hmissing
      exact absurd hmissing (Nat.not_lt_zero _)
    rw [reap_of_missing hfine hmissing, Option.some.injEq] at htold
    refine .inr ⟨htold, hmissing, or_iff_not_imp_left.2 fun hcrashed => ⟨?_, hdrain⟩⟩
    by_contra hstop
    exact hcrashed (h.hasCrashed_of_reconcile (hgoing hstop hdrain) hfault)
  drain _ _ _ hdrain := h.hasCrashed_of_drain? hdrain
  stopped hstopped n := by
    obtain ⟨departures, ⟨hq, -⟩ | ⟨-, -, hnot⟩⟩ :=
      reconcile_cases (p := p) (n := n) (q := (p.reconcile n).1) rfl
    · exact ⟨departures, (p.reconcile n).2, by rw [← hq], reconcile_snd_eq_none_iff⟩
    · rw [hstopped] at hnot
      cases hnot

/-- **A fault is a crash, unless the pool was stopped and has not been drained.**  Whatever the
workload does and whatever the owner of a pool has done, with a log or without: if it is told of
a fault, an invocation has crashed, or the pool was stopped, it has not been drained since, and
users that left because they were told to still count as alive.  Drained pools show no such
fault, and in a stopped pool nothing changes at all. -/
theorem faults_are_crashes_unless_stopped (w : Workload σ) (s : σ) (think : Duration)
    (fuel : Nat) (commands : List Command) :
    (∀ p, (fresh w s think).performAll? fuel commands = some p → ∃ calls,
      ((fresh w s think).withLog []).performAll? fuel commands = some (p.withLog calls)) ∧
    ∀ p, ((fresh w s think).withLog []).performAll? fuel commands = some p →
      p.ReportsCrashes commands := by
  refine ⟨fun p h => performAll?_withLog [] h, ?_⟩
  intro p h
  obtain ⟨l, -, hl⟩ := Chronicle.nothing.noteAll? h
  refine ((explained_fresh w s think).chronicle hl).reportsCrashes
    (fun hdrain => live_performAll?_of_drain h hdrain) ?_
  intro hstop hdrain
  exact stopped_performAll? h hstop hdrain

/-- Two users whose iterations take five milliseconds, and the second one crashes. -/
def secondCrashes : Option (Pool (Unit × List Call)) :=
  ((fresh ⟨{}, fun c s => (⟨5, if c.user = 2 then .crash "boom" else .outcome {}⟩, s)⟩ ()
    (Duration.ofMillis 50)).withLog []).performAll? 20
      [.reconcile 2, .start, .wait (Duration.ofMillis 10)]

/-- The fault that its owner is told of is a crash. -/
theorem secondCrashes_is_reported : ∃ p q, secondCrashes = some p ∧
    p.reconcile 2 = (q, some (.crash "boom")) ∧ p.HasCrashed "boom" := by
  have hrun : secondCrashes.map (fun p => (p.reconcile 2).2) = some (some (.crash "boom")) := by
    decide +kernel
  obtain ⟨p, hp, hfault⟩ := Option.map_eq_some_iff.1 hrun
  have hreconcile : p.reconcile 2 = ((p.reconcile 2).1, some (.crash "boom")) :=
    Prod.ext rfl hfault
  obtain ⟨-, hreports⟩ := faults_are_crashes_unless_stopped
    (⟨{}, fun c s => (⟨5, if c.user = 2 then .crash "boom" else .outcome {}⟩, s)⟩ :
      Workload Unit) () (Duration.ofMillis 50) 20
    [.reconcile 2, .start, .wait (Duration.ofMillis 10)]
  refine ⟨p, _, hp, hreconcile, ?_⟩
  rcases (hreports p hp).reconcile 2 _ _ hreconcile with ⟨cause, hcause, hcrashed⟩ | ⟨hcause, -⟩
  · cases hcause
    exact hcrashed
  · cases hcause

/-- Three users whose iterations take seven milliseconds are told to leave, and they do. -/
def leaveWhenTold : Option (Pool (Unit × List Call)) :=
  ((fresh ⟨{}, fun _ s => (⟨7, .outcome {}⟩, s)⟩ () (Duration.ofMillis 50)).withLog
    []).performAll? 20 [.reconcile 3, .start, .wait (Duration.ofMillis 10), .stop,
      .wait (Duration.ofMillis 10)]

/-- Then the owner of the pool is told of a fault, although nothing has crashed. -/
theorem leaveWhenTold_shows_a_fault : ∃ p q, leaveWhenTold = some p ∧
    (∀ cause, ¬ p.HasCrashed cause) ∧ p.reconcile 3 = (q, some (.missing 3 0)) := by
  have hrun : leaveWhenTold.map (fun p => (p.state.2.map fun call => call.2.ending,
      (p.reconcile 3).2)) =
      some (List.replicate 3 (.outcome {}), some (.missing 3 0)) := by
    decide +kernel
  obtain ⟨p, hp, hfields⟩ := Option.map_eq_some_iff.1 hrun
  obtain ⟨hendings, hfault⟩ := Prod.mk.inj hfields
  refine ⟨p, _, hp, ?_, Prod.ext rfl hfault⟩
  rintro cause ⟨call, hcall, hcrash, -⟩
  have hmem : call.2.ending ∈ List.replicate 3 (Ending.outcome {}) :=
    hendings ▸ List.mem_map_of_mem hcall
  rw [hcrash] at hmem
  cases List.eq_of_mem_replicate hmem

end StagedLoad.Pool
