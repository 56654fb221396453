import Mathlib.Data.List.Perm.Subperm
import StagedLoad.Proofs.Pool.Resize
import StagedLoad.Proofs.Pool.Users

/-!
# Crashes in a pool

An invocation that crashes is in flight first, then its user is among the departures, and
there the owner of the pool finds it.  While a pool is not stopped a live user can only be
missing because it crashed, so the owner never finds anything else wrong.

## Main definitions

* `Pool.calls`, `Pool.Crashing` — the invocations in flight, and that one of them will crash for
  some cause.
* `Pool.Genuine` — the workload makes the invocations in flight.
* `Pool.Crashed`, `Pool.Tainted` — that a user crashed for some cause and has not been looked
  after, and that there will be such a user or is one.
* `Pool.Accounted` — every live user is there, or it crashed.
* `Pool.Sound` — the pool of a run that follows its schedule.

## Main results

* `tainted_act` — a pool is tainted as long as a crash has not been found.
* `Accounted.act`, `Accounted.resize` — live users do not get lost.
* `reconcile_some`, `reconcile_none` — what the owner finds is a crash, and it finds every crash.
* `Sound.actAt`, `Sound.reconcile` — such a pool stays sound.
-/

namespace StagedLoad.Pool

variable {σ : Type} {p q : Pool σ} {u : VirtualUser} {n : Nat} {cause : String}

/-- The invocations in flight. -/
def calls (p : Pool σ) : List (IterationContext × Invocation) :=
  p.users.filterMap fun u => u.activity.call?

/-- An invocation in flight will crash, for this cause. -/
def Crashing (p : Pool σ) (cause : String) : Prop := ∃ call ∈ p.calls, call.2.ending = .crash cause

/-- A user crashed for this cause and has not been looked after. -/
def Crashed (p : Pool σ) (cause : String) : Prop := ∃ d ∈ p.departures, d.cause = some cause

/-- A user crashed for this cause and has not been looked after, or will crash. -/
def Tainted (p : Pool σ) (cause : String) : Prop := p.Crashing cause ∨ p.Crashed cause

/-! ### The invocations in flight -/

theorem calls_spawn (p : Pool σ) : p.spawn.calls = p.calls := by
  simp [calls, spawn]

theorem calls_spawnMany (n : Nat) (p : Pool σ) : (spawnMany n p).calls = p.calls := by
  induction n generalizing p with
  | zero => rfl
  | succ n ih => rw [spawnMany, ih, calls_spawn]

theorem calls_retireBeyond (p : Pool σ) (keep : Nat) : (p.retireBeyond keep).calls = p.calls := by
  simp only [calls, retireBeyond, List.filterMap_map]
  congr 1
  funext u
  dsimp only [Function.comp]
  split <;> rfl

theorem calls_resize (p : Pool σ) (target : Nat) : (p.resize target).calls = p.calls := by
  unfold resize
  split
  · exact calls_retireBeyond p target
  · exact calls_spawnMany _ p

theorem mem_calls_of_depart {call : IterationContext × Invocation} {b : Option String}
    (h : call ∈ (p.depart u b).calls) : call ∈ p.calls := by
  obtain ⟨v, hv, hcall⟩ := List.mem_filterMap.1 h
  exact List.mem_filterMap.2 ⟨v, (List.mem_filter.1 hv).1, hcall⟩

theorem mem_calls_of_put {call : IterationContext × Invocation} {state : σ}
    (h : call ∈ (p.put state u).calls) : u.activity.call? = some call ∨ call ∈ p.calls := by
  obtain ⟨v, hv, hcall⟩ := List.mem_filterMap.1 h
  rcases mem_setUser hv with rfl | hv
  · exact .inl hcall
  · exact .inr (List.mem_filterMap.2 ⟨v, hv, hcall⟩)

/-- The invocations in flight after a user has acted were in flight before, or it is one that
the workload has just made. -/
theorem mem_calls_of_act {call : IterationContext × Invocation} (h : call ∈ (p.act u).calls) :
    call ∈ p.calls ∨ (p.workload.invoke call.1 p.state).1 = call.2 := by
  have hacts := acts_act p u
  generalize p.act u = q at hacts h
  cases hacts with
  | leave => exact .inl (mem_calls_of_depart h)
  | begin =>
    rw [invoke_eq_put] at h
    rcases mem_calls_of_put h with hnew | hold
    · cases hnew
      exact .inr rfl
    · exact .inl hold
  | crash => exact .inl (mem_calls_of_depart h)
  | @finish c i s => exact .inl (mem_calls_of_depart (p := p.record u s) h)
  | @pause c i s =>
    rw [pause_eq_put] at h
    rcases mem_calls_of_put h with hnew | hold
    · cases hnew
    · exact .inl hold

/-- Every invocation in flight is one that the workload makes. -/
def Genuine (p : Pool σ) : Prop :=
  ∀ call ∈ p.calls, ∃ state, (p.workload.invoke call.1 state).1 = call.2

theorem Genuine.move (h : p.Genuine) (hm : Move p q) : q.Genuine := by
  intro call hcall
  cases hm with
  | act =>
    rw [workload_act]
    rcases mem_calls_of_act hcall with hold | hnew
    · exact h call hold
    · exact ⟨_, hnew⟩
  | spawn =>
    rw [calls_spawn] at hcall
    exact h call hcall
  | retire =>
    rw [calls_retireBeyond] at hcall
    exact h call hcall
  | _ => exact h call hcall

theorem Genuine.course (h : p.Genuine) (hc : Course p q) : q.Genuine :=
  hc.preserves (fun _ _ hm h => h.move hm) h

theorem genuine_of_users_eq_nil (h : p.users = []) : p.Genuine := by
  simp [Genuine, calls, h]

/-! ### Tainted pools -/

/-- The invocation that a user is in will crash, for this cause. -/
def Doomed (u : VirtualUser) (cause : String) : Prop :=
  ∃ c i, u.activity = .invoking c i ∧ i.ending = .crash cause

theorem not_doomed_of_idle (idle : u.activity.call? = none) : ¬ Doomed u cause := by
  rintro ⟨c, i, hbusy, -⟩
  rw [hbusy] at idle
  cases idle

theorem not_doomed_of_kept {c : IterationContext} {i : Invocation} {s : Sample}
    (busy : u.activity = .invoking c i) (kept : Sample.ofInvocation? c i = some s) :
    ¬ Doomed u cause := by
  rintro ⟨c, i, hbusy, hcrash⟩
  rw [busy] at hbusy
  cases hbusy
  rw [Sample.ofInvocation?_eq_none_iff.2 ⟨cause, hcrash⟩] at kept
  cases kept

theorem crashing_iff : p.Crashing cause ↔ ∃ u ∈ p.users, Doomed u cause := by
  simp only [Crashing, calls, List.mem_filterMap, Activity.call?_eq_some]
  constructor
  · rintro ⟨call, ⟨u, hu, hbusy⟩, hcrash⟩
    exact ⟨u, hu, call.1, call.2, hbusy, hcrash⟩
  · rintro ⟨u, hu, c, i, hbusy, hcrash⟩
    exact ⟨(c, i), ⟨u, hu, hbusy⟩, hcrash⟩

theorem crashing_congr (h : q.calls = p.calls) : q.Crashing cause ↔ p.Crashing cause := by
  rw [Crashing, Crashing, h]

theorem not_crashing_of_genuine (h : p.Genuine)
    (hworkload : ∀ c state, (p.workload.invoke c state).1.ending.cause? = none) :
    ¬ p.Crashing cause := by
  rintro ⟨call, hcall, hcrash⟩
  obtain ⟨state, hstate⟩ := h call hcall
  have hfine := hworkload call.1 state
  rw [hstate, hcrash] at hfine
  cases hfine

theorem not_crashing_of_users_eq_nil (h : p.users = []) : ¬ p.Crashing cause := by
  simp [Crashing, calls, h]

theorem crashed_depart (p : Pool σ) (u : VirtualUser) (b : Option String) :
    (p.depart u b).Crashed cause ↔ p.Crashed cause ∨ b = some cause := by
  simp only [Crashed, depart, List.mem_append, List.mem_singleton, or_and_right, exists_or,
    exists_eq_left]

/-- When a user has acted, it crashed if that was what its invocation would do. -/
theorem crashed_act : (p.act u).Crashed cause ↔ p.Crashed cause ∨ Doomed u cause := by
  have hacts := acts_act p u
  generalize p.act u = q at hacts ⊢
  cases hacts with
  | leave idle =>
    have hfine : ¬ Doomed u cause := not_doomed_of_idle idle
    simp [crashed_depart, hfine]
  | begin idle => exact (or_iff_left (not_doomed_of_idle idle)).symm
  | @crash c i own busy lost =>
    have hdoomed : Doomed u cause ↔ own = cause := by simp [Doomed, busy, lost]
    simp [crashed_depart, hdoomed]
  | @finish c i s busy kept =>
    have hfine : ¬ Doomed u cause := not_doomed_of_kept busy kept
    have hrecord : (p.record u s).Crashed cause ↔ p.Crashed cause := Iff.rfl
    simp [crashed_depart, hfine, hrecord]
  | pause busy kept => exact (or_iff_left (not_doomed_of_kept busy kept)).symm

/-- An invocation that will crash is still in flight when another user has acted; when its own
user has acted, that user crashed. -/
theorem tainted_act_of_crashing (h : p.Valid) (hu : u ∈ p.users)
    (hp : p.Crashing cause) : (p.act u).Tainted cause := by
  obtain ⟨v, hv, hdoomed⟩ := crashing_iff.1 hp
  by_cases hid : v.id = u.id
  · -- users are told apart by their numbers
    have huv : u = v := by
      have hlookup := h.user?_of_mem hv
      rw [hid, h.user?_of_mem hu] at hlookup
      exact Option.some.inj hlookup
    subst huv
    exact .inr (crashed_act.2 (.inr hdoomed))
  · have hlookup : (p.act u).user? v.id = some v := by
      rw [user?_act_of_ne hid, h.user?_of_mem hv]
    exact .inl (crashing_iff.2 ⟨v, (mem_of_user? hlookup).1, hdoomed⟩)

/-- A pool is tainted after a user has acted if it was before, or if the user began an
invocation that will crash. -/
theorem tainted_act (h : p.Valid) (hu : u ∈ p.users) :
    (p.act u).Tainted cause ↔ p.Tainted cause ∨ (p.act u).Crashing cause := by
  constructor
  · rintro (hcrashing | hcrashed)
    · exact .inr hcrashing
    · rcases crashed_act.1 hcrashed with hold | hdoomed
      · exact .inl (.inr hold)
      · exact .inl (.inl (crashing_iff.2 ⟨u, hu, hdoomed⟩))
  · rintro ((hcrashing | hcrashed) | hcrashing)
    · exact tainted_act_of_crashing h hu hcrashing
    · exact .inr (crashed_act.2 (.inl hcrashed))
    · exact .inl hcrashing

/-! ### Live users do not get lost -/

/-- Every live user is there and has not been told to leave, or it crashed and has not been
looked after. -/
def Accounted (p : Pool σ) : Prop :=
  ∀ id ∈ p.live, (∃ u, p.user? id = some u ∧ u.retired = false) ∨
    ∃ cause, ⟨id, some cause⟩ ∈ p.departures

theorem Accounted.act (h : p.Accounted) (hvalid : p.Valid) (hu : u ∈ p.users)
    (hgoing : p.stopped = false) : (p.act u).Accounted := by
  have huser := hvalid.user?_of_mem hu
  have hretired : ∀ {b}, u.mustLeave p.stopped = b → u.retired = b := by
    intro b hb
    simpa [VirtualUser.mustLeave, hgoing] using hb
  intro id hlive
  rw [live_act] at hlive
  by_cases hid : id = u.id
  · subst hid
    -- who has been told to leave is not alive
    have hcrashed : u.mustLeave p.stopped = true → ∃ cause, ⟨u.id, some cause⟩ ∈ p.departures := by
      intro hmust
      rcases h u.id hlive with ⟨v, hv, hstays⟩ | hcrashed
      · rw [huser] at hv
        cases hv
        rw [hretired hmust] at hstays
        cases hstays
      · exact hcrashed
    have hacts := acts_act p u
    generalize p.act u = q at hacts ⊢
    cases hacts with
    | leave _ must => exact .inr ((hcrashed must).imp fun _ => List.mem_append_left _)
    | begin _ may =>
      rw [invoke_eq_put, user?_put, if_pos rfl, huser]
      exact .inl ⟨_, rfl, hretired may⟩
    | crash => exact .inr (by simp [depart])
    | finish _ _ must => exact .inr ((hcrashed must).imp fun _ => List.mem_append_left _)
    | @pause c i s _ _ may =>
      rw [pause_eq_put, user?_put, if_pos rfl, show (p.record u s).user? u.id = some u from huser]
      exact .inl ⟨_, rfl, hretired may⟩
  · refine (h id hlive).imp (fun hthere => by rwa [user?_act_of_ne hid]) fun hcrashed => ?_
    have hacts := acts_act p u
    generalize p.act u = q at hacts ⊢
    cases hacts with
    | leave => exact hcrashed.imp fun _ => List.mem_append_left _
    | crash => exact hcrashed.imp fun _ => List.mem_append_left _
    | finish => exact hcrashed.imp fun _ => List.mem_append_left _
    | _ => exact hcrashed

theorem Accounted.spawn (h : p.Accounted) (hvalid : p.Valid) : p.spawn.Accounted := by
  intro id hlive
  rw [hvalid.user?_spawn]
  split
  case isTrue => exact .inl ⟨_, rfl, rfl⟩
  case isFalse hid =>
    rcases List.mem_append.1 hlive with hlive | hlive
    · exact h id hlive
    · exact absurd (List.mem_singleton.1 hlive) hid

theorem Accounted.spawnMany (h : p.Accounted) (hvalid : p.Valid) (n : Nat) :
    (spawnMany n p).Accounted := by
  induction n generalizing p with
  | zero => exact h
  | succ n ih => exact ih (h.spawn hvalid) hvalid.spawn

theorem Accounted.retireBeyond (h : p.Accounted) (hvalid : p.Valid) (keep : Nat) :
    (p.retireBeyond keep).Accounted := by
  intro id hlive
  -- live numbers ascend, so those that stay are not among those that are told to leave
  have hkept : id ∉ p.live.drop keep := by
    intro hdrop
    have hsplit := hvalid.live_ascending
    rw [← List.take_append_drop keep p.live, List.pairwise_append] at hsplit
    exact Nat.lt_irrefl id (hsplit.2.2 id hlive id hdrop)
  rw [user?_retireBeyond]
  refine (h id (List.mem_of_mem_take hlive)).imp_left ?_
  rintro ⟨u, hu, hretired⟩
  exact ⟨u, by rw [hu]; simp [hkept], hretired⟩

theorem Accounted.resize (h : p.Accounted) (hvalid : p.Valid) (target : Nat) :
    (p.resize target).Accounted := by
  unfold Pool.resize
  split
  · exact h.retireBeyond hvalid target
  · exact h.spawnMany hvalid _

/-- If nobody crashed, there are no more live users than users. -/
theorem Accounted.length_live_le (h : p.Accounted) (hvalid : p.Valid)
    (hfine : ∀ cause, ¬ p.Crashed cause) :
    p.live.length ≤ p.users.length := by
  -- live numbers are different from each other, and each is that of a user who is there
  have hsubset : p.live ⊆ p.users.map VirtualUser.id := by
    intro id hlive
    rcases h id hlive with ⟨u, hu, -⟩ | ⟨cause, hcrashed⟩
    · obtain ⟨hmem, rfl⟩ := mem_of_user? hu
      exact List.mem_map_of_mem hmem
    · exact absurd ⟨_, hcrashed, rfl⟩ (hfine cause)
  have hnodup : p.live.Nodup := hvalid.live_ascending.imp Nat.ne_of_lt
  simpa using (hnodup.subperm hsubset).length_le

/-! ### What the owner finds -/

theorem reapDepartures_of_not_crashed {l : List Departure} (h : ∀ d ∈ l, d.cause = none) :
    reapDepartures l = (none, []) := by
  induction l with
  | nil => rfl
  | cons d rest ih =>
    rw [List.forall_mem_cons] at h
    simp [reapDepartures, h.1, ih h.2]

theorem reapDepartures_departures (h : ∀ cause, ¬ p.Crashed cause) :
    reapDepartures p.departures = (none, []) :=
  reapDepartures_of_not_crashed fun d hd =>
    Option.eq_none_iff_forall_ne_some.2 fun cause hcrashed => h cause ⟨d, hd, hcrashed⟩

/-- Looking after departures tells the first cause among them. -/
theorem reapDepartures_fst (l : List Departure) :
    (reapDepartures l).1 = l.findSome? Departure.cause := by
  induction l with
  | nil => rfl
  | cons d rest ih =>
    rw [reapDepartures, List.findSome?_cons]
    cases d.cause <;> simp [ih]

/-- Among the users that have left, one that crashed is found if there is one. -/
theorem exists_findSome?_of_crashed (h : p.Crashed cause) :
    ∃ cause, p.departures.findSome? Departure.cause = some cause ∧ p.Crashed cause := by
  obtain ⟨d, hd, hcause⟩ := h
  cases hfound : p.departures.findSome? Departure.cause with
  | none =>
    rw [List.findSome?_eq_none_iff.1 hfound d hd] at hcause
    cases hcause
  | some cause => exact ⟨cause, rfl, List.exists_of_findSome?_eq_some hfound⟩

/-- The owner finds a crash if there is one, and is told its cause. -/
theorem reap_of_crashed (h : p.Crashed cause) :
    ∃ cause, p.reap.2 = some (.crash cause) ∧ p.Crashed cause := by
  obtain ⟨first, hfirst, hcrashed⟩ := exists_findSome?_of_crashed h
  refine ⟨first, ?_, hcrashed⟩
  rw [← reapDepartures_fst] at hfirst
  simp [reap, hfirst]

/-- If nobody crashed, the owner finds nothing unless more users are alive than are there. -/
theorem reap_of_not_crashed (h : ∀ cause, ¬ p.Crashed cause)
    (hlive : p.live.length ≤ p.users.length) :
    p.reap = ({ p with departures := [] }, none) := by
  have hrunning : ¬ ({ p with departures := [] } : Pool σ).running < p.live.length := by
    simpa [running] using hlive
  unfold reap
  rw [reapDepartures_departures h]
  exact if_neg hrunning

/-- What the owner of a pool finds wrong is that someone crashed. -/
theorem reconcile_some {fault : PoolFault} (hvalid : p.Valid) (hlive : p.Accounted)
    (h : p.reconcile n = (q, some fault)) : ∃ cause, fault = .crash cause ∧ p.Crashed cause := by
  -- without a crash there are at least as many users as should be alive, so nothing is found
  by_cases hcrashed : ∃ cause, p.Crashed cause
  · obtain ⟨cause, hreap, hcause⟩ := reap_of_crashed hcrashed.choose_spec
    unfold reconcile at h
    split at h
    case h_1 hp => cases h; rw [hp] at hreap; cases hreap; exact ⟨cause, rfl, hcause⟩
    case h_2 => cases h
  · have hfine := not_exists.1 hcrashed
    rw [reconcile, reap_of_not_crashed hfine (hlive.length_live_le hvalid hfine)] at h
    cases h

/-- If the owner of a pool finds nothing wrong, nobody crashed, and the number of live users is
brought to the target. -/
theorem reconcile_none (hvalid : p.Valid) (hlive : p.Accounted) (hgoing : p.stopped = false)
    (h : p.reconcile n = (q, none)) :
    (∀ cause, ¬ p.Crashed cause) ∧ q = ({ p with departures := [] } : Pool σ).resize n := by
  by_cases hcrashed : ∃ cause, p.Crashed cause
  · obtain ⟨cause, hreap, -⟩ := reap_of_crashed hcrashed.choose_spec
    unfold reconcile at h
    split at h
    case h_1 => cases h
    case h_2 hp => rw [hp] at hreap; cases hreap
  · have hfine := not_exists.1 hcrashed
    rw [reconcile, reap_of_not_crashed hfine (hlive.length_live_le hvalid hfine)] at h
    dsimp only at h
    rw [if_neg (by simp [hgoing])] at h
    cases h
    exact ⟨hfine, rfl⟩

/-! ### Sound pools -/

/-- A lawful pool that has not been stopped and whose live users are accounted for. -/
structure Sound (p : Pool σ) : Prop where
  /-- Users are numbered and have their shards. -/
  valid : p.Valid
  /-- No live user has been lost. -/
  accounted : p.Accounted
  /-- Users do not have to leave. -/
  going : p.stopped = false

theorem Sound.act (h : p.Sound) (hu : u ∈ p.users) : (p.act u).Sound :=
  ⟨h.valid.act hu, h.accounted.act h.valid hu h.going, by rw [stopped_act, h.going]⟩

theorem Sound.pass {t : Nat} (h : p.Sound) (hfirst : p.NoneDueBefore t) :
    ({ p with now := max p.now t } : Pool σ).Sound :=
  ⟨h.valid.pass hfirst, h.accounted, h.going⟩

theorem Sound.start (h : p.Sound) : p.start.Sound := ⟨h.valid.start, h.accounted, h.going⟩

@[simp] theorem departures_resize (p : Pool σ) (target : Nat) :
    (p.resize target).departures = p.departures := by
  obtain ⟨_, _, _, _, h, -, -⟩ := resize_spec p target
  rw [h]

@[simp] theorem stopped_resize (p : Pool σ) (target : Nat) :
    (p.resize target).stopped = p.stopped := by
  obtain ⟨_, _, _, _, h, -, -⟩ := resize_spec p target
  rw [h]

/-- If the owner of a sound pool finds nothing wrong, the pool stays sound, and it is as tainted
as it was. -/
theorem Sound.reconcile (h : p.Sound) (hnone : p.reconcile n = (q, none)) :
    q.Sound ∧ ∀ cause, q.Tainted cause ↔ p.Tainted cause := by
  obtain ⟨hfine, rfl⟩ := reconcile_none h.valid h.accounted h.going hnone
  have htended : ({ p with departures := [] } : Pool σ).Accounted := by
    intro id hlive
    refine (h.accounted id hlive).imp_right ?_
    rintro ⟨cause, hcrashed⟩
    exact absurd ⟨_, hcrashed, rfl⟩ (hfine cause)
  have hvalid : ({ p with departures := [] } : Pool σ).Valid := { h.valid with }
  have hresize := course_resize (p := { p with departures := [] }) n h.going
  refine ⟨⟨hresize.valid hvalid, htended.resize hvalid n, ?_⟩, fun cause => ?_⟩
  · rw [stopped_resize]
    exact h.going
  · have hcrashed : ¬ (({ p with departures := [] } : Pool σ).resize n).Crashed cause := by
      simp [Crashed]
    rw [Tainted, Tainted, or_iff_left hcrashed, or_iff_left (hfine cause)]
    exact crashing_congr (calls_resize _ n)

/-- The user that is due first acts in a sound pool. -/
theorem Sound.actAt {t : Nat} (h : p.Sound) (hnext : p.next? = some (t, u)) :
    (p.actAt t u).Sound :=
  (h.pass (next?_eq_some hnext).2.2).act (next?_eq_some hnext).1

/-- A pool is tainted after the user that is due first has acted if it was before, or if the
user began an invocation that will crash. -/
theorem tainted_actAt {t : Nat} (h : p.Valid) (hnext : p.next? = some (t, u)) :
    (p.actAt t u).Tainted cause ↔ p.Tainted cause ∨ (p.actAt t u).Crashing cause :=
  tainted_act (h.pass (next?_eq_some hnext).2.2) (next?_eq_some hnext).1

/-- Looking after everyone who has left finds a crash if there is one. -/
theorem settle_of_crashed (h : p.Crashed cause) :
    ∃ cause, p.settle = ({ p with departures := [] }, some (.crash cause)) ∧ p.Crashed cause := by
  obtain ⟨first, hfirst, hcrashed⟩ := exists_findSome?_of_crashed h
  exact ⟨first, by rw [settle, hfirst]; rfl, hcrashed⟩

/-- Looking after everyone who has left finds nothing else. -/
theorem settle_of_not_crashed (h : ∀ cause, ¬ p.Crashed cause) :
    p.settle = ({ p with departures := [] }, none) := by
  have hnone : p.departures.findSome? Departure.cause = none := by
    rw [← reapDepartures_fst, reapDepartures_departures h]
  rw [settle, hnone]
  rfl

end StagedLoad.Pool
