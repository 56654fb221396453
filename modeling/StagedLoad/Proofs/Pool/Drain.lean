import StagedLoad.Proofs.Pool.Move

/-!
# Stopped pools

In a stopped pool every user has something to do next, and whatever a user does, it leaves.
So the users of a stopped pool are used up, and none ever comes back.

## Main definitions

* `Pool.Emptied` — the pool is stopped, and nobody is left or alive.

## Main results

* `length_users_act_lt` — each act of a stopped pool removes a user.
* `drain?_isSome` — draining comes to an end.
* `emptied_drain?` — it leaves nobody.
-/

namespace StagedLoad.Pool

variable {σ : Type} {p q : Pool σ} {u : VirtualUser} {t : Nat}

/-- A pool that has been stopped stays stopped. -/
theorem stopped_of_move (h : Move p q) (hp : p.stopped = true) : q.stopped = true := by
  cases h with
  | act => rwa [stopped_act]
  | stop => rfl
  | _ => exact hp

theorem Course.stopped (h : Course p q) (hp : p.stopped = true) : q.stopped = true :=
  h.preserves (fun _ _ => stopped_of_move) hp

/-! ### Everybody leaves -/

/-- In a stopped pool every user is due at some time. -/
theorem due?_of_stopped (hp : p.stopped = true) (u : VirtualUser) : ∃ d, p.due? u = some d := by
  unfold due? VirtualUser.due?
  cases u.activity <;> simp [hp]

theorem users_eq_nil_of_next?_eq_none (hp : p.stopped = true) (h : p.next? = none) :
    p.users = [] := by
  rw [List.eq_nil_iff_forall_not_mem]
  intro u hu
  obtain ⟨d, hd⟩ := due?_of_stopped hp u
  rw [next?_eq_none h hu] at hd
  cases hd

/-- In a stopped pool whatever a user does, it leaves. -/
theorem users_act_of_stopped (hp : p.stopped = true) (u : VirtualUser) :
    (p.act u).users = p.users.filter fun v => v.id != u.id := by
  have hmust : u.mustLeave p.stopped = true := by simp [VirtualUser.mustLeave, hp]
  exact (act_of_mustLeave hmust).2

/-- So after each act there is one user less. -/
theorem length_users_act_lt (hp : p.stopped = true) (hu : u ∈ p.users) :
    (p.act u).users.length < p.users.length := by
  rw [users_act_of_stopped hp]
  exact List.length_filter_lt_length_iff_exists.2 ⟨u, hu, by simp⟩

theorem exhaust?_isSome {fuel : Nat} (hp : p.stopped = true) (h : p.users.length < fuel) :
    ∃ q, exhaust? fuel p = some q := by
  induction fuel generalizing p with
  | zero => omega
  | succ fuel ih =>
    unfold exhaust?
    cases hstep : p.step? with
    | none => exact ⟨p, rfl⟩
    | some q =>
      obtain ⟨⟨t, u⟩, hnext, rfl⟩ := Option.map_eq_some_iff.1 hstep
      have hu := (next?_eq_some hnext).1
      have hlt : (p.actAt t u).users.length < p.users.length :=
        length_users_act_lt (p := { p with now := max p.now t }) hp hu
      exact ih ((course_actAt hnext).stopped hp) (Nat.lt_of_lt_of_le hlt (Nat.le_of_lt_succ h))

theorem next?_of_exhaust? {fuel : Nat} (h : exhaust? fuel p = some q) : q.next? = none := by
  induction fuel generalizing p with
  | zero => cases h
  | succ fuel ih =>
    unfold exhaust? at h
    split at h
    case h_1 => exact ih h
    case h_2 hstep =>
      cases h
      exact Option.map_eq_none_iff.1 hstep

/-- Draining a pool comes to an end: it takes no more acts than there are users. -/
theorem drain?_isSome (p : Pool σ) {fuel : Nat} (h : p.users.length < fuel) :
    ∃ q fault, p.drain? fuel = some (q, fault) := by
  obtain ⟨r, hr⟩ := exhaust?_isSome (p := p.abandon) rfl h
  exact ⟨r.settle.1, r.settle.2, by rw [drain?, hr]; rfl⟩

/-! ### Nobody comes back -/

/-- The pool is stopped, and nobody is left or alive. -/
structure Emptied (p : Pool σ) : Prop where
  /-- Users have to leave. -/
  stopped : p.stopped = true
  /-- Nobody is left. -/
  users : p.users = []
  /-- Nobody is alive. -/
  live : p.live = []

/-- In a stopped pool that gave up its users nobody is alive. -/
theorem live_eq_nil_of_move (h : Move p q) (hp : p.stopped = true ∧ p.live = []) :
    q.stopped = true ∧ q.live = [] := by
  refine ⟨stopped_of_move h hp.1, ?_⟩
  cases h with
  | act => rw [live_act]; exact hp.2
  | spawn going => rw [hp.1] at going; cases going
  | retire => simp [retireBeyond, hp.2]
  | clear => rfl
  | _ => exact hp.2

/-- Nothing that happens to a pool brings anyone into it once it has been emptied. -/
theorem Emptied.move (hp : p.Emptied) (h : Move p q) : q.Emptied := by
  obtain ⟨hstopped, hlive⟩ := live_eq_nil_of_move h ⟨hp.stopped, hp.live⟩
  refine ⟨hstopped, ?_, hlive⟩
  cases h with
  | act mem => rw [hp.users] at mem; cases mem
  | spawn going => rw [hp.stopped] at going; cases going
  | retire => simp [retireBeyond, hp.users]
  | _ => exact hp.users

/-- A stopped pool that gave up its users and in which nobody is due is empty. -/
theorem emptied_of_next?_eq_none (hp : p.stopped = true ∧ p.live = []) (h : p.next? = none) :
    p.Emptied :=
  ⟨hp.1, users_eq_nil_of_next?_eq_none hp.1 h, hp.2⟩

/-- Draining leaves nobody, and nobody to be looked after. -/
theorem emptied_drain? {fuel : Nat} {fault : Option PoolFault}
    (h : p.drain? fuel = some (q, fault)) : q.Emptied ∧ q.running = 0 := by
  obtain ⟨r, hr, hsettle⟩ := Option.map_eq_some_iff.1 h
  have hq : q = r.settle.1 := by rw [hsettle]
  subst hq
  have hempty := emptied_of_next?_eq_none
    ((course_exhaust? hr).preserves (fun _ _ => live_eq_nil_of_move) ⟨rfl, rfl⟩)
    (next?_of_exhaust? hr)
  exact ⟨hempty.move (move_settle r), by simp [running, settle, hempty.users]⟩

end StagedLoad.Pool
