import Mathlib.Algebra.GroupWithZero.Nat
import StagedLoad.Proofs.Pool.Crash

/-!
# What users can do within a millisecond

If every invocation takes time or is followed by a pause, a user that is due can do three
things at most before it is due later: its invocation ends, it begins another one that takes
no time, and that one ends too.  So only so much can happen before the clock goes on.

## Main definitions

* `Workload.TakesTime` — every invocation takes time or is followed by a pause.
* `Pool.pending` — how many things users can do before the clock goes on, or more.

## Main results

* `pending_act_lt`, `pending_actAt_lt` — whatever a user does, less can be done afterwards.
-/

namespace StagedLoad

/-- An invocation takes time, or is followed by a pause. -/
def Invocation.TakesTime (think : Duration) (i : Invocation) : Prop :=
  0 < i.takes ∨ 0 < (i.ending.thinkTime think).startedMillis

/-- Every invocation of a workload takes time or is followed by a pause. -/
def Workload.TakesTime {σ : Type} (w : Workload σ) (think : Duration) : Prop :=
  ∀ c s, (w.invoke c s).1.TakesTime think

/-- How many things a user can do by a time at which it is due, or more. -/
def Activity.pending : Activity → Nat
  | waiting => 2
  | invoking _ i => if i.takes = 0 then 1 else 3
  | thinking _ => 2

theorem Activity.pending_pos (a : Activity) : 0 < a.pending := by
  unfold pending
  split
  · decide
  · split <;> decide
  · decide

/-- How many things a user can do now, or more. -/
def VirtualUser.pending (started stopped : Bool) (now : Nat) (u : VirtualUser) : Nat :=
  if (u.due? started stopped now).any (· ≤ now) then u.activity.pending else 0

/-! ### Sums over the users -/

section Sums

variable {l : List VirtualUser} {u v : VirtualUser} (f : VirtualUser → Nat)

theorem setUser_of_forall_ne (h : ∀ w ∈ l, w.id ≠ v.id) : Pool.setUser v l = l := by
  induction l with
  | nil => rfl
  | cons w l ih =>
    rw [List.forall_mem_cons] at h
    rw [Pool.setUser_cons, if_neg h.1, ih h.2]

/-- Changing one user changes one summand. -/
theorem sum_map_setUser (hids : (l.map VirtualUser.id).Pairwise (· < ·)) (hu : u ∈ l)
    (hid : v.id = u.id) :
    ((Pool.setUser v l).map f).sum + f u = (l.map f).sum + f v := by
  induction l with
  | nil => cases hu
  | cons w l ih =>
    rw [List.map_cons, List.pairwise_cons] at hids
    have hfar : ∀ x ∈ l, x.id ≠ w.id := fun x hx =>
      Nat.ne_of_gt (hids.1 x.id (List.mem_map_of_mem hx))
    rw [Pool.setUser_cons, List.map_cons, List.sum_cons, List.map_cons, List.sum_cons]
    rcases List.mem_cons.1 hu with rfl | hu
    · -- nobody else has this number
      have hrest := setUser_of_forall_ne (v := v) fun x hx => hid ▸ hfar x hx
      rw [if_pos hid.symm, hrest]
      omega
    · have hne : w.id ≠ v.id := fun h => hfar u hu (hid.symm.trans h.symm)
      have := ih hids.2 hu
      rw [if_neg hne]
      omega

end Sums

namespace Pool

variable {σ : Type} {p : Pool σ} {u v : VirtualUser} {t : Nat}

/-- How many things users can do before the clock goes on, or more. -/
def pending (p : Pool σ) : Nat :=
  (p.users.map (VirtualUser.pending p.started p.stopped p.now)).sum

theorem pending_of_due (hdue : p.due? u = some t) (hready : t ≤ p.now) :
    u.pending p.started p.stopped p.now = u.activity.pending := by
  rw [VirtualUser.pending, if_pos]
  rw [show u.due? p.started p.stopped p.now = some t from hdue]
  simpa using hready

theorem pending_of_later (hdue : p.due? u = some t) (hlater : p.now < t) :
    u.pending p.started p.stopped p.now = 0 := by
  rw [VirtualUser.pending, if_neg]
  rw [show u.due? p.started p.stopped p.now = some t from hdue]
  simpa using hlater

theorem pending_depart (h : p.Valid) (cause : Option String) (hu : u ∈ p.users)
    (hdue : p.due? u = some t) (hready : t ≤ p.now) : (p.depart u cause).pending < p.pending := by
  have hperm := (h.users_perm hu cause).map (VirtualUser.pending p.started p.stopped p.now)
  have hsum := hperm.sum_nat
  rw [List.map_cons, List.sum_cons, pending_of_due hdue hready] at hsum
  have hpos := u.activity.pending_pos
  rw [pending, pending, hsum]
  exact Nat.lt_add_of_pos_left hpos

/-- A change of a user that leaves it less to do now leaves everyone less to do now. -/
theorem pending_put (h : p.Valid) {state : σ} (hu : u ∈ p.users) (hid : v.id = u.id)
    (hdue : p.due? u = some t) (hready : t ≤ p.now)
    (hless : v.pending p.started p.stopped p.now < u.activity.pending) :
    (p.put state v).pending < p.pending := by
  have hsum := sum_map_setUser (VirtualUser.pending p.started p.stopped p.now) h.ascending hu hid
  rw [pending_of_due hdue hready] at hsum
  rw [pending, pending, put]
  dsimp only
  omega

/-- An invocation that has just begun leaves less to do than the decision to begin it. -/
theorem pending_invoking {c : IterationContext} {i : Invocation}
    (hactivity : v.activity = .invoking c i) (hnow : c.elapsed = p.now) :
    v.pending p.started p.stopped p.now < 2 := by
  have hdue := due?_of_invoking (p := p) hactivity
  rcases Nat.eq_zero_or_pos i.takes with hzero | hpos
  · rw [pending_of_due hdue (by omega), hactivity, Activity.pending, if_pos hzero]
    decide
  · rw [pending_of_later hdue (by omega)]
    decide

/-- A pause after an invocation leaves less to do than the end of the invocation, if one of them
takes time. -/
theorem pending_thinking {i : Invocation} (htakes : i.TakesTime p.thinkTime)
    (hstays : v.mustLeave p.stopped = false)
    (hactivity : v.activity =
      .thinking (p.now + (i.ending.thinkTime p.thinkTime).startedMillis)) :
    v.pending p.started p.stopped p.now < if i.takes = 0 then 1 else 3 := by
  have hdue : p.due? v = some (p.now + (i.ending.thinkTime p.thinkTime).startedMillis) := by
    simp [due?, VirtualUser.due?, hactivity, hstays]
  rcases Nat.eq_zero_or_pos (i.ending.thinkTime p.thinkTime).startedMillis with hzero | hpos
  · have hne : i.takes ≠ 0 := by
      rcases htakes with h | h
      · exact Nat.ne_of_gt h
      · omega
    rw [pending_of_due hdue (by omega), hactivity, if_neg hne, Activity.pending]
    decide
  · rw [pending_of_later hdue (by omega)]
    split <;> decide

/-- Whatever a user does when its time has come, users can do less before the clock goes on. -/
theorem pending_act_lt (h : p.Valid) (hgenuine : p.Genuine)
    (htakes : p.workload.TakesTime p.thinkTime) (hu : u ∈ p.users) (hdue : p.due? u = some t)
    (hready : t ≤ p.now) : (p.act u).pending < p.pending := by
  -- what is in flight was made by the workload, at whatever state it was then
  have hcall : ∀ c i, u.activity = .invoking c i → i.TakesTime p.thinkTime := by
    intro c i hbusy
    have hmem : (c, i) ∈ p.calls := List.mem_filterMap.2 ⟨u, hu, by rw [hbusy]; rfl⟩
    obtain ⟨state, hstate⟩ := hgenuine _ hmem
    have := htakes c state
    rwa [hstate] at this
  have hrecord : ∀ {c i s}, u.activity = .invoking c i → Sample.ofInvocation? c i = some s →
      (p.record u s).Valid := fun busy kept => h.record hu (h.user_of_kept hu busy kept)
  have hacts := acts_act p u
  generalize p.act u = q at hacts ⊢
  cases hacts with
  | leave => exact pending_depart h none hu hdue hready
  | begin idle =>
    have hidle : u.activity.pending = 2 := by
      cases hactivity : u.activity with
      | waiting => rfl
      | thinking => rfl
      | invoking => rw [hactivity] at idle; cases idle
    rw [invoke_eq_put]
    exact pending_put h hu rfl hdue hready (hidle ▸ pending_invoking rfl rfl)
  | crash => exact pending_depart h _ hu hdue hready
  | @finish c i s busy kept =>
    exact pending_depart (p := p.record u s) (hrecord busy kept) none hu hdue hready
  | @pause c i s busy kept may =>
    rw [pause_eq_put]
    refine pending_put (p := p.record u s) (hrecord busy kept) hu rfl hdue hready ?_
    rw [busy]
    exact pending_thinking (p := p.record u s) (hcall c i busy) may rfl

/-- If the clock stands still while the user acts that is due first, users can do less before it
goes on. -/
theorem pending_actAt_lt (h : p.Valid) (hgenuine : p.Genuine)
    (htakes : p.workload.TakesTime p.thinkTime) (hnext : p.next? = some (t, u))
    (hclock : (p.actAt t u).now = p.now) : (p.actAt t u).pending < p.pending := by
  obtain ⟨hmem, hdue, -⟩ := next?_eq_some hnext
  have hready : t ≤ p.now := by
    rw [actAt, now_act] at hclock
    dsimp only at hclock
    omega
  rw [actAt, Nat.max_eq_left hready]
  exact pending_act_lt h hgenuine htakes hmem hdue hready

end Pool

end StagedLoad
