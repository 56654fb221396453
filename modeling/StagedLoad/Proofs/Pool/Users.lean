import Mathlib.Data.List.Nodup
import StagedLoad.Proofs.Metric.Recorder
import StagedLoad.Proofs.Pool.Move

/-!
# The users of a pool

The users of a pool are numbered in the order in which they came, each has a shard of its own,
and the time never passes beyond what a user has to do.

## Main definitions

* `Pool.user?` — the user with a number, if it has not left.
* `Pool.Valid` — the law of numbers, shards and times.

## Main results

* `Valid.move`, `Course.valid` — every move and every course preserve the law.
* `user?_depart`, `user?_put`, `user?_retireBeyond`, `user?_spawn` — who is left after a move.
-/

namespace StagedLoad

theorem Sample.user_of_ofInvocation? {c : IterationContext} {i : Invocation} {s : Sample}
    (h : Sample.ofInvocation? c i = some s) : s.user = c.user := by
  unfold Sample.ofInvocation? at h
  split at h <;> cases h <;> rfl

namespace Pool

variable {σ : Type} {p q : Pool σ} {u v : VirtualUser} {id t : Nat}

/-! ### Changing one user -/

@[simp] theorem setUser_cons (u v : VirtualUser) (l : List VirtualUser) :
    setUser u (v :: l) = (if v.id = u.id then u else v) :: setUser u l := rfl

@[simp] theorem map_id_setUser (u : VirtualUser) (l : List VirtualUser) :
    (setUser u l).map VirtualUser.id = l.map VirtualUser.id := by
  induction l with
  | nil => rfl
  | cons v l ih =>
    simp only [setUser_cons, List.map_cons, ih]
    split <;> simp_all

/-- After a change there are the changed user and the others. -/
theorem mem_setUser {l : List VirtualUser} (h : v ∈ setUser u l) : v = u ∨ v ∈ l := by
  obtain ⟨w, hw, rfl⟩ := List.mem_map.1 h
  split
  · exact .inl rfl
  · exact .inr hw

/-- One user is changed, and maybe the state of the workload. -/
def put (p : Pool σ) (state : σ) (u : VirtualUser) : Pool σ :=
  { p with state, users := setUser u p.users }

theorem invoke_eq_put (p : Pool σ) (u : VirtualUser) :
    p.invoke u = p.put (p.workload.invoke (p.context u) p.state).2 { u with
      activity := .invoking (p.context u) (p.workload.invoke (p.context u) p.state).1 } := rfl

theorem pause_eq_put (p : Pool σ) (u : VirtualUser) (i : Invocation) :
    p.pause u i = p.put p.state { u with
      iteration := u.iteration + 1
      activity := .thinking (p.now + (i.ending.thinkTime p.thinkTime).startedMillis) } := rfl

/-! ### The law of a pool -/

/-- Users and live numbers ascend, each user owns the shard with its number, shards hold the
samples of their owner, and nobody is overdue. -/
structure Valid (p : Pool σ) : Prop where
  /-- Users stand in the order of their numbers. -/
  ascending : (p.users.map VirtualUser.id).Pairwise (· < ·)
  /-- A user has the shard before its number, and its number has been handed out. -/
  numbered : ∀ u ∈ p.users, u.shard + 1 = u.id ∧ u.id < p.nextId
  /-- There is a shard for each number that has been handed out. -/
  shards : p.recorder.shards.size + 1 = p.nextId
  /-- No user writes into the shared shard. -/
  shared : p.recorder.shared = #[]
  /-- The live numbers ascend. -/
  live_ascending : p.live.Pairwise (· < ·)
  /-- The live numbers have been handed out. -/
  live_lt : ∀ i ∈ p.live, i < p.nextId
  /-- The invocation that a user is in is its own. -/
  called : ∀ u ∈ p.users, ∀ c i, u.activity = .invoking c i → c.user = u.id
  /-- A shard holds the samples of its owner. -/
  owned : ∀ k, ∀ s ∈ p.recorder.shard k, s.user = k + 1
  /-- Nobody is overdue. -/
  punctual : p.NoneDueBefore p.now

/-- A pool without users and samples satisfies the law. -/
theorem valid_fresh (w : Workload σ) (state : σ) (think : Duration) :
    ({ workload := w, state, thinkTime := think } : Pool σ).Valid where
  ascending := .nil
  numbered := by simp
  shards := rfl
  shared := rfl
  live_ascending := .nil
  live_lt := by simp
  called := by simp
  owned := by simp [Recorder.shard, Recorder.empty]
  punctual := by simp [NoneDueBefore]

/-- A user with an invocation is due when the invocation ends. -/
theorem due?_of_invoking {c : IterationContext} {i : Invocation}
    (h : u.activity = .invoking c i) : p.due? u = some (c.elapsed + i.takes) := by
  simp [due?, VirtualUser.due?, h]

namespace Valid

theorem shard_lt (h : p.Valid) (hu : u ∈ p.users) : u.shard < p.recorder.shards.size := by
  have := h.numbered u hu
  have := h.shards
  omega

/-- Besides a user there are those that stay when it leaves. -/
theorem users_perm (h : p.Valid) (hu : u ∈ p.users) (cause : Option String) :
    p.users.Perm (u :: (p.depart u cause).users) := by
  have hids : (p.users.map VirtualUser.id).Nodup := h.ascending.imp Nat.ne_of_lt
  have hothers : p.users.erase u = (p.depart u cause).users := by
    rw [hids.of_map.erase_eq_filter]
    refine List.filter_congr ?_
    intro v hv
    have hsame : v = u ↔ v.id = u.id :=
      ⟨congrArg VirtualUser.id, fun hid => List.inj_on_of_nodup_map hids hv hu hid⟩
    rw [Bool.eq_iff_iff, bne_iff_ne, bne_iff_ne, Ne, Ne, hsame]
  rw [← hothers]
  exact List.perm_cons_erase hu

theorem depart (h : p.Valid) (u : VirtualUser) (cause : Option String) :
    (p.depart u cause).Valid :=
  have hsub : ∀ v ∈ (p.depart u cause).users, v ∈ p.users := fun _ hv => (List.mem_filter.1 hv).1
  { h with
    ascending := h.ascending.sublist (List.filter_sublist.map _)
    numbered := fun v hv => h.numbered v (hsub v hv)
    called := fun v hv => h.called v (hsub v hv)
    punctual := fun v hv => h.punctual v (hsub v hv) }

theorem record (h : p.Valid) (hu : u ∈ p.users) {s : Sample} (hs : s.user = u.id) :
    (p.record u s).Valid :=
  { h with
    shards := by simpa [Pool.record] using h.shards
    shared := by simpa [Pool.record] using h.shared
    owned := by
      intro k s' hs'
      rw [Pool.record, Recorder.shard_record _ _ (h.shard_lt hu), List.mem_append] at hs'
      rcases hs' with hold | hnew
      · exact h.owned k s' hold
      · split at hnew
        case isTrue hk =>
          have := (h.numbered u hu).1
          rw [List.mem_singleton.1 hnew, hs]
          omega
        case isFalse => cases hnew }

/-- Changing a user preserves the law if the user keeps its number and its shard, if its
invocation is its own, and if it is not overdue. -/
theorem put (h : p.Valid) {state : σ} (hu : u ∈ p.users) (hid : v.id = u.id)
    (hshard : v.shard = u.shard)
    (hcall : ∀ c i, v.activity = .invoking c i → c.user = v.id)
    (hdue : ∀ d, p.due? v = some d → p.now ≤ d) : (p.put state v).Valid :=
  { h with
    ascending := by simpa [Pool.put] using h.ascending
    numbered := by
      intro w hw
      rcases mem_setUser hw with rfl | hw
      · rw [hid, hshard]; exact h.numbered u hu
      · exact h.numbered w hw
    called := by
      intro w hw
      rcases mem_setUser hw with rfl | hw
      · exact hcall
      · exact h.called w hw
    punctual := by
      intro w hw
      rcases mem_setUser hw with rfl | hw
      · exact hdue
      · exact h.punctual w hw }

theorem invoke (h : p.Valid) (hu : u ∈ p.users) : (p.invoke u).Valid := by
  rw [invoke_eq_put]
  refine h.put hu rfl rfl ?_ ?_
  · intro c i hc
    cases hc
    rfl
  · intro d hd
    rw [due?_of_invoking rfl] at hd
    cases hd
    exact Nat.le_add_right _ _

theorem pause (h : p.Valid) (hu : u ∈ p.users) (i : Invocation) : (p.pause u i).Valid := by
  rw [pause_eq_put]
  refine h.put hu rfl rfl ?_ ?_
  · intro c i hc
    cases hc
  · intro d hd
    simp only [due?, VirtualUser.due?, Option.some.injEq] at hd
    split at hd <;> omega

/-- What is recorded of the invocation of a user is a sample of that user. -/
theorem user_of_kept (h : p.Valid) (hu : u ∈ p.users) {c : IterationContext} {i : Invocation}
    {s : Sample} (busy : u.activity = .invoking c i) (kept : Sample.ofInvocation? c i = some s) :
    s.user = u.id :=
  (Sample.user_of_ofInvocation? kept).trans (h.called u hu c i busy)

theorem act (h : p.Valid) (hu : u ∈ p.users) : (p.act u).Valid := by
  have hacts := acts_act p u
  generalize p.act u = q at hacts ⊢
  cases hacts with
  | leave => exact h.depart u none
  | begin => exact h.invoke hu
  | crash => exact h.depart u _
  | finish busy kept => exact (h.record hu (h.user_of_kept hu busy kept)).depart u none
  | pause busy kept => exact (h.record hu (h.user_of_kept hu busy kept)).pause hu _

theorem pass (h : p.Valid) (hfirst : p.NoneDueBefore t) :
    ({ p with now := max p.now t } : Pool σ).Valid :=
  { h with
    punctual := by
      intro u hu d hd
      have hnow := h.punctual u hu
      have ht := hfirst u hu
      -- some users are due at a time of their own, and the others whenever it is
      simp only [due?, VirtualUser.due?] at hd hnow ht ⊢
      grind }

theorem spawn (h : p.Valid) : p.spawn.Valid where
  ascending := by
    simp only [Pool.spawn, List.map_append, List.map_cons, List.map_nil, List.pairwise_append]
    refine ⟨h.ascending, List.pairwise_singleton _ _, ?_⟩
    intro i hi j hj
    obtain ⟨u, hu, rfl⟩ := List.mem_map.1 hi
    rw [List.mem_singleton.1 hj]
    exact (h.numbered u hu).2
  numbered := by
    intro u hu
    have hshards := h.shards
    rcases List.mem_append.1 hu with hu | hu
    · have := h.numbered u hu
      exact ⟨this.1, Nat.lt_succ_of_lt this.2⟩
    · rw [List.mem_singleton.1 hu]
      exact ⟨hshards, Nat.lt_succ_self _⟩
  shards := by simpa [Pool.spawn] using h.shards
  shared := by simpa [Pool.spawn] using h.shared
  live_ascending := by
    rw [Pool.spawn, List.pairwise_append]
    refine ⟨h.live_ascending, List.pairwise_singleton _ _, ?_⟩
    intro i hi j hj
    rw [List.mem_singleton.1 hj]
    exact h.live_lt i hi
  live_lt := by
    intro i hi
    rcases List.mem_append.1 hi with hi | hi
    · exact Nat.lt_succ_of_lt (h.live_lt i hi)
    · rw [List.mem_singleton.1 hi]
      exact Nat.lt_succ_self _
  called := by
    intro u hu
    rcases List.mem_append.1 hu with hu | hu
    · exact h.called u hu
    · rw [List.mem_singleton.1 hu]
      intro c i hc
      cases hc
  owned := by simpa [Pool.spawn] using h.owned
  punctual := by
    intro u hu
    rcases List.mem_append.1 hu with hu | hu
    · exact h.punctual u hu
    · rw [List.mem_singleton.1 hu]
      intro d hd
      simp only [due?, VirtualUser.due?, Pool.spawn] at hd ⊢
      grind

theorem retireBeyond (h : p.Valid) (keep : Nat) : (p.retireBeyond keep).Valid := by
  -- everyone stays in place, and some are marked
  have hmem : ∀ u ∈ (p.retireBeyond keep).users,
      ∃ v ∈ p.users, u = v ∨ u = { v with retired := true } := by
    intro u hu
    obtain ⟨v, hv, rfl⟩ := List.mem_map.1 hu
    refine ⟨v, hv, ?_⟩
    split
    · exact .inr rfl
    · exact .inl rfl
  exact { h with
    ascending := by
      have hids : (p.retireBeyond keep).users.map VirtualUser.id = p.users.map VirtualUser.id := by
        simp only [Pool.retireBeyond, List.map_map]
        apply List.map_congr_left
        intro u _
        dsimp only [Function.comp]
        split <;> rfl
      rw [hids]
      exact h.ascending
    numbered := by
      intro u hu
      obtain ⟨v, hv, rfl | rfl⟩ := hmem u hu
      · exact h.numbered _ hv
      · exact h.numbered v hv
    live_ascending := h.live_ascending.sublist (List.take_sublist _ _)
    live_lt := fun i hi => h.live_lt i (List.mem_of_mem_take hi)
    called := by
      intro u hu
      obtain ⟨v, hv, rfl | rfl⟩ := hmem u hu
      · exact h.called _ hv
      · exact h.called v hv
    punctual := by
      intro u hu d hd
      obtain ⟨v, hv, rfl | rfl⟩ := hmem u hu
      · exact h.punctual _ hv d hd
      · have := h.punctual v hv
        simp only [due?, VirtualUser.due?, VirtualUser.mustLeave, Pool.retireBeyond] at hd this ⊢
        grind }

theorem start (h : p.Valid) : p.start.Valid :=
  { h with
    punctual := by
      intro u hu d hd
      have := h.punctual u hu
      simp only [due?, VirtualUser.due?, Pool.start] at hd this ⊢
      grind }

theorem stop (h : p.Valid) : p.stop.Valid :=
  { h with
    punctual := by
      intro u hu d hd
      have := h.punctual u hu
      simp only [due?, VirtualUser.due?, VirtualUser.mustLeave, Pool.stop] at hd this ⊢
      grind }

/-- Every move preserves the law of a pool. -/
theorem move (h : Move p q) (hp : p.Valid) : q.Valid := by
  cases h with
  | act mem => exact hp.act mem
  | pass first => exact hp.pass first
  | spawn => exact hp.spawn
  | retire => exact hp.retireBeyond _
  | crest => exact { hp with }
  | tend => exact { hp with }
  | start => exact hp.start
  | stop => exact hp.stop
  | clear => exact { hp with live_ascending := .nil, live_lt := by simp }

end Valid

/-- Every course preserves the law of a pool. -/
theorem Course.valid (h : Course p q) (hp : p.Valid) : q.Valid :=
  h.preserves (fun _ _ hm hp => Valid.move hm hp) hp

/-! ### The user with a number -/

/-- The user with a number, if it has not left. -/
def user? (p : Pool σ) (id : Nat) : Option VirtualUser := p.users.find? fun u => u.id == id

theorem mem_of_user? (h : p.user? id = some u) : u ∈ p.users ∧ u.id = id :=
  ⟨List.mem_of_find?_eq_some h, by simpa using List.find?_some h⟩

theorem user?_eq_none : p.user? id = none ↔ ∀ u ∈ p.users, u.id ≠ id := by
  simp [user?]

/-- In a lawful pool each user is the one with its number. -/
theorem Valid.user?_of_mem (h : p.Valid) (hu : u ∈ p.users) : p.user? u.id = some u := by
  have hp := h.ascending
  unfold user?
  generalize p.users = l at hu hp
  induction l with
  | nil => cases hu
  | cons v l ih =>
    rw [List.map_cons, List.pairwise_cons] at hp
    rcases List.mem_cons.1 hu with rfl | hu
    · simp
    · have := hp.1 u.id (List.mem_map_of_mem hu)
      rw [List.find?_cons_of_neg (by simp only [beq_iff_eq]; omega)]
      exact ih hu hp.2

theorem Valid.user?_of_nextId_le (h : p.Valid) (hid : p.nextId ≤ id) : p.user? id = none := by
  rw [user?_eq_none]
  intro u hu
  have := (h.numbered u hu).2
  omega

theorem user?_depart (p : Pool σ) (u : VirtualUser) (cause : Option String) (id : Nat) :
    (p.depart u cause).user? id = if id = u.id then none else p.user? id := by
  unfold user? depart
  generalize p.users = l
  induction l with
  | nil => simp
  | cons v l ih => grind

theorem user?_put (p : Pool σ) (state : σ) (u : VirtualUser) (id : Nat) :
    (p.put state u).user? id = if id = u.id then (p.user? id).map fun _ => u else p.user? id := by
  unfold user? put
  dsimp only
  generalize p.users = l
  induction l with
  | nil => simp [setUser]
  | cons v l ih =>
    -- the change keeps the number, so the same place is found
    have hsame : (if v.id = u.id then u else v).id = v.id := by
      split
      · rename_i heq
        exact heq.symm
      · rfl
    rw [setUser_cons]
    by_cases hv : v.id = id
    · have hnew := hsame.trans hv
      rw [List.find?_cons_of_pos (by simpa using hnew), List.find?_cons_of_pos (by simpa using hv),
        hv]
      by_cases hid : id = u.id
      · rw [if_pos hid, if_pos hid, Option.map_some]
      · rw [if_neg hid, if_neg hid]
    · have hnew : (if v.id = u.id then u else v).id ≠ id := fun h => hv (hsame.symm.trans h)
      rw [List.find?_cons_of_neg (by simpa using hnew), ih,
        List.find?_cons_of_neg (by simpa using hv)]

/-- Whatever a user does, the others stay as they are. -/
theorem user?_act_of_ne (h : id ≠ u.id) :
    (p.act u).user? id = p.user? id := by
  have hacts := acts_act p u
  generalize p.act u = q at hacts ⊢
  cases hacts with
  | leave => rw [user?_depart, if_neg h]
  | begin => rw [invoke_eq_put, user?_put, if_neg h]
  | crash => rw [user?_depart, if_neg h]
  | @finish c i s => rw [user?_depart, if_neg h]; rfl
  | @pause c i s => rw [pause_eq_put, user?_put, if_neg h]; rfl

theorem user?_retireBeyond (p : Pool σ) (keep id : Nat) :
    (p.retireBeyond keep).user? id = (p.user? id).map fun u =>
      if id ∈ p.live.drop keep then { u with retired := true } else u := by
  unfold user? retireBeyond
  dsimp only
  generalize p.users = l
  induction l with
  | nil => simp
  | cons v l ih => grind

theorem Valid.user?_spawn (h : p.Valid) (id : Nat) :
    p.spawn.user? id = if id = p.nextId then
      some ⟨p.nextId, p.recorder.shards.size, false, 0, .waiting⟩ else p.user? id := by
  have hnew : p.user? p.nextId = none := h.user?_of_nextId_le (Nat.le_refl _)
  unfold user? at hnew ⊢
  simp only [Pool.spawn, List.find?_append]
  split
  case isTrue hid => simp [hid, hnew]
  case isFalse hid => simp [Ne.symm hid]

end Pool

end StagedLoad
