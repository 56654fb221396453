import StagedLoad.Proofs.Pool.Users

/-!
# The log of a pool

A workload can keep a log of its invocations in its state, and a pool whose workload does so
does otherwise exactly what it did before.  The log tells which invocations were begun, and
when; each of them is in flight, has crashed, or has been recorded.

## Main definitions

* `Call`, `Workload.logged` — an invocation with its context, and a workload that logs them.
* `Pool.withLog` — a pool with a log.
* `Pool.begunBy`, `Pool.inFlight`, `Pool.samplesOf` — of one user, the invocations that were
  begun, the one that is in flight, and the samples.
* `Pool.Kept` — nothing that was begun has been lost.

## Main results

* `Course.withLog` — a log changes nothing that happens to a pool.
* `Kept.move`, `Kept.course` — nothing is ever lost.
-/

namespace StagedLoad

/-- An invocation, and what it was told. -/
abbrev Call := IterationContext × Invocation

/-- What is recorded of an invocation. -/
def Call.sample? (call : Call) : Option Sample := Sample.ofInvocation? call.1 call.2

theorem Call.sample?_ne_none_iff {call : Call} :
    call.sample? ≠ none ↔ call.2.ending.cause? = none := Sample.ofInvocation?_ne_none_iff

/-- An invocation that did not crash has a sample. -/
theorem Call.sample?_isSome {call : Call} (h : call.2.ending.cause? = none) :
    ∃ s, call.sample? = some s := Option.ne_none_iff_exists'.1 (Call.sample?_ne_none_iff.2 h)

/-- There are as many samples as invocations that did not crash. -/
theorem length_filterMap_sample? (calls : List Call) :
    (calls.filterMap Call.sample?).length =
      calls.countP fun call => call.2.ending.cause? = none := by
  rw [List.length_filterMap_eq_countP]
  refine List.countP_congr fun call _ => ?_
  rw [Option.isSome_iff_ne_none, decide_eq_true_eq, Call.sample?_ne_none_iff]

/-- A workload that keeps a log of its invocations. -/
def Workload.logged {σ : Type} (w : Workload σ) : Workload (σ × List Call) where
  declared := w.declared
  invoke c s := ((w.invoke c s.1).1, ((w.invoke c s.1).2, s.2 ++ [(c, (w.invoke c s.1).1)]))

namespace Pool

variable {σ : Type}

/-! ### A log changes nothing -/

/-- A pool with a log of the invocations that it has begun. -/
def withLog (p : Pool σ) (calls : List Call) : Pool (σ × List Call) where
  workload := p.workload.logged
  state := (p.state, calls)
  thinkTime := p.thinkTime
  recorder := p.recorder
  users := p.users
  departures := p.departures
  live := p.live
  started := p.started
  stopped := p.stopped
  nextId := p.nextId
  peak := p.peak
  now := p.now

/-- Whatever a user does, it does with a log as well. -/
theorem act_withLog (p : Pool σ) (u : VirtualUser) (calls : List Call) :
    ∃ more, (p.withLog calls).act u = (p.act u).withLog more := by
  -- only beginning an iteration asks the workload, so only then the log grows
  have hbegin : ∃ more,
      (p.withLog calls).beginIteration u = (p.beginIteration u).withLog more := by
    simp only [beginIteration]
    by_cases hmust : u.mustLeave p.stopped = true
    · exact ⟨calls, by simp only [withLog, hmust, if_true]; rfl⟩
    · exact ⟨_, by simp only [withLog, hmust]; rfl⟩
  have hend : ∀ c i, ∃ more,
      (p.withLog calls).endIteration u c i = (p.endIteration u c i).withLog more := by
    intro c i
    refine ⟨calls, ?_⟩
    unfold endIteration
    cases Sample.ofInvocation? c i with
    | none => rfl
    | some s =>
      dsimp only [withLog]
      split <;> rfl
  unfold act
  cases u.activity with
  | waiting => exact hbegin
  | thinking => exact hbegin
  | invoking c i => exact hend c i

/-- Every move of a pool is a move of the pool with a log. -/
theorem Move.withLog {p q : Pool σ} (h : Move p q) (calls : List Call) :
    ∃ more, Move (p.withLog calls) (q.withLog more) := by
  cases h with
  | @act u t mem due ready =>
    obtain ⟨more, hmore⟩ := act_withLog p u calls
    exact ⟨more, hmore ▸ .act mem due ready⟩
  | pass first => exact ⟨calls, .pass first⟩
  | spawn going => exact ⟨calls, .spawn going⟩
  | retire => exact ⟨calls, .retire⟩
  | crest => exact ⟨calls, .crest⟩
  | tend => exact ⟨calls, .tend⟩
  | start => exact ⟨calls, .start⟩
  | stop => exact ⟨calls, .stop⟩
  | clear stopped => exact ⟨calls, .clear stopped⟩

/-- Every course of a pool is a course of the pool with a log. -/
theorem Course.withLog {p q : Pool σ} (h : Course p q) (calls : List Call) :
    ∃ more, Course (p.withLog calls) (q.withLog more) := by
  induction h with
  | refl => exact ⟨calls, .refl⟩
  | tail _ hlast ih =>
    obtain ⟨before, hbefore⟩ := ih
    obtain ⟨more, hmore⟩ := hlast.withLog before
    exact ⟨more, hbefore.tail hmore⟩

/-! ### The samples and the invocation of one user -/

/-- The samples of a user. -/
def samplesOf (p : Pool σ) (id : Nat) : List Sample :=
  p.recorder.snapshot.filter fun s => s.user == id

/-- The invocation that a user is in, if any. -/
def inFlight (p : Pool σ) (id : Nat) : List Call :=
  ((p.user? id).bind fun u => u.activity.call?).toList

section OneUser

variable {p : Pool σ} {u v : VirtualUser}

theorem Valid.samplesOf_succ (h : p.Valid) (k : Nat) : p.samplesOf (k + 1) = p.recorder.shard k :=
  Recorder.filter_user_snapshot h.shared h.owned k

theorem Valid.samplesOf_record (h : p.Valid) (hu : u ∈ p.users) {s : Sample} (hs : s.user = u.id)
    (id : Nat) : (p.record u s).samplesOf id = p.samplesOf id ++ if id = u.id then [s] else [] := by
  have hrecord := h.record hu hs
  have hnumber := (h.numbered u hu).1
  cases id with
  | zero =>
    -- nobody has the number zero
    have hzero : ∀ q : Pool σ, q.Valid → q.samplesOf 0 = [] := by
      intro q hq
      apply Recorder.filter_user_eq_nil
      intro s hs
      obtain ⟨k, hk⟩ := (Recorder.mem_snapshot hq.shared).1 hs
      have := hq.owned k s hk
      omega
    rw [hzero _ hrecord, hzero _ h, if_neg (by omega), List.append_nil]
  | succ k =>
    rw [hrecord.samplesOf_succ, h.samplesOf_succ, Pool.record,
      Recorder.shard_record _ _ (h.shard_lt hu)]
    have hiff : k = u.shard ↔ k + 1 = u.id := by omega
    simp only [hiff]

theorem samplesOf_spawn (p : Pool σ) (id : Nat) : p.spawn.samplesOf id = p.samplesOf id := by
  simp [samplesOf, spawn]

theorem mem_inFlight {id : Nat} {call : Call} :
    call ∈ p.inFlight id ↔ ∃ u, p.user? id = some u ∧ u.activity = .invoking call.1 call.2 := by
  rw [inFlight, Option.mem_toList, Option.bind_eq_some_iff]
  simp only [Activity.call?_eq_some]

theorem inFlight_of_user? (h : p.user? u.id = some u) :
    p.inFlight u.id = u.activity.call?.toList := by
  simp [inFlight, h]

theorem inFlight_depart (p : Pool σ) (u : VirtualUser) (cause : Option String) (id : Nat) :
    (p.depart u cause).inFlight id = if id = u.id then [] else p.inFlight id := by
  unfold inFlight
  rw [user?_depart]
  split <;> rfl

theorem inFlight_put (state : σ) (h : p.user? u.id = some u) (hid : v.id = u.id) :
    (p.put state v).inFlight u.id = v.activity.call?.toList := by
  rw [inFlight, user?_put, if_pos hid.symm, h]
  rfl

/-- Whatever a user does, the others stay in their invocations. -/
theorem inFlight_act_of_ne {id : Nat} (hid : id ≠ u.id) :
    (p.act u).inFlight id = p.inFlight id := by
  rw [inFlight, inFlight, user?_act_of_ne hid]

/-- Whatever a user does, what it was in is recorded, and nothing of the others. -/
theorem Valid.samplesOf_act (h : p.Valid) (hu : u ∈ p.users) (id : Nat) :
    (p.act u).samplesOf id = p.samplesOf id ++
      if id = u.id then u.activity.call?.toList.filterMap Call.sample? else [] := by
  have hnone : u.activity.call?.toList.filterMap Call.sample? = [] →
      p.samplesOf id = p.samplesOf id ++
        if id = u.id then u.activity.call?.toList.filterMap Call.sample? else [] := by
    intro hnew
    rw [hnew, ite_self, List.append_nil]
  have hkept : ∀ {c i s}, u.activity = .invoking c i → Sample.ofInvocation? c i = some s →
      (p.record u s).samplesOf id = p.samplesOf id ++
        if id = u.id then u.activity.call?.toList.filterMap Call.sample? else [] := by
    intro c i s busy kept
    rw [h.samplesOf_record hu (h.user_of_kept hu busy kept)]
    simp [busy, Call.sample?, kept]
  have hacts := acts_act p u
  generalize p.act u = q at hacts ⊢
  cases hacts with
  | leave idle => exact hnone (by rw [idle]; rfl)
  | begin idle => exact hnone (by rw [idle]; rfl)
  | @crash c i _ busy lost =>
    have hlost := (Sample.ofInvocation?_eq_none_iff (c := c)).2 ⟨_, lost⟩
    exact hnone (by simp [busy, Call.sample?, hlost])
  | finish busy kept => exact hkept busy kept
  | pause busy kept => exact hkept busy kept

theorem inFlight_retireBeyond (p : Pool σ) (keep id : Nat) :
    (p.retireBeyond keep).inFlight id = p.inFlight id := by
  unfold inFlight
  rw [user?_retireBeyond]
  cases p.user? id with
  | none => rfl
  | some u =>
    simp only [Option.map_some, Option.bind_some]
    split <;> rfl

theorem Valid.inFlight_spawn (h : p.Valid) (id : Nat) : p.spawn.inFlight id = p.inFlight id := by
  unfold inFlight
  rw [h.user?_spawn]
  split
  case isTrue hid => simp [hid, h.user?_of_nextId_le (Nat.le_refl _)]
  case isFalse => rfl

end OneUser

/-! ### Nothing is lost -/

variable {w : Workload σ} {p q : Pool (σ × List Call)} {u : VirtualUser}

/-- The invocations that a user has begun. -/
def begunBy (p : Pool (σ × List Call)) (id : Nat) : List Call :=
  p.state.2.filter fun call => call.1.user == id

/-- Each invocation of a user is in flight or done, and the samples of the user are those of
the invocations that are done. -/
def KeptBy (p : Pool (σ × List Call)) (id : Nat) : Prop :=
  ∃ done, p.begunBy id = done ++ p.inFlight id ∧ p.samplesOf id = done.filterMap Call.sample?

/-- In a lawful pool that logs the invocations of a workload, nothing has been lost. -/
structure Kept (w : Workload σ) (p : Pool (σ × List Call)) : Prop where
  /-- Users are numbered and have their shards. -/
  valid : p.Valid
  /-- What is logged is what the workload does. -/
  workload : p.workload = w.logged
  /-- Nothing has been lost of any user. -/
  kept : ∀ id, p.KeptBy id

theorem kept_fresh (w : Workload σ) (s : σ) (think : Duration) :
    Kept w (({ workload := w, state := s, thinkTime := think } : Pool σ).withLog []) where
  valid := valid_fresh w.logged (s, []) think
  workload := rfl
  kept := fun _ => ⟨[], rfl, rfl⟩

/-- What has been kept of a user is still kept if neither its invocations nor its samples
change. -/
theorem KeptBy.congr {id : Nat} (h : p.KeptBy id) (hbegun : q.begunBy id = p.begunBy id)
    (hflight : q.inFlight id = p.inFlight id) (hsamples : q.samplesOf id = p.samplesOf id) :
    q.KeptBy id := by
  obtain ⟨done, hdone, hkept⟩ := h
  exact ⟨done, by rw [hbegun, hflight, hdone], by rw [hsamples, hkept]⟩

/-- What has been kept of a user is still kept when its invocation ends and is recorded, unless
it crashed. -/
theorem KeptBy.done {id : Nat} (call : Call) (h : p.KeptBy id)
    (hflight : p.inFlight id = [call]) (hbegun : q.begunBy id = p.begunBy id)
    (hnow : q.inFlight id = [])
    (hsamples : q.samplesOf id = p.samplesOf id ++ [call].filterMap Call.sample?) :
    q.KeptBy id := by
  obtain ⟨done, hdone, hkept⟩ := h
  refine ⟨done ++ [call], ?_, ?_⟩
  · rw [hbegun, hnow, hdone, hflight, List.append_nil]
  · rw [hsamples, hkept, List.filterMap_append]

/-- What has been kept of a user is still kept when it begins an invocation. -/
theorem KeptBy.begun {id : Nat} {call : Call} (h : p.KeptBy id)
    (hflight : p.inFlight id = []) (hbegun : q.begunBy id = p.begunBy id ++ [call])
    (hnow : q.inFlight id = [call]) (hsamples : q.samplesOf id = p.samplesOf id) :
    q.KeptBy id := by
  obtain ⟨done, hdone, hkept⟩ := h
  refine ⟨done, ?_, by rw [hsamples, hkept]⟩
  rw [hbegun, hnow, hdone, hflight, List.append_nil]

/-- The invocations that users have begun after one of them began the next. -/
theorem begunBy_invoke (hw : p.workload = w.logged) (u : VirtualUser) (id : Nat) :
    (p.invoke u).begunBy id = p.begunBy id ++
      if id = u.id then [(p.context u, (w.invoke (p.context u) p.state.1).1)] else [] := by
  simp only [begunBy, invoke, hw, Workload.logged, List.filter_append, context]
  congr 1
  by_cases hid : id = u.id
  · simp [hid]
  · simp [hid, Ne.symm hid]

/-- Whatever a user does, the others have begun what they had begun. -/
theorem begunBy_act_of_ne (hw : p.workload = w.logged) {id : Nat} (hid : id ≠ u.id) :
    (p.act u).begunBy id = p.begunBy id := by
  have hacts := acts_act p u
  generalize p.act u = q at hacts ⊢
  cases hacts with
  | begin => rw [begunBy_invoke hw, if_neg hid, List.append_nil]
  | _ => rfl

/-- Whatever a user does, nothing of its own is lost. -/
theorem Kept.keptBy_act (h : Kept w p) (hu : u ∈ p.users) : (p.act u).KeptBy u.id := by
  have hkept := h.kept u.id
  have huser := h.valid.user?_of_mem hu
  have hflight := inFlight_of_user? huser
  have hsamples := h.valid.samplesOf_act hu u.id
  rw [if_pos rfl] at hsamples
  have hacts := acts_act p u
  generalize p.act u = q at hacts hsamples ⊢
  cases hacts with
  | leave idle =>
    refine hkept.congr rfl ?_ rfl
    rw [inFlight_depart, if_pos rfl, hflight, idle]
    rfl
  | begin idle =>
    have hbegun := begunBy_invoke h.workload u u.id
    rw [if_pos rfl] at hbegun
    refine hkept.begun (by rw [hflight, idle]; rfl) hbegun ?_ rfl
    rw [invoke_eq_put, h.workload]
    exact inFlight_put _ huser rfl
  | @crash c i _ busy =>
    refine hkept.done (c, i) (by rw [hflight, busy]; rfl) rfl ?_ (by rw [hsamples, busy]; rfl)
    rw [inFlight_depart, if_pos rfl]
  | @finish c i s busy =>
    refine hkept.done (c, i) (by rw [hflight, busy]; rfl) rfl ?_ (by rw [hsamples, busy]; rfl)
    rw [inFlight_depart, if_pos rfl]
  | @pause c i s busy =>
    refine hkept.done (c, i) (by rw [hflight, busy]; rfl) rfl ?_ (by rw [hsamples, busy]; rfl)
    rw [pause_eq_put]
    exact inFlight_put (p := p.record u s) _ huser rfl

theorem Kept.act (h : Kept w p) (hu : u ∈ p.users) : Kept w (p.act u) := by
  refine ⟨h.valid.act hu, by rw [workload_act, h.workload], ?_⟩
  intro id
  by_cases hid : id = u.id
  · subst hid
    exact h.keptBy_act hu
  · have hsamples := h.valid.samplesOf_act hu id
    rw [if_neg hid, List.append_nil] at hsamples
    exact (h.kept id).congr (begunBy_act_of_ne h.workload hid) (inFlight_act_of_ne hid) hsamples

/-- No move loses anything. -/
theorem Kept.move (h : Kept w p) (hm : Move p q) : Kept w q := by
  have hvalid := h.valid.move hm
  cases hm with
  | act mem => exact h.act mem
  | spawn =>
    -- the new user has begun nothing, and its shard is empty
    exact ⟨hvalid, h.workload, fun id =>
      (h.kept id).congr rfl (h.valid.inFlight_spawn id) (samplesOf_spawn p id)⟩
  | retire =>
    exact ⟨hvalid, h.workload, fun id => (h.kept id).congr rfl (inFlight_retireBeyond p _ id) rfl⟩
  | _ => exact ⟨hvalid, h.workload, h.kept⟩

/-- Nothing is ever lost. -/
theorem Kept.course (h : Kept w p) (hc : Course p q) : Kept w q :=
  hc.preserves (fun _ _ hm h => h.move hm) h

end Pool

end StagedLoad
