import Mathlib.Logic.Relation
import StagedLoad.Pool.Clock

/-!
# Moves of a pool

Everything that happens to a pool is made of nine small moves: a user acts whose time has
come, time passes up to when the next user is due, a user comes, some users are told to
retire, the peak is noted, departures are looked after, users may begin, users have to
leave, and a stopped pool gives up its users.  What each of them preserves is preserved by
every operation of the pool, in any order.

## Main definitions

* `Pool.Move`, `Pool.Course` — one move, and any number of them.
* `Pool.Tick`, `Pool.Progress` — the moves of users and of the clock, and any number of them.
* `Pool.Acts` — what a user can do when its time has come.
* `Pool.NoneDueBefore` — no user is due before a time.

## Main results

* `next?_eq_some` — the user that acts next is due first.
* `acts_act` — a user leaves, begins, crashes, or records and then pauses or leaves.
* `progress_wait?`, `progress_exhaust?` — while the owner waits, there is only progress.
* `course_reconcile`, `course_drain?` — the operations are courses.
-/

namespace StagedLoad

/-- The invocation that a user is in, if any. -/
def Activity.call? : Activity → Option (IterationContext × Invocation)
  | waiting => none
  | invoking c i => some (c, i)
  | thinking _ => none

@[simp] theorem Activity.call?_waiting : waiting.call? = none := rfl
@[simp] theorem Activity.call?_thinking (t : Nat) : (thinking t).call? = none := rfl
@[simp] theorem Activity.call?_invoking (c : IterationContext) (i : Invocation) :
    (invoking c i).call? = some (c, i) := rfl

theorem Activity.call?_eq_some {a : Activity} {call : IterationContext × Invocation} :
    a.call? = some call ↔ a = invoking call.1 call.2 := by
  cases a <;> simp [Prod.ext_iff]

namespace Pool

variable {σ : Type} {p q : Pool σ} {u : VirtualUser} {t : Nat}

/-- When a user of a pool has something to do next, if ever. -/
abbrev due? (p : Pool σ) (u : VirtualUser) : Option Nat := u.due? p.started p.stopped p.now

/-- No user is due before a time. -/
def NoneDueBefore (p : Pool σ) (t : Nat) : Prop := ∀ u ∈ p.users, ∀ d, p.due? u = some d → t ≤ d

/-! ### Who is due first -/

/-- The earlier of two entries is one of them, and no later than either. -/
theorem earlier_eq_some {a b : Option (Nat × VirtualUser)} {x : Nat × VirtualUser}
    (h : earlier a b = some x) :
    (a = some x ∨ b = some x) ∧ (∀ y, a = some y → x.1 ≤ y.1) ∧ ∀ y, b = some y → x.1 ≤ y.1 := by
  unfold earlier at h
  split at h
  · split at h <;> cases h <;> grind
  · cases h; grind
  · subst h; grind

theorem earlier_eq_none {a b : Option (Nat × VirtualUser)} (h : earlier a b = none) :
    a = none ∧ b = none := by
  unfold earlier at h
  split at h
  · split at h <;> cases h
  · cases h
  · exact ⟨rfl, h⟩

theorem foldl_earlier_eq_some {l : List (Option (Nat × VirtualUser))}
    {a : Option (Nat × VirtualUser)} {x : Nat × VirtualUser} (h : l.foldl earlier a = some x) :
    (a = some x ∨ some x ∈ l) ∧ (∀ y, a = some y → x.1 ≤ y.1) ∧ ∀ y, some y ∈ l → x.1 ≤ y.1 := by
  -- `a` is the earliest of the entries before, so the induction is for every `a`
  induction l generalizing a with
  | nil => simp_all
  | cons b rest ih =>
    obtain ⟨hmem, hfirst, hrest⟩ := ih h
    refine ⟨?_, ?_, ?_⟩
    · rcases hmem with hab | hx
      · rcases (earlier_eq_some hab).1 with ha | hb
        · exact .inl ha
        · exact .inr (by simp [hb])
      · exact .inr (List.mem_cons_of_mem _ hx)
    · intro y hy
      cases hab : earlier a b with
      | none => simp [(earlier_eq_none hab).1] at hy
      | some z => exact Nat.le_trans (hfirst z hab) ((earlier_eq_some hab).2.1 y hy)
    · intro y hy
      rcases List.mem_cons.1 hy with hb | hy
      · cases hab : earlier a b with
        | none => simp [(earlier_eq_none hab).2] at hb
        | some z => exact Nat.le_trans (hfirst z hab) ((earlier_eq_some hab).2.2 y hb.symm)
      · exact hrest y hy

theorem foldl_earlier_eq_none {l : List (Option (Nat × VirtualUser))}
    {a : Option (Nat × VirtualUser)} (h : l.foldl earlier a = none) :
    a = none ∧ ∀ b ∈ l, b = none := by
  induction l generalizing a with
  | nil => simp_all
  | cons b rest ih =>
    obtain ⟨hab, hrest⟩ := ih h
    obtain ⟨ha, hb⟩ := earlier_eq_none hab
    exact ⟨ha, List.forall_mem_cons.2 ⟨hb, hrest⟩⟩

/-- The user that acts next is one of the users, and nobody is due before it. -/
theorem next?_eq_some (h : p.next? = some (t, u)) :
    u ∈ p.users ∧ p.due? u = some t ∧ p.NoneDueBefore t := by
  obtain ⟨hmem, -, hfirst⟩ := foldl_earlier_eq_some h
  obtain ⟨v, hv, hdue⟩ : ∃ v ∈ p.users, (p.due? v).map (fun t => (t, v)) = some (t, u) := by
    simpa [due?] using hmem
  obtain ⟨d, hd, heq⟩ := Option.map_eq_some_iff.1 hdue
  cases heq
  refine ⟨hv, hd, ?_⟩
  intro w hw d hwd
  exact hfirst (d, w) (List.mem_map.2 ⟨w, hw, by simp [due?] at hwd; simp [hwd]⟩)

/-- If nobody acts next, no user is due. -/
theorem next?_eq_none (h : p.next? = none) (hu : u ∈ p.users) : p.due? u = none := by
  have hnone := (foldl_earlier_eq_none h).2 _ (List.mem_map.2 ⟨u, hu, rfl⟩)
  simpa [due?] using hnone

theorem noneDueBefore_of_next?_eq_none (h : p.next? = none) (t : Nat) : p.NoneDueBefore t := by
  intro u hu d hd
  rw [next?_eq_none h hu] at hd
  cases hd

/-! ### What a user can do -/

/-- What a user is told about the iteration that it begins. -/
def context (p : Pool σ) (u : VirtualUser) : IterationContext where
  user := u.id
  iteration := u.iteration
  elapsed := p.now

/-- A user begins an iteration. -/
def invoke (p : Pool σ) (u : VirtualUser) : Pool σ :=
  { p with
    state := (p.workload.invoke (p.context u) p.state).2
    users := setUser { u with
      activity := .invoking (p.context u) (p.workload.invoke (p.context u) p.state).1 } p.users }

/-- A sample of a user is recorded. -/
def record (p : Pool σ) (u : VirtualUser) (s : Sample) : Pool σ :=
  { p with recorder := p.recorder.record u.shard s }

/-- A user pauses after an iteration. -/
def pause (p : Pool σ) (u : VirtualUser) (i : Invocation) : Pool σ :=
  { p with users := setUser { u with
      iteration := u.iteration + 1
      activity := .thinking (p.now + (i.ending.thinkTime p.thinkTime).startedMillis) } p.users }

/-- What a user can do when its time has come. -/
inductive Acts (p : Pool σ) (u : VirtualUser) : Pool σ → Prop
  /-- Between iterations it leaves because it has to. -/
  | leave (idle : u.activity.call? = none) (must : u.mustLeave p.stopped = true) :
      Acts p u (p.depart u none)
  /-- Between iterations it begins the next one. -/
  | begin (idle : u.activity.call? = none) (may : u.mustLeave p.stopped = false) :
      Acts p u (p.invoke u)
  /-- Its invocation brings it down. -/
  | crash {c i cause} (busy : u.activity = .invoking c i) (lost : i.ending = .crash cause) :
      Acts p u (p.depart u (some cause))
  /-- Its invocation ends and is recorded, and it leaves because it has to. -/
  | finish {c i s} (busy : u.activity = .invoking c i) (kept : Sample.ofInvocation? c i = some s)
      (must : u.mustLeave p.stopped = true) : Acts p u ((p.record u s).depart u none)
  /-- Its invocation ends and is recorded, and it pauses. -/
  | pause {c i s} (busy : u.activity = .invoking c i) (kept : Sample.ofInvocation? c i = some s)
      (may : u.mustLeave p.stopped = false) : Acts p u ((p.record u s).pause u i)

theorem acts_beginIteration (p : Pool σ) (idle : u.activity.call? = none) :
    Acts p u (p.beginIteration u) := by
  unfold beginIteration
  split
  case isTrue must => exact .leave idle must
  case isFalse may => exact .begin idle (by simpa using may)

theorem acts_endIteration (p : Pool σ) {c : IterationContext} {i : Invocation}
    (busy : u.activity = .invoking c i) : Acts p u (p.endIteration u c i) := by
  unfold endIteration
  cases kept : Sample.ofInvocation? c i with
  | none =>
    obtain ⟨cause, lost⟩ := Sample.ofInvocation?_eq_none_iff.1 kept
    simp only [Ending.cause?_eq_some_iff.2 lost]
    exact .crash busy lost
  | some s =>
    simp only
    split
    case isTrue must => exact .finish busy kept must
    case isFalse may => exact .pause busy kept (by simpa [VirtualUser.mustLeave] using may)

/-- Whatever a user does is one of five things. -/
theorem acts_act (p : Pool σ) (u : VirtualUser) : Acts p u (p.act u) := by
  unfold act
  split
  case h_1 h => exact acts_beginIteration p (by rw [h]; rfl)
  case h_2 h => exact acts_beginIteration p (by rw [h]; rfl)
  case h_3 h => exact acts_endIteration p h

/-- Whoever must leave leaves when its time comes, and begins nothing. -/
theorem act_of_mustLeave (h : u.mustLeave p.stopped = true) :
    (p.act u).state = p.state ∧ (p.act u).users = p.users.filter fun v => v.id != u.id := by
  have hacts := acts_act p u
  generalize p.act u = q at hacts ⊢
  cases hacts with
  | leave | crash | finish => exact ⟨rfl, rfl⟩
  | begin _ may => rw [h] at may; cases may
  | pause _ _ may => rw [h] at may; cases may

/-- A user changes the state of the workload, the samples, the users and the departures, and
nothing else. -/
theorem act_frame (p : Pool σ) (u : VirtualUser) : ∃ state recorder users departures,
    p.act u = { p with state, recorder, users, departures } := by
  have hacts := acts_act p u
  generalize p.act u = q at hacts ⊢
  cases hacts <;> exact ⟨_, _, _, _, rfl⟩

@[simp] theorem workload_act (p : Pool σ) (u : VirtualUser) : (p.act u).workload = p.workload := by
  obtain ⟨_, _, _, _, h⟩ := act_frame p u
  rw [h]

@[simp] theorem thinkTime_act (p : Pool σ) (u : VirtualUser) :
    (p.act u).thinkTime = p.thinkTime := by
  obtain ⟨_, _, _, _, h⟩ := act_frame p u
  rw [h]

@[simp] theorem live_act (p : Pool σ) (u : VirtualUser) : (p.act u).live = p.live := by
  obtain ⟨_, _, _, _, h⟩ := act_frame p u
  rw [h]

@[simp] theorem stopped_act (p : Pool σ) (u : VirtualUser) : (p.act u).stopped = p.stopped := by
  obtain ⟨_, _, _, _, h⟩ := act_frame p u
  rw [h]

@[simp] theorem nextId_act (p : Pool σ) (u : VirtualUser) : (p.act u).nextId = p.nextId := by
  obtain ⟨_, _, _, _, h⟩ := act_frame p u
  rw [h]

@[simp] theorem peak_act (p : Pool σ) (u : VirtualUser) : (p.act u).peak = p.peak := by
  obtain ⟨_, _, _, _, h⟩ := act_frame p u
  rw [h]

@[simp] theorem now_act (p : Pool σ) (u : VirtualUser) : (p.act u).now = p.now := by
  obtain ⟨_, _, _, _, h⟩ := act_frame p u
  rw [h]

/-! ### Moves -/

/-- One small thing that happens to a pool. -/
inductive Move : Pool σ → Pool σ → Prop
  /-- A user acts whose time has come. -/
  | act {p : Pool σ} {u : VirtualUser} {t : Nat} (mem : u ∈ p.users)
      (due : p.due? u = some t) (ready : t ≤ p.now) : Move p (p.act u)
  /-- Time passes, but not beyond when a user is due. -/
  | pass {p : Pool σ} {t : Nat} (first : p.NoneDueBefore t) : Move p { p with now := max p.now t }
  /-- A user comes into a pool that is not stopped. -/
  | spawn {p : Pool σ} (going : p.stopped = false) : Move p p.spawn
  /-- All but the oldest live users are told to leave. -/
  | retire {p : Pool σ} {keep : Nat} : Move p (p.retireBeyond keep)
  /-- The peak is noted. -/
  | crest {p : Pool σ} : Move p { p with peak := max p.peak p.live.length }
  /-- Some departures have been looked after. -/
  | tend {p : Pool σ} {l : List Departure} : Move p { p with departures := l }
  /-- Users may begin. -/
  | start {p : Pool σ} : Move p p.start
  /-- Users have to leave. -/
  | stop {p : Pool σ} : Move p p.stop
  /-- A stopped pool gives up its users. -/
  | clear {p : Pool σ} (stopped : p.stopped = true) : Move p { p with live := [] }

/-- Any number of moves. -/
abbrev Course : Pool σ → Pool σ → Prop := Relation.ReflTransGen Move

/-- What holds of a pool and is preserved by every move holds after every course. -/
theorem Course.preserves {P : Pool σ → Prop} (move : ∀ p q, Move p q → P p → P q)
    (h : Course p q) (hp : P p) : P q := by
  induction h with
  | refl => exact hp
  | tail _ hlast ih => exact move _ _ hlast ih

/-- A pool keeps its workload and its pause. -/
theorem workload_move (h : Move p q) :
    q.workload = p.workload ∧ q.thinkTime = p.thinkTime := by
  cases h with
  | act => exact ⟨workload_act _ _, thinkTime_act _ _⟩
  | _ => exact ⟨rfl, rfl⟩

theorem Course.workload (h : Course p q) :
    q.workload = p.workload ∧ q.thinkTime = p.thinkTime :=
  h.preserves (P := fun r => r.workload = p.workload ∧ r.thinkTime = p.thinkTime)
    (fun _ _ hm hr => ⟨(workload_move hm).1.trans hr.1, (workload_move hm).2.trans hr.2⟩) ⟨rfl, rfl⟩

/-- The clock never goes back. -/
theorem now_le_move (h : Move p q) : p.now ≤ q.now := by
  cases h with
  | act => exact Nat.le_of_eq (now_act _ _).symm
  | pass => exact Nat.le_max_left _ _
  | _ => exact Nat.le_refl _

theorem Course.now_le (h : Course p q) : p.now ≤ q.now :=
  h.preserves (P := fun r => p.now ≤ r.now) (fun _ _ hm hr => Nat.le_trans hr (now_le_move hm))
    (Nat.le_refl _)

/-! ### Users act and time passes -/

/-- A user acts, or time passes; the owner of the pool does nothing. -/
inductive Tick : Pool σ → Pool σ → Prop
  /-- A user acts whose time has come. -/
  | act {p : Pool σ} {u : VirtualUser} {t : Nat} (mem : u ∈ p.users)
      (due : p.due? u = some t) (ready : t ≤ p.now) : Tick p (p.act u)
  /-- Time passes, but not beyond when a user is due. -/
  | pass {p : Pool σ} {t : Nat} (first : p.NoneDueBefore t) : Tick p { p with now := max p.now t }

/-- What happens to a pool while its owner does nothing. -/
abbrev Progress : Pool σ → Pool σ → Prop := Relation.ReflTransGen Tick

theorem Tick.move (h : Tick p q) : Move p q := by
  cases h with
  | act mem due ready => exact .act mem due ready
  | pass first => exact .pass first

theorem Progress.course (h : Progress p q) : Course p q :=
  Relation.ReflTransGen.mono (fun _ _ => Tick.move) _ _ h

/-! ### Operations are courses -/

theorem course_spawnMany (n : Nat) (going : p.stopped = false) : Course p (spawnMany n p) := by
  induction n generalizing p with
  | zero => exact .refl
  | succ n ih => exact .head (.spawn going) (ih going)

theorem course_resize (target : Nat) (going : p.stopped = false) :
    Course p (p.resize target) := by
  unfold resize
  split
  · exact .tail (.single .retire) .crest
  · exact .tail (course_spawnMany _ going) .crest

theorem stopped_reap (p : Pool σ) : p.reap.1.stopped = p.stopped := by
  unfold reap
  cases reapDepartures p.departures
  dsimp only
  split
  · rfl
  · split <;> rfl

theorem move_reap (p : Pool σ) : Move p p.reap.1 := by
  unfold reap
  cases reapDepartures p.departures
  dsimp only
  split
  · exact .tend
  · split <;> exact .tend

theorem course_reconcile (p : Pool σ) (target : Nat) : Course p (p.reconcile target).1 := by
  -- the pool is at fault, or stopped, or resized, but first departures are looked after
  have hreap := move_reap p
  have hstopped := stopped_reap p
  unfold reconcile
  split
  case h_1 h => rw [h] at hreap; exact .single hreap
  case h_2 h =>
    rw [h] at hreap hstopped
    dsimp only at hreap hstopped ⊢
    split
    · exact .single hreap
    case isFalse going => exact .head hreap (course_resize target (by simpa using going))

theorem course_abandon (p : Pool σ) : Course p p.abandon :=
  .tail (.single .stop) (.clear rfl)

theorem move_settle (p : Pool σ) : Move p p.settle.1 := .tend

/-- Whoever is due at a time is due by then once the time has come. -/
theorem due?_of_now (h : p.due? u = some t) :
    ∃ d ≤ max p.now t, ({ p with now := max p.now t } : Pool σ).due? u = some d := by
  unfold due? VirtualUser.due? at h ⊢
  grind

/-- The user that is due first acts. -/
theorem progress_actAt (h : p.next? = some (t, u)) : Progress p (p.actAt t u) := by
  obtain ⟨hmem, hdue, hfirst⟩ := next?_eq_some h
  -- first the time of the user comes, then it acts
  obtain ⟨d, hd, hdue⟩ := due?_of_now hdue
  exact .tail (.single (.pass hfirst)) (.act hmem hdue hd)

theorem course_actAt (h : p.next? = some (t, u)) : Course p (p.actAt t u) :=
  (progress_actAt h).course

theorem progress_step? (h : p.step? = some q) : Progress p q := by
  obtain ⟨⟨t, u⟩, hnext, rfl⟩ := Option.map_eq_some_iff.1 h
  exact progress_actAt hnext

theorem progress_stepWithin? {limit : Nat} (h : p.stepWithin? limit = some q) :
    Progress p q := by
  unfold stepWithin? at h
  split at h
  case h_1 hnext =>
    split at h
    · cases h; exact progress_actAt hnext
    · cases h
  case h_2 => cases h

theorem noneDueBefore_of_stepWithin?_eq_none {limit : Nat} (h : p.stepWithin? limit = none) :
    p.NoneDueBefore limit := by
  unfold stepWithin? at h
  split at h
  case h_1 t u hnext =>
    split at h
    · cases h
    · intro v hv d hd
      have := (next?_eq_some hnext).2.2 v hv d hd
      omega
  case h_2 hnext => exact noneDueBefore_of_next?_eq_none hnext limit

theorem progress_advance? {limit fuel : Nat} (h : p.advance? limit fuel = some q) :
    Progress p q := by
  induction fuel generalizing p with
  | zero => cases h
  | succ fuel ih =>
    unfold advance? at h
    split at h
    case h_1 hstep => exact .trans (progress_stepWithin? hstep) (ih h)
    case h_2 hstep =>
      cases h
      exact .single (.pass (noneDueBefore_of_stepWithin?_eq_none hstep))

/-- While the owner of a pool waits, users act and time passes. -/
theorem progress_wait? {fuel : Nat} {d : Duration} (h : p.wait? fuel d = some q) :
    Progress p q := by
  unfold wait? at h
  split at h
  · cases h; exact .refl
  · exact progress_advance? h

theorem progress_exhaust? {fuel : Nat} (h : exhaust? fuel p = some q) : Progress p q := by
  induction fuel generalizing p with
  | zero => cases h
  | succ fuel ih =>
    unfold exhaust? at h
    split at h
    case h_1 hstep => exact .trans (progress_step? hstep) (ih h)
    case h_2 => cases h; exact .refl

theorem course_exhaust? {fuel : Nat} (h : exhaust? fuel p = some q) : Course p q :=
  (progress_exhaust? h).course

theorem course_drain? {fuel : Nat} {fault : Option PoolFault}
    (h : p.drain? fuel = some (q, fault)) : Course p q := by
  obtain ⟨r, hr, hsettle⟩ := Option.map_eq_some_iff.1 h
  have hq : q = r.settle.1 := by rw [hsettle]
  subst hq
  exact .tail (.trans (course_abandon p) (course_exhaust? hr)) (move_settle r)

end Pool

end StagedLoad
