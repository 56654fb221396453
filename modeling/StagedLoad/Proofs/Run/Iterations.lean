import StagedLoad.Proofs.Pool.Command
import StagedLoad.Proofs.Pool.Drain
import StagedLoad.Proofs.Pool.Log
import StagedLoad.Proofs.Run.Steps

/-!
# No iteration is begun late, cut short, or lost

A user that has been told to leave begins nothing more, wherever it is when it is told:
before the start, in an invocation, between two iterations, or in a pause.  An invocation that
is in flight runs to its end and is recorded.  So once a pool has been drained, the samples of
each user are those of its invocations, and nobody ever comes back.

The owner of a pool may do what it likes in any order, and so may a run.

## Main definitions

* `Pool.Flagged` — a user, or everyone, has been told to leave.
* `Pool.KeepsIterations` — what holds of the iterations of a pool from now on.

## Main results

* `Quit.move` — who has been told to leave begins nothing.
* `Carried.move` — an invocation goes on until it has been recorded.
-/

namespace StagedLoad.Pool

variable {σ : Type}

/-! ### Nothing is begun late -/

/-- A user has been told to leave, or everyone has. -/
def Flagged (p : Pool σ) (id : Nat) : Prop :=
  p.stopped = true ∨ ∃ u ∈ p.users, u.id = id ∧ u.retired = true

/-- A user will not begin anything: everyone has been told to leave, or the user has come and,
if it is still there, has been told to leave. -/
def Quit (p : Pool σ) (id : Nat) : Prop :=
  p.stopped = true ∨ id < p.nextId ∧ ∀ u, p.user? id = some u → u.retired = true

theorem Flagged.quit {p : Pool σ} {id : Nat} (hp : p.Valid) (h : p.Flagged id) : p.Quit id := by
  rcases h with hstopped | ⟨u, hu, rfl, hretired⟩
  · exact .inl hstopped
  · refine .inr ⟨(hp.numbered u hu).2, ?_⟩
    intro v hv
    rw [hp.user?_of_mem hu] at hv
    cases hv
    exact hretired

variable {w : Workload σ} {p q : Pool (σ × List Call)} {u : VirtualUser}

theorem Quit.act (h : Kept w p) {id : Nat} (hq : p.Quit id) (hu : u ∈ p.users) :
    (p.act u).Quit id ∧ (p.act u).begunBy id = p.begunBy id := by
  have huser := h.valid.user?_of_mem hu
  by_cases hid : id = u.id
  · subst hid
    have hmust : u.mustLeave p.stopped = true := by
      rcases hq with hstopped | ⟨-, hretired⟩
      · simp [VirtualUser.mustLeave, hstopped]
      · simp [VirtualUser.mustLeave, hretired u huser]
    obtain ⟨hstate, husers⟩ := act_of_mustLeave hmust
    have hgone : (p.act u).user? u.id = none := by
      rw [user?, husers]
      exact (user?_depart p u none u.id).trans (if_pos rfl)
    refine ⟨.inr ⟨?_, ?_⟩, by rw [begunBy, hstate]; rfl⟩
    · rw [nextId_act]
      exact (h.valid.numbered u hu).2
    · intro v hv
      rw [hgone] at hv
      cases hv
  · refine ⟨?_, begunBy_act_of_ne h.workload hid⟩
    rw [Quit, stopped_act, nextId_act, user?_act_of_ne hid]
    exact hq

/-- Who has been told to leave begins nothing, whatever happens. -/
theorem Quit.move (h : Kept w p) {id : Nat} (hq : p.Quit id) (hm : Move p q) :
    q.Quit id ∧ q.begunBy id = p.begunBy id := by
  cases hm with
  | act mem => exact hq.act h mem
  | spawn going =>
    -- whoever comes takes a new number, and nobody comes into a stopped pool
    refine ⟨.inr ?_, rfl⟩
    rcases hq with hstopped | ⟨hlt, hretired⟩
    · rw [going] at hstopped
      cases hstopped
    · refine ⟨Nat.lt_succ_of_lt hlt, fun u hu => hretired u ?_⟩
      rwa [h.valid.user?_spawn, if_neg (by omega)] at hu
  | retire =>
    refine ⟨hq.imp_right fun ⟨hlt, hretired⟩ => ⟨hlt, ?_⟩, rfl⟩
    intro u hu
    rw [user?_retireBeyond] at hu
    obtain ⟨v, hv, rfl⟩ := Option.map_eq_some_iff.1 hu
    split
    · rfl
    · exact hretired v hv
  | stop => exact ⟨.inl rfl, rfl⟩
  | _ => exact ⟨hq, rfl⟩

theorem Quit.course (h : Kept w p) {id : Nat} (hq : p.Quit id) (hc : Course p q) :
    q.begunBy id = p.begunBy id := by
  have hall : Kept w q ∧ q.Quit id ∧ q.begunBy id = p.begunBy id := by
    refine hc.preserves (P := fun r => Kept w r ∧ r.Quit id ∧ r.begunBy id = p.begunBy id)
      ?_ ⟨h, hq, rfl⟩
    rintro r s hm ⟨hr, hquit, hbegun⟩
    obtain ⟨hquit', hbegun'⟩ := hquit.move hr hm
    exact ⟨hr.move hm, hquit', hbegun'.trans hbegun⟩
  exact hall.2.2

/-! ### Nothing is cut short -/

/-- An invocation of a user goes on until its time is over, and then it is recorded. -/
def Carried (p : Pool σ) (id : Nat) (call : Call) : Prop :=
  (call ∈ p.inFlight id ∧ p.now ≤ call.1.elapsed + call.2.takes) ∨
  (call.1.elapsed + call.2.takes ≤ p.now ∧ ∀ s, call.sample? = some s → s ∈ p.recorder.snapshot)

theorem Valid.carried {p : Pool σ} (h : p.Valid) {id : Nat} {call : Call}
    (hcall : call ∈ p.inFlight id) : p.Carried id call := by
  obtain ⟨u, hu, hbusy⟩ := mem_inFlight.1 hcall
  exact .inl ⟨hcall, h.punctual u (mem_of_user? hu).1 _ (due?_of_invoking hbusy)⟩

theorem mem_snapshot_act {p : Pool σ} (h : p.Valid) {u : VirtualUser} (hu : u ∈ p.users)
    {s : Sample} (hs : s ∈ p.recorder.snapshot) : s ∈ (p.act u).recorder.snapshot := by
  have hmem : ∀ s', s ∈ (p.recorder.record u.shard s').snapshot := fun s' =>
    (Recorder.mem_snapshot_record h.shared (h.shard_lt hu)).2 (.inl hs)
  have hacts := acts_act p u
  generalize p.act u = q at hacts ⊢
  cases hacts with
  | finish => exact hmem _
  | pause => exact hmem _
  | _ => exact hs

/-- What has been recorded stays recorded. -/
theorem mem_snapshot_move {p q : Pool σ} (h : p.Valid) (hm : Move p q) {s : Sample}
    (hs : s ∈ p.recorder.snapshot) : s ∈ q.recorder.snapshot := by
  cases hm with
  | act mem => exact mem_snapshot_act h mem hs
  | spawn => rw [spawn, Recorder.snapshot_openShard]; exact hs
  | _ => exact hs

/-- When the time of an invocation is over, it is recorded unless it crashed. -/
theorem carried_act {p : Pool σ} (h : p.Valid) {u : VirtualUser} {t : Nat} (hu : u ∈ p.users)
    (hdue : p.due? u = some t) (hready : t ≤ p.now) {call : Call}
    (hbusy : u.activity = .invoking call.1 call.2) : (p.act u).Carried u.id call := by
  rw [due?_of_invoking hbusy, Option.some.injEq] at hdue
  refine .inr ⟨by rw [now_act]; omega, ?_⟩
  intro s hs
  have hmem : s ∈ (p.recorder.record u.shard s).snapshot :=
    (Recorder.mem_snapshot_record h.shared (h.shard_lt hu)).2 (.inr rfl)
  have hacts := acts_act p u
  generalize p.act u = q at hacts ⊢
  cases hacts with
  | leave idle => rw [hbusy] at idle; cases idle
  | begin idle => rw [hbusy] at idle; cases idle
  | crash busy lost =>
    rw [hbusy] at busy
    cases busy
    rw [Call.sample?, Sample.ofInvocation?_eq_none_iff.2 ⟨_, lost⟩] at hs
    cases hs
  | finish busy kept =>
    rw [hbusy] at busy
    cases busy
    rw [Call.sample?, kept] at hs
    cases hs
    exact hmem
  | pause busy kept =>
    rw [hbusy] at busy
    cases busy
    rw [Call.sample?, kept] at hs
    cases hs
    exact hmem

/-- An invocation goes on until it has been recorded, whatever happens. -/
theorem Carried.move {p q : Pool σ} (h : p.Valid) {id : Nat} {call : Call}
    (hcall : p.Carried id call) (hm : Move p q) : q.Carried id call := by
  rcases hcall with ⟨hflight, hnow⟩ | ⟨hover, hkept⟩
  · cases hm with
    | @act u t mem due ready =>
      by_cases hid : id = u.id
      · subst hid
        obtain ⟨v, hv, hbusy⟩ := mem_inFlight.1 hflight
        rw [h.user?_of_mem mem] at hv
        cases hv
        exact carried_act h mem due ready hbusy
      · exact .inl ⟨by rwa [inFlight_act_of_ne hid], by rwa [now_act]⟩
    | @pass t first =>
      -- time does not pass beyond the end of an invocation
      obtain ⟨u, hu, hbusy⟩ := mem_inFlight.1 hflight
      have := first u (mem_of_user? hu).1 _ (due?_of_invoking hbusy)
      exact .inl ⟨hflight, Nat.max_le.2 ⟨hnow, this⟩⟩
    | spawn => exact .inl ⟨by rwa [h.inFlight_spawn], hnow⟩
    | retire => exact .inl ⟨by rwa [inFlight_retireBeyond], hnow⟩
    | _ => exact .inl ⟨hflight, hnow⟩
  · refine .inr ⟨Nat.le_trans hover (now_le_move hm), ?_⟩
    intro s hs
    exact mem_snapshot_move h hm (hkept s hs)

theorem Carried.course {p q : Pool σ} (h : p.Valid) {id : Nat} {call : Call}
    (hcall : p.Carried id call) (hc : Course p q) : q.Carried id call := by
  have hall : q.Valid ∧ q.Carried id call := by
    refine hc.preserves (P := fun r => r.Valid ∧ r.Carried id call)
      ?_ ⟨h, hcall⟩
    rintro r s hm ⟨hr, hcall⟩
    exact ⟨hr.move hm, hcall.move hr hm⟩
  exact hall.2

/-! ### Nothing is lost -/

/-- What holds of the iterations of a pool from now on. -/
structure KeepsIterations (p : Pool (σ × List Call)) : Prop where
  /-- A user that has been told to leave, on its own or with everyone, begins nothing more. -/
  late : ∀ id, p.Flagged id → ∀ q, Course p q → q.begunBy id = p.begunBy id
  /-- An invocation goes on until its time is over; by then it is recorded unless it crashed. -/
  short : ∀ u ∈ p.users, ∀ c i, u.activity = .invoking c i → ∀ q, Course p q →
    (∃ v ∈ q.users, v.id = u.id ∧ v.activity = .invoking c i ∧ q.now ≤ c.elapsed + i.takes) ∨
    (c.elapsed + i.takes ≤ q.now ∧
      ∀ s, Sample.ofInvocation? c i = some s → s ∈ q.recorder.snapshot)
  /-- Of the invocations of each user the last one may be in flight, and the others are done;
  what is recorded are the samples of those, in the same order. -/
  lost : ∀ id, ∃ done, p.begunBy id = done ++ p.inFlight id ∧
    p.samplesOf id = done.filterMap Call.sample?
  /-- Once nobody is left there are as many samples of each user as it has begun invocations
  that did not crash. -/
  counted : p.Emptied → ∀ id,
    (p.samplesOf id).length = (p.begunBy id).countP fun call => call.2.ending.cause? = none
  /-- Once nobody is left, nobody ever comes. -/
  gone : p.Emptied → ∀ q, Course p q → q.Emptied ∧ q.nextId = p.nextId
  /-- Draining comes to an end. -/
  drains : ∃ fuel q fault, p.drain? fuel = some (q, fault)
  /-- Draining leaves nobody, and nobody to be looked after. -/
  drained : ∀ fuel q fault, p.drain? fuel = some (q, fault) → q.Emptied ∧ q.running = 0

theorem nextId_of_emptied {p q : Pool σ} (hp : p.Emptied) (hc : Course p q) :
    q.Emptied ∧ q.nextId = p.nextId := by
  refine hc.preserves (P := fun r => r.Emptied ∧ r.nextId = p.nextId)
    (fun r s hm ⟨hr, hid⟩ => ⟨hr.move hm, ?_⟩) ⟨hp, rfl⟩
  cases hm with
  | act mem => rw [hr.users] at mem; cases mem
  | spawn going => rw [hr.stopped] at going; cases going
  | _ => exact hid

theorem Kept.keepsIterations (h : Kept w p) : p.KeepsIterations where
  late _ hflagged _ hc := (hflagged.quit h.valid).course h hc
  short u hu c i hbusy q hc := by
    have hflight : (c, i) ∈ p.inFlight u.id :=
      mem_inFlight.2 ⟨u, h.valid.user?_of_mem hu, hbusy⟩
    rcases (h.valid.carried hflight).course h.valid hc with ⟨hflight, hnow⟩ | hover
    · obtain ⟨v, hv, hbusy⟩ := mem_inFlight.1 hflight
      obtain ⟨hmem, hid⟩ := mem_of_user? hv
      exact .inl ⟨v, hmem, hid, hbusy, hnow⟩
    · exact .inr hover
  lost := h.kept
  counted hempty id := by
    obtain ⟨done, hdone, hsamples⟩ := h.kept id
    have hflight : p.inFlight id = [] := by simp [inFlight, user?, hempty.users]
    rw [hdone, hflight, List.append_nil, hsamples, length_filterMap_sample?]
  gone hempty _ hc := nextId_of_emptied hempty hc
  drains := by
    obtain ⟨q, fault, hq⟩ := p.drain?_isSome (Nat.lt_succ_self _)
    exact ⟨_, q, fault, hq⟩
  drained _ _ _ hdrain := emptied_drain? hdrain

/-- A pool that nobody has come into, with an empty log. -/
def logging (w : Workload σ) (s : σ) (think : Duration) : Pool (σ × List Call) :=
  ({ workload := w, state := s, thinkTime := think } : Pool σ).withLog []

theorem keepsIterations_of_course {s : σ} {think : Duration} (h : Course (logging w s think) p) :
    p.KeepsIterations :=
  ((kept_fresh w s think).course h).keepsIterations

/-- **No iteration is begun late, cut short, or lost.**  What the owner of a pool does in any
order is a course, and so is what a run does, which leaves nobody in the end; a log changes
nothing.  After every course of a pool, whatever its workload, users that have been told to
leave begin nothing more, invocations go on until they are recorded, and once the pool has
been drained there are as many samples of each user as it began invocations that did not
crash, and nobody ever comes back. -/
theorem iterations_are_kept (w : Workload σ) (s : σ) :
    (∀ fuel commands (p q : Pool (σ × List Call)),
      p.performAll? fuel commands = some q → Course p q) ∧
    (∀ config reporting aborts (r : Run (σ × List Call)),
      Run.prepare config w.logged (s, []) reporting aborts = .ok r →
      r.pool = logging w s r.plan.thinkTime ∧
      (∀ m n, m ≤ n → Course (r.after m).pool (r.after n).pool) ∧
      ∀ n, (r.after n).IsOver → (r.after n).pool.Emptied ∧ (r.after n).pool.running = 0) ∧
    (∀ (p q : Pool σ) calls, Course p q → ∃ more, Course (p.withLog calls) (q.withLog more)) ∧
    ∀ think p, Course (logging w s think) p → p.KeepsIterations := by
  refine ⟨fun _ _ _ _ h => course_performAll? h, ?_,
    fun _ _ calls h => h.withLog calls, fun think p h => keepsIterations_of_course h⟩
  intro config reporting aborts r h
  have hclosing := Run.closing_of_prepare h
  obtain ⟨plan, -, rfl⟩ := Run.prepare_eq_ok h
  exact ⟨rfl, fun m n hmn => Run.course_after _ hmn, fun n hover => (hclosing.after n).atEnd hover⟩

/-- Two users whose iterations take 30 milliseconds, without a pause.  After 45 milliseconds one
of them is told to leave in the middle of an iteration, and after 70 both are. -/
def rampDown : Option (Pool (Unit × List Call)) :=
  (logging ⟨{}, fun _ s => (⟨30, .outcome {}⟩, s)⟩ () Duration.zero).performAll? 20
    [.reconcile 2, .start, .wait (Duration.ofMillis 45), .reconcile 1,
      .wait (Duration.ofMillis 25), .stop, .drain]

/-- One user has begun and recorded three iterations, the other one two. -/
theorem rampDown_is_kept : ∃ p, rampDown = some p ∧ p.Emptied ∧
    ((p.begunBy 1).length = 3 ∧ (p.samplesOf 1).length = 3) ∧
    ((p.begunBy 2).length = 2 ∧ (p.samplesOf 2).length = 2) := by
  have hrun : rampDown.map (fun p => (p.stopped, p.users, p.live,
      (p.begunBy 1).map Prod.snd, (p.begunBy 2).map Prod.snd)) =
      some (true, [], [], List.replicate 3 ⟨30, .outcome {}⟩,
        List.replicate 2 ⟨30, .outcome {}⟩) := by
    decide +kernel
  -- the samples are not computed: that there are as many is what the theorem says
  obtain ⟨p, hp, hfields⟩ := Option.map_eq_some_iff.1 hrun
  obtain ⟨hstopped, husers, hlive, hone, htwo⟩ : p.stopped = true ∧ p.users = [] ∧ p.live = [] ∧
      (p.begunBy 1).map Prod.snd = List.replicate 3 ⟨30, .outcome {}⟩ ∧
      (p.begunBy 2).map Prod.snd = List.replicate 2 ⟨30, .outcome {}⟩ := by
    simpa only [Prod.mk.injEq] using hfields
  obtain ⟨hcourse, -, -, hkept⟩ := iterations_are_kept
    (⟨{}, fun _ s => (⟨30, .outcome {}⟩, s)⟩ : Workload Unit) ()
  have hempty : p.Emptied := ⟨hstopped, husers, hlive⟩
  have hcounted := (hkept Duration.zero p (hcourse _ _ _ _ hp)).counted hempty
  have hcount : ∀ id n, (p.begunBy id).map Prod.snd = List.replicate n ⟨30, .outcome {}⟩ →
      (p.begunBy id).length = n ∧ (p.samplesOf id).length = n := by
    intro id n h
    have hlength : (p.begunBy id).length = n := by simpa using congrArg List.length h
    have hcountP : ((p.begunBy id).map Prod.snd).countP (fun i => i.ending.cause? = none) = n := by
      rw [h]
      simp [List.countP_replicate, Ending.cause?]
    rw [List.countP_map] at hcountP
    exact ⟨hlength, (hcounted id).trans hcountP⟩
  exact ⟨p, hp, hempty, hcount 1 3 hone, hcount 2 2 htwo⟩

end StagedLoad.Pool
