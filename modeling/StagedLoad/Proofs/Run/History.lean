import StagedLoad.Proofs.Pool.Ledger
import StagedLoad.Proofs.Run.Log

/-!
# The samples of a user tell its history

A user makes one iteration after the other, so its samples follow one another in a snapshot as
its invocations did: the first sample is of iteration zero, the next one of iteration one, and so
on.  Each of them tells when its invocation began, how long it took, and what came of it.  The
next invocation begins when the one before has ended and the pause after it is over, or never.

## Main definitions

* `Sample.Records` — a sample tells of an invocation what there is to tell.
* `Steady` — invocations that are numbered without gaps and keep the pauses between them.
* `Pool.Rhythm` — the invocations of every user are steady, and the next ones will be.
* `Pool.Tells` — the samples of a user are the history of its invocations.

## Main results

* `Rhythm.move` — the rhythm is kept whatever happens.
* `Valid.keepsTime_move` — a sample is recorded at the millisecond in which its invocation ends.
* `samples_tell_history` — **the samples of each user are its history**.
-/

namespace StagedLoad

/-! ### What is recorded of one invocation -/

/-- A sample tells of an invocation what there is to tell. -/
structure Sample.Records (s : Sample) (call : Call) : Prop where
  user : s.user = call.1.user
  timestamp : s.timestamp = Duration.ofMillis call.1.elapsed
  duration : s.iterationDuration = Duration.ofMillis call.2.takes
  /-- What the invocation observed has been copied. -/
  outcome : ∀ o, call.2.ending = .outcome o → s.latency = o.latency ∧ s.success = !o.failed ∧
    s.checks = o.checks ∧ s.values = o.values ∧ s.requests = o.requests ∧ s.error = none
  /-- An invocation that ended with an error observed nothing but how long it took. -/
  error : ∀ message, call.2.ending = .error message → s.latency = s.iterationDuration ∧
    s.success = false ∧ s.error = some message ∧ s.checks = [] ∧ s.values = [] ∧ s.requests = []
  /-- It did end. -/
  survived : call.2.ending.cause? = none

theorem Call.records_of_sample? {call : Call} {s : Sample} (h : call.sample? = some s) :
    s.Records call := by
  unfold Call.sample? Sample.ofInvocation? at h
  split at h
  case h_1 o hending =>
    cases h
    exact ⟨rfl, rfl, rfl, by simp [hending], by simp [hending], by rw [hending]; rfl⟩
  case h_2 message hending =>
    cases h
    exact ⟨rfl, rfl, rfl, by simp [hending], by simp [hending], by rw [hending]; rfl⟩
  case h_3 => cases h

/-- If at most the last entry of a list has no value, the values stand in the places of the
entries. -/
theorem getElem?_filterMap_of_init {α β : Type} {f : α → Option β} {l : List α}
    (h : ∀ i a, l[i]? = some a → i + 1 < l.length → ∃ b, f a = some b) (i : Nat) :
    (l.filterMap f)[i]? = l[i]?.bind f := by
  induction l generalizing i with
  | nil => simp
  | cons a rest ih =>
    cases rest with
    | nil =>
      cases hfa : f a with
      | none => cases i <;> simp [hfa]
      | some b => cases i <;> simp [hfa]
    | cons a' rest =>
      obtain ⟨b, hb⟩ := h 0 a rfl (by simp)
      rw [List.filterMap_cons_some hb]
      cases i with
      | zero => simp [hb]
      | succ i =>
        rw [List.getElem?_cons_succ, List.getElem?_cons_succ]
        refine ih ?_ i
        intro j x hx hj
        exact h (j + 1) x (by simpa using hx) (by simpa using hj)

/-! ### Steady invocations -/

/-- When the pause after an invocation is over, in milliseconds since the start. -/
def Call.resumes (think : Duration) (call : Call) : Nat :=
  call.1.elapsed + call.2.takes + (call.2.ending.thinkTime think).startedMillis

/-- Invocations that are numbered from zero without gaps.  Only the last one may have crashed,
and each begins when the pause after the one before is over. -/
structure Steady (think : Duration) (calls : List Call) : Prop where
  numbered : ∀ (i : Nat) (call : Call), calls[i]? = some call → call.1.iteration = i
  paced : ∀ (i : Nat) (call next : Call), calls[i]? = some call → calls[i + 1]? = some next →
    call.2.ending.cause? = none ∧ call.resumes think ≤ next.1.elapsed

theorem steady_nil (think : Duration) : Steady think [] := ⟨by simp, by simp⟩

/-- Of steady invocations only the last one may have no sample. -/
theorem Steady.sample?_isSome {think : Duration} {calls : List Call} {call : Call} {i : Nat}
    (h : Steady think calls) (hcall : calls[i]? = some call) (hi : i + 1 < calls.length) :
    ∃ s, call.sample? = some s :=
  Call.sample?_isSome (h.paced i call _ hcall (List.getElem?_eq_getElem hi)).1

/-- The samples of the first ones of steady invocations are theirs one by one. -/
theorem Steady.getElem?_filterMap_sample? {think : Duration} {done rest : List Call}
    (h : Steady think (done ++ rest)) (i : Nat) :
    (done.filterMap Call.sample?)[i]? = done[i]?.bind Call.sample? := by
  refine getElem?_filterMap_of_init (fun j call hcall hj => ?_) i
  refine h.sample?_isSome (i := j) ?_ (by rw [List.length_append]; omega)
  rw [List.getElem?_append_left (by omega)]
  exact hcall

theorem Steady.concat {think : Duration} {calls : List Call} {call : Call} (h : Steady think calls)
    (hnumber : call.1.iteration = calls.length)
    (hlast : ∀ last, calls.getLast? = some last →
      last.2.ending.cause? = none ∧ last.resumes think ≤ call.1.elapsed) :
    Steady think (calls ++ [call]) := by
  refine ⟨?_, ?_⟩
  · intro i x hx
    rcases Nat.lt_trichotomy i calls.length with hi | rfl | hi
    · rw [List.getElem?_append_left hi] at hx
      exact h.numbered i x hx
    · rw [List.getElem?_concat_length] at hx
      cases hx
      exact hnumber
    · rw [List.getElem?_eq_none (by simp; omega)] at hx
      cases hx
  · intro i x next hx hnext
    rcases Nat.lt_trichotomy (i + 1) calls.length with hi | hi | hi
    · rw [List.getElem?_append_left (by omega)] at hx
      rw [List.getElem?_append_left hi] at hnext
      exact h.paced i x next hx hnext
    · rw [hi, List.getElem?_concat_length] at hnext
      cases hnext
      rw [List.getElem?_append_left (by omega)] at hx
      refine hlast x ?_
      rw [List.getLast?_eq_getElem?, ← hi]
      exact hx
    · rw [List.getElem?_eq_none (by simp; omega)] at hnext
      cases hnext

/-- What a user is doing after an invocation. -/
def Activity.Follows (think : Duration) (last : Call) : Activity → Prop
  | waiting => False
  | invoking c i => last = (c, i)
  | thinking t => last.2.ending.cause? = none ∧ last.resumes think ≤ t

/-- A user will go on steadily after some invocations: it knows how many they are, and it pauses
long enough. -/
structure VirtualUser.InStep (think : Duration) (calls : List Call) (u : VirtualUser) : Prop where
  counted : u.iteration + u.activity.call?.toList.length = calls.length
  follows : ∀ last, calls.getLast? = some last → u.activity.Follows think last

namespace Pool

variable {σ : Type} {w : Workload σ} {p q : Pool (σ × List Call)} {u : VirtualUser} {t : Nat}

/-! ### The rhythm of a pool -/

/-- The invocations of every user are steady so far, and the users that are left will go on so. -/
structure Rhythm (w : Workload σ) (p : Pool (σ × List Call)) : Prop where
  kept : Kept w p
  logged : Logged w p
  steady : ∀ id, Steady p.thinkTime (p.begunBy id)
  inStep : ∀ id u, p.user? id = some u → u.InStep p.thinkTime (p.begunBy id)

theorem rhythm_fresh (w : Workload σ) (s : σ) (think : Duration) :
    Rhythm w (({ workload := w, state := s, thinkTime := think } : Pool σ).withLog []) where
  kept := kept_fresh w s think
  logged := ⟨by simp [withLog], by simp [withLog]⟩
  steady _ := steady_nil think
  inStep id u hu := by simp [user?, withLog] at hu

/-- A user between iterations that does not have to leave begins the next one in its rhythm. -/
theorem Rhythm.begin (h : Rhythm w p) (hu : u ∈ p.users) (idle : u.activity.call? = none)
    (may : u.mustLeave p.stopped = false) (due : p.due? u = some t) (ready : t ≤ p.now) :
    Steady p.thinkTime ((p.invoke u).begunBy u.id) ∧
      ∀ v, (p.invoke u).user? u.id = some v →
        v.InStep p.thinkTime ((p.invoke u).begunBy u.id) := by
  have huser := h.kept.valid.user?_of_mem hu
  have hstep := h.inStep u.id u huser
  have hcount := hstep.counted
  rw [idle] at hcount
  have hbegun := begunBy_invoke h.kept.workload u u.id
  rw [if_pos rfl] at hbegun
  rw [hbegun]
  refine ⟨(h.steady u.id).concat hcount ?_, ?_⟩
  · intro last hlast
    have hfollows := hstep.follows last hlast
    cases hactivity : u.activity with
    | waiting => rw [hactivity] at hfollows; exact hfollows.elim
    | invoking => rw [hactivity] at idle; cases idle
    | thinking d =>
      rw [hactivity] at hfollows
      have hd : t = d := by
        simp only [due?, VirtualUser.due?, hactivity, may, Bool.false_eq_true, if_false,
          Option.some.injEq] at due
        exact due.symm
      exact ⟨hfollows.1, Nat.le_trans hfollows.2 (hd ▸ ready)⟩
  · intro v hv
    rw [invoke_eq_put, user?_put, if_pos rfl, huser] at hv
    cases hv
    refine ⟨by simpa using hcount, ?_⟩
    intro last hlast
    rw [List.getLast?_concat, Option.some.injEq] at hlast
    rw [← hlast, h.kept.workload]
    rfl

/-- A user whose invocation has ended pauses in its rhythm. -/
theorem Rhythm.pause (h : Rhythm w p) (hu : u ∈ p.users) {c : IterationContext} {i : Invocation}
    {s : Sample} (busy : u.activity = .invoking c i) (kept : Sample.ofInvocation? c i = some s)
    (due : p.due? u = some t) (ready : t ≤ p.now) :
    ∀ v, ((p.record u s).pause u i).user? u.id = some v →
      v.InStep p.thinkTime (p.begunBy u.id) := by
  have huser := h.kept.valid.user?_of_mem hu
  have hstep := h.inStep u.id u huser
  rw [due?_of_invoking busy, Option.some.injEq] at due
  intro v hv
  rw [pause_eq_put, user?_put, if_pos rfl] at hv
  rw [show (p.record u s).user? u.id = p.user? u.id from rfl, huser] at hv
  cases hv
  refine ⟨by simpa [busy] using hstep.counted, ?_⟩
  intro last hlast
  have hfollows := hstep.follows last hlast
  rw [busy] at hfollows
  cases hfollows
  refine ⟨?_, ?_⟩
  · rw [← Sample.ofInvocation?_ne_none_iff (c := c), kept]
    exact Option.some_ne_none s
  · show c.elapsed + i.takes + (i.ending.thinkTime p.thinkTime).startedMillis ≤
      p.now + (i.ending.thinkTime p.thinkTime).startedMillis
    omega

theorem Rhythm.act (h : Rhythm w p) (hu : u ∈ p.users) (due : p.due? u = some t)
    (ready : t ≤ p.now) : Rhythm w (p.act u) := by
  have hmove : Move p (p.act u) := .act hu due ready
  have hsteps : Steady p.thinkTime ((p.act u).begunBy u.id) ∧
      ∀ v, (p.act u).user? u.id = some v → v.InStep p.thinkTime ((p.act u).begunBy u.id) := by
    -- whoever leaves is not there anymore, and has begun nothing
    have hgone : ∀ (q : Pool (σ × List Call)) (cause : Option String) v,
        (q.depart u cause).user? u.id = some v → False := by
      intro q cause v hv
      rw [user?_depart, if_pos rfl] at hv
      cases hv
    have hacts := acts_act p u
    generalize p.act u = q at hacts ⊢
    cases hacts with
    | leave => exact ⟨h.steady u.id, fun v hv => (hgone _ _ v hv).elim⟩
    | begin idle may => exact h.begin hu idle may due ready
    | crash => exact ⟨h.steady u.id, fun v hv => (hgone _ _ v hv).elim⟩
    | finish => exact ⟨h.steady u.id, fun v hv => (hgone _ _ v hv).elim⟩
    | pause busy kept => exact ⟨h.steady u.id, h.pause hu busy kept due ready⟩
  refine ⟨h.kept.move hmove, h.logged.move h.kept hmove, ?_, ?_⟩
  · intro id
    rw [thinkTime_act]
    by_cases hid : id = u.id
    · rw [hid]
      exact hsteps.1
    · rw [begunBy_act_of_ne h.kept.workload hid]
      exact h.steady id
  · intro id v hv
    rw [thinkTime_act]
    by_cases hid : id = u.id
    · rw [hid] at hv ⊢
      exact hsteps.2 v hv
    · rw [user?_act_of_ne hid] at hv
      rw [begunBy_act_of_ne h.kept.workload hid]
      exact h.inStep id v hv

/-- A number that has not been handed out has begun nothing. -/
theorem Logged.begunBy_eq_nil (h : Logged w p) {id : Nat} (hid : p.nextId ≤ id) :
    p.begunBy id = [] := by
  rw [begunBy, List.filter_eq_nil_iff]
  intro call hcall
  have := (h.user call hcall).2
  simp only [beq_iff_eq]
  omega

/-- The rhythm is kept whatever happens. -/
theorem Rhythm.move (h : Rhythm w p) (hm : Move p q) : Rhythm w q := by
  have hkept := h.kept.move hm
  have hlogged := h.logged.move h.kept hm
  cases hm with
  | act mem due ready => exact h.act mem due ready
  | spawn =>
    refine ⟨hkept, hlogged, h.steady, ?_⟩
    intro id u hu
    rw [h.kept.valid.user?_spawn] at hu
    split at hu
    case isTrue hid =>
      have hnothing : p.spawn.begunBy id = [] :=
        h.logged.begunBy_eq_nil (Nat.le_of_eq hid.symm)
      cases hu
      rw [hnothing]
      exact ⟨rfl, by simp⟩
    case isFalse => exact h.inStep id u hu
  | retire =>
    refine ⟨hkept, hlogged, h.steady, ?_⟩
    intro id u hu
    rw [user?_retireBeyond] at hu
    obtain ⟨v, hv, rfl⟩ := Option.map_eq_some_iff.1 hu
    have hstep := h.inStep id v hv
    split
    · exact ⟨hstep.counted, hstep.follows⟩
    · exact hstep
  | _ => exact ⟨hkept, hlogged, h.steady, h.inStep⟩

theorem Rhythm.course (h : Rhythm w p) (hc : Course p q) : Rhythm w q :=
  hc.preserves (fun _ _ hm h => h.move hm) h

/-! ### When a user begins and when it is recorded -/

/-- What a move does to one user takes place at the right millisecond: an invocation is told the
time at which it begins, and its sample is recorded when it has taken as long as it takes. -/
structure KeepsTime {σ : Type} (p q : Pool σ) (id : Nat) : Prop where
  begins : ∀ call ∈ q.inFlight id, call ∈ p.inFlight id ∨ call.1.elapsed = q.now
  records : q.samplesOf id = p.samplesOf id ∨ ∃ call s, p.inFlight id = [call] ∧
    q.now = call.1.elapsed + call.2.takes ∧ s.Records call ∧
    q.samplesOf id = p.samplesOf id ++ [s]

theorem KeepsTime.of_same {σ : Type} {p q : Pool σ} {id : Nat}
    (hflight : q.inFlight id = p.inFlight id) (hsamples : q.samplesOf id = p.samplesOf id) :
    KeepsTime p q id :=
  ⟨fun _ hcall => .inl (hflight ▸ hcall), .inl hsamples⟩

/-- A user that acts is in an invocation afterwards only if it has begun it at this time. -/
theorem elapsed_of_mem_inFlight_act {σ : Type} {p : Pool σ} {u : VirtualUser}
    (huser : p.user? u.id = some u) {call : Call} (hcall : call ∈ (p.act u).inFlight u.id) :
    call.1.elapsed = (p.act u).now := by
  have hacts := acts_act p u
  generalize p.act u = q at hacts hcall ⊢
  cases hacts with
  | leave => rw [inFlight_depart, if_pos rfl] at hcall; cases hcall
  | begin =>
    have hbegun : (p.invoke u).inFlight u.id =
        [(p.context u, (p.workload.invoke (p.context u) p.state).1)] := by
      rw [invoke_eq_put]
      exact inFlight_put _ huser rfl
    rw [hbegun] at hcall
    rw [List.mem_singleton.1 hcall]
    rfl
  | crash => rw [inFlight_depart, if_pos rfl] at hcall; cases hcall
  | finish => rw [inFlight_depart, if_pos rfl] at hcall; cases hcall
  | @pause c i s =>
    have hidle : ((p.record u s).pause u i).inFlight u.id = [] := by
      rw [pause_eq_put]
      exact inFlight_put (p := p.record u s) _ huser rfl
    rw [hidle] at hcall
    cases hcall

theorem Valid.keepsTime_act {σ : Type} {p : Pool σ} (h : p.Valid) {u : VirtualUser}
    (hu : u ∈ p.users) (due : p.due? u = some t) (ready : t ≤ p.now) :
    KeepsTime p (p.act u) u.id := by
  have huser := h.user?_of_mem hu
  have hsamples := h.samplesOf_act hu u.id
  rw [if_pos rfl] at hsamples
  refine ⟨fun call hcall => .inr (elapsed_of_mem_inFlight_act huser hcall), ?_⟩
  cases hcall : u.activity.call? with
  | none =>
    rw [hcall] at hsamples
    exact .inl (by simpa using hsamples)
  | some call =>
    have hflight := inFlight_of_user? huser
    rw [hcall] at hsamples hflight
    have hdue := due?_of_invoking (p := p) (Activity.call?_eq_some.1 hcall)
    have hpunctual := h.punctual u hu t due
    rw [due, Option.some.injEq] at hdue
    cases hsample : Call.sample? call with
    | none => exact .inl (by simpa [hsample] using hsamples)
    | some s =>
      refine .inr ⟨call, s, hflight, ?_, Call.records_of_sample? hsample, ?_⟩
      · rw [now_act]
        omega
      · simpa [hsample] using hsamples

/-- Whatever happens, it happens to every user at the right millisecond. -/
theorem Valid.keepsTime_move {σ : Type} {p q : Pool σ} (h : p.Valid) (hm : Move p q) (id : Nat) :
    KeepsTime p q id := by
  cases hm with
  | @act u t mem due ready =>
    by_cases hid : id = u.id
    · subst hid
      exact h.keepsTime_act mem due ready
    · have hsamples := h.samplesOf_act mem id
      rw [if_neg hid, List.append_nil] at hsamples
      exact .of_same (inFlight_act_of_ne hid) hsamples
  | spawn => exact .of_same (h.inFlight_spawn id) (samplesOf_spawn p id)
  | retire => exact .of_same (inFlight_retireBeyond p _ id) rfl
  | _ => exact .of_same rfl rfl

/-! ### What the samples of a user tell -/

/-- The samples of a user in a snapshot tell the history of its invocations. -/
structure Tells {σ τ : Type} (w : Workload τ) (p : Pool σ) (id : Nat) (calls : List Call) :
    Prop where
  /-- These are invocations that the workload made for the user. -/
  made : ∀ call ∈ calls, call.1.user = id ∧ ∃ s, (w.invoke call.1 s).1 = call.2
  steady : Steady p.thinkTime calls
  /-- The samples are the records of the first invocations, in the order of the iterations. -/
  faithful : ∀ (i : Nat) (s : Sample), (p.samplesOf id)[i]? = some s →
    ∃ call, calls[i]? = some call ∧ call.1.iteration = i ∧ s.Records call
  /-- Only the last invocation may have none. -/
  complete : ∀ i, i + 1 < calls.length → i < (p.samplesOf id).length
  /-- Between two samples lie the iteration and the pause of the first one. -/
  spaced : ∀ (i : Nat) (s next : Sample) (call : Call), (p.samplesOf id)[i]? = some s →
    (p.samplesOf id)[i + 1]? = some next → calls[i]? = some call →
    s.timestamp + s.iterationDuration + call.2.ending.thinkTime p.thinkTime ≤ next.timestamp

/-- What takes place in milliseconds takes place in durations, which are cut to the longest. -/
theorem add_add_le_ofMillis {a b c : Nat} {d : Duration} (h : a + b + d.startedMillis ≤ c) :
    Duration.ofMillis a + Duration.ofMillis b + d ≤ Duration.ofMillis c := by
  have hd : d.nanos ≤ Duration.nanosPerMilli * d.startedMillis := by
    unfold Duration.startedMillis Duration.nanosPerMilli
    omega
  rw [Duration.le_def, Duration.nanos_add, Duration.nanos_add]
  simp only [Duration.ofMillis, Duration.nanos_clamp, Duration.nanosPerMilli] at hd ⊢
  omega

/-- In a pool that keeps its rhythm each sample of a user is of the invocation in its place. -/
theorem Rhythm.exists_records (h : Rhythm w p) {id i : Nat} {s : Sample}
    (hs : (p.samplesOf id)[i]? = some s) :
    ∃ call, (p.begunBy id)[i]? = some call ∧ s.Records call := by
  obtain ⟨done, hdone, hsamples⟩ := h.kept.kept id
  have hsteady := h.steady id
  rw [hdone] at hsteady
  rw [hsamples, hsteady.getElem?_filterMap_sample?] at hs
  obtain ⟨call, hcall, hrecord⟩ := Option.bind_eq_some_iff.1 hs
  refine ⟨call, ?_, Call.records_of_sample? hrecord⟩
  rw [hdone, List.getElem?_append_left (List.getElem?_eq_some_iff.1 hcall).1]
  exact hcall

/-- In such a pool only the last invocation of a user may have no sample. -/
theorem Rhythm.lt_length_samplesOf (h : Rhythm w p) {id i : Nat}
    (hi : i + 1 < (p.begunBy id).length) : i < (p.samplesOf id).length := by
  obtain ⟨done, hdone, hsamples⟩ := h.kept.kept id
  have hsteady := h.steady id
  rw [hdone] at hsteady hi
  have hlast : (p.inFlight id).length ≤ 1 := by
    unfold inFlight
    cases (p.user? id).bind fun u => u.activity.call? <;> simp
  have hlt : i < done.length := by
    rw [List.length_append] at hi
    omega
  have hcall : done[i]? = some done[i] := List.getElem?_eq_getElem hlt
  obtain ⟨s, hs⟩ := hsteady.sample?_isSome ((List.getElem?_append_left hlt).trans hcall) hi
  have hrecord : (p.samplesOf id)[i]? = some s := by
    rw [hsamples, hsteady.getElem?_filterMap_sample?, hcall]
    exact hs
  exact (List.getElem?_eq_some_iff.1 hrecord).1

/-- In a pool that keeps its rhythm the samples of each user tell its history. -/
theorem Rhythm.tells (h : Rhythm w p) (id : Nat) : p.Tells w id (p.begunBy id) := by
  have hsteady := h.steady id
  refine ⟨?_, hsteady, ?_, fun i => h.lt_length_samplesOf, ?_⟩
  · intro call hcall
    obtain ⟨hmem, huser⟩ := List.mem_filter.1 hcall
    exact ⟨by simpa using huser, h.logged.genuine call hmem⟩
  · intro i s hs
    obtain ⟨call, hcall, hrecords⟩ := h.exists_records hs
    exact ⟨call, hcall, hsteady.numbered i call hcall, hrecords⟩
  · intro i s next call hs hnext hcall
    obtain ⟨call', hcall', hrecords⟩ := h.exists_records hs
    obtain ⟨call'', hcall'', hnextRecords⟩ := h.exists_records hnext
    rw [hcall] at hcall'
    cases hcall'
    rw [hrecords.timestamp, hrecords.duration, hnextRecords.timestamp]
    exact add_add_le_ofMillis (hsteady.paced i call call'' hcall hcall'').2

/-- **The samples of each user are its history.**  What the owner of a pool does in any order is
a course, and so is what a run does.  After every course of a pool, whatever its workload, there
is a log of the invocations, and in a snapshot the samples of each user tell of its invocations
in the log one by one: of each from zero on what it was told, how long it took and what came of
it, and of the next one that it began when that one had ended and the pause after it was over.
Whatever happens next, invocations begin at the time that they are told, and their samples come
when they have ended. -/
theorem samples_tell_history {σ : Type} (w : Workload σ) (s : σ) :
    (∀ think fuel commands q, (fresh w s think).performAll? fuel commands = some q →
      Course (fresh w s think) q) ∧
    (∀ config reporting aborts r, Run.prepare config w s reporting aborts = .ok r →
      r.pool = fresh w s r.plan.thinkTime ∧ ∀ n, Course r.pool (r.after n).pool) ∧
    ∀ think p, Course (fresh w s think) p →
      (∃ calls, Course ((fresh w s think).withLog []) (p.withLog calls) ∧
        ∀ id, p.Tells w id (calls.filter fun call => call.1.user == id)) ∧
      ∀ q, Move p q → ∀ id, KeepsTime p q id := by
  refine ⟨fun _ _ _ _ h => course_performAll? h, ?_, ?_⟩
  · intro config reporting aborts r h
    obtain ⟨plan, -, rfl⟩ := Run.prepare_eq_ok h
    exact ⟨rfl, fun n => Run.course_after _ (Nat.zero_le n)⟩
  · intro think p h
    have hvalid := h.valid (valid_fresh w s think)
    refine ⟨?_, fun q hm id => hvalid.keepsTime_move hm id⟩
    obtain ⟨calls, hcalls⟩ := h.withLog []
    refine ⟨calls, hcalls, ?_⟩
    intro id
    have htells := ((rhythm_fresh w s think).course hcalls).tells id
    exact ⟨htells.made, htells.steady, htells.faithful, htells.complete, htells.spaced⟩

/-- Iterations of 30 milliseconds.  After the first one the user pauses for 20 milliseconds, and
the second one is refused. -/
def uneven : Workload Unit where
  declared := {}
  invoke c s := (⟨30, if c.iteration = 0 then .outcome { thinkTime := some (Duration.ofMillis 20) }
    else if c.iteration = 1 then .error "refused" else .outcome {}⟩, s)

/-- A user that otherwise pauses for 50 milliseconds, after 170 milliseconds. -/
def unevenUser : Option (Pool Unit) :=
  (fresh uneven () (Duration.ofMillis 50)).performAll? 10
    [.reconcile 1, .start, .wait (Duration.ofMillis 170)]

/-- Its samples begin after 0, 50 and 130 milliseconds, and tell of its invocations. -/
theorem unevenUser_tells : ∃ p calls, unevenUser = some p ∧ p.Tells uneven 1 calls ∧
    (p.samplesOf 1).map (fun s => s.timestamp.nanos / Duration.nanosPerMilli) = [0, 50, 130] ∧
    (p.samplesOf 1).map Sample.error = [none, some "refused", none] := by
  have hrun : unevenUser.map (fun p => ((p.samplesOf 1).map fun s =>
      (s.timestamp.nanos / Duration.nanosPerMilli, s.error))) =
      some [(0, none), (50, some "refused"), (130, none)] := by
    decide +kernel
  obtain ⟨p, hp, hsamples⟩ := Option.map_eq_some_iff.1 hrun
  obtain ⟨hcommands, -, htells⟩ := samples_tell_history uneven ()
  obtain ⟨⟨calls, -, hcalls⟩, -⟩ := htells _ p (hcommands _ _ _ p hp)
  refine ⟨p, _, hp, hcalls 1, ?_, ?_⟩
  · simpa [Function.comp_def] using congrArg (List.map Prod.fst) hsamples
  · simpa [Function.comp_def] using congrArg (List.map Prod.snd) hsamples

end Pool

end StagedLoad
