import StagedLoad.Proofs.Pool.Crash
import StagedLoad.Proofs.Pool.Drain
import StagedLoad.Proofs.Pool.Log

/-!
# What a stopped pool still does

In a stopped pool nobody begins anything, so what its users will have recorded when everyone
has left, and when that is, is settled by what they have recorded and by the invocations in
flight.  Each act of a user turns some of what is in flight into what is recorded, and their
sum stays what it is.

## Main definitions

* `Pool.finalSamples` — all samples when everyone has left.
* `Pool.lastEnd` — when the last invocation in flight ends.

## Main results

* `finalSamples_actAt`, `lastEnd_actAt` — whoever acts, these stay as they are.
* `finalSamples_of_calls_eq_nil` — without invocations in flight nothing more is recorded.
-/

namespace StagedLoad.Pool

variable {σ : Type} {p : Pool σ} {u : VirtualUser} {t : Nat}

/-- The samples of a user when its invocation has ended. -/
def finalSamplesOf (p : Pool σ) (id : Nat) : List Sample :=
  p.samplesOf id ++ (p.inFlight id).filterMap Call.sample?

/-- All samples, user by user, when every invocation in flight has ended. -/
def finalSamples (p : Pool σ) : List Sample :=
  (List.range p.recorder.shards.size).flatMap fun k => p.finalSamplesOf (k + 1)

/-- When the last invocation in flight ends; now, if there is none. -/
def lastEnd (p : Pool σ) : Nat :=
  (p.calls.map fun call => call.1.elapsed + call.2.takes).foldl max p.now

/-! ### The samples -/

/-- Whoever acts in a stopped pool, the samples of each user will be what they would have been. -/
theorem Valid.finalSamplesOf_act (h : p.Valid) (hstopped : p.stopped = true) (hu : u ∈ p.users)
    (id : Nat) : (p.act u).finalSamplesOf id = p.finalSamplesOf id := by
  have hflight : (p.act u).inFlight id = (p.depart u none).inFlight id := by
    rw [inFlight, user?, users_act_of_stopped hstopped]
    rfl
  rw [finalSamplesOf, finalSamplesOf, h.samplesOf_act hu, hflight, inFlight_depart]
  by_cases hid : id = u.id
  · -- what the user was in has just been recorded
    subst hid
    rw [if_pos rfl, if_pos rfl, inFlight_of_user? (h.user?_of_mem hu), List.filterMap_nil,
      List.append_nil]
  · rw [if_neg hid, if_neg hid, List.append_nil]

theorem Valid.finalSamples_act (h : p.Valid) (hstopped : p.stopped = true) (hu : u ∈ p.users) :
    (p.act u).finalSamples = p.finalSamples := by
  have hsize : (p.act u).recorder.shards.size = p.recorder.shards.size := by
    have hafter := (h.act hu).shards
    rw [nextId_act, ← h.shards] at hafter
    exact Nat.succ.inj hafter
  rw [finalSamples, finalSamples, hsize]
  simp only [h.finalSamplesOf_act hstopped hu]

/-- Whoever acts next in a stopped pool, the samples will be what they would have been. -/
theorem Valid.finalSamples_actAt (h : p.Valid) (hstopped : p.stopped = true)
    (hnext : p.next? = some (t, u)) : (p.actAt t u).finalSamples = p.finalSamples := by
  obtain ⟨hu, -, hfirst⟩ := next?_eq_some hnext
  exact (h.pass hfirst).finalSamples_act hstopped hu

theorem inFlight_of_calls_eq_nil (hcalls : p.calls = []) (id : Nat) : p.inFlight id = [] := by
  rw [List.eq_nil_iff_forall_not_mem]
  intro call hcall
  obtain ⟨u, hu, hbusy⟩ := mem_inFlight.1 hcall
  have hmem : call ∈ p.calls :=
    List.mem_filterMap.2 ⟨u, (mem_of_user? hu).1, Activity.call?_eq_some.2 hbusy⟩
  rw [hcalls] at hmem
  cases hmem

/-- If nothing is in flight, nothing more is recorded. -/
theorem Valid.finalSamples_of_calls_eq_nil (h : p.Valid) (hcalls : p.calls = []) :
    p.finalSamples = p.recorder.snapshot := by
  simp only [finalSamples, finalSamplesOf, inFlight_of_calls_eq_nil hcalls, List.filterMap_nil,
    List.append_nil, h.samplesOf_succ]
  exact (Recorder.snapshot_eq_flatMap_shard h.shared).symm

/-! ### The last end -/

theorem lastEnd_of_calls_eq_nil (hcalls : p.calls = []) : p.lastEnd = p.now := by
  rw [lastEnd, hcalls]
  rfl

/-- The invocations in flight are that of a user, if any, and those that there are when it has
left. -/
theorem Valid.calls_perm (h : p.Valid) (hu : u ∈ p.users)
    (cause : Option String) :
    p.calls.Perm (u.activity.call?.toList ++ (p.depart u cause).calls) := by
  have hperm := (h.users_perm hu cause).filterMap fun u => u.activity.call?
  rw [List.filterMap_cons] at hperm
  cases hcall : u.activity.call? with
  | none => simpa [hcall, calls] using hperm
  | some call => simpa [hcall, calls] using hperm

/-- Whoever acts next in a stopped pool, the last invocation ends when it would have ended. -/
theorem Valid.lastEnd_actAt (h : p.Valid) (hstopped : p.stopped = true)
    (hnext : p.next? = some (t, u)) : (p.actAt t u).lastEnd = p.lastEnd := by
  obtain ⟨hu, hdue, -⟩ := next?_eq_some hnext
  have hcalls : (p.actAt t u).calls = (p.depart u none).calls := by
    rw [calls, actAt, users_act_of_stopped (p := { p with now := max p.now t }) hstopped]
    rfl
  -- the clock goes on to the end of what the user is in, and not at all if it is in nothing
  have hnow : (u.activity.call?.toList.map fun call => call.1.elapsed + call.2.takes).foldl max
      p.now = max p.now t := by
    have hidle : u.due? p.started p.stopped p.now = some p.now → t = p.now := by
      intro hidle
      rw [due?, hidle] at hdue
      exact (Option.some.inj hdue).symm
    cases hactivity : u.activity with
    | waiting => simp [hidle (by simp [VirtualUser.due?, hactivity, hstopped])]
    | thinking =>
      simp [hidle (by simp [VirtualUser.due?, VirtualUser.mustLeave, hactivity, hstopped])]
    | invoking c i =>
      rw [due?_of_invoking hactivity] at hdue
      simp [Option.some.inj hdue]
  -- the last of several ends does not depend on their order
  have hperm := (h.calls_perm hu none).map fun call => call.1.elapsed + call.2.takes
  rw [lastEnd, lastEnd, hperm.foldl_eq, List.map_append, List.foldl_append, hnow, hcalls, actAt,
    now_act]

end StagedLoad.Pool
