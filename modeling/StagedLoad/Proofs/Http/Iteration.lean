import Mathlib.Algebra.GroupWithZero.Nat
import StagedLoad.Http.Workload

/-!
# One iteration of a workload of requests

An iteration sends its requests one after the other, whatever becomes of them, and its outcome
is put together request by request.  A request without a response fails all of its checks and
none of the others'.

## Main definitions

* `HttpWorkload.Answered` — some requests have been sent one after the other, with these answers.
* `HttpWorkload.results` — the results of the checks of one request.
* `HttpWorkload.Reports` — an outcome tells of every request what became of it.

## Main results

* `exists_answered` — every request is sent.
* `reports_of_answered` — every request is reported.
-/

namespace StagedLoad.HttpWorkload

/-- What became of a request, and how long that took. -/
abbrev Answer := Except TransportFault HttpResponse × Duration

variable {σ : Type} {network : Network σ}

/-! ### Sending -/

/-- Some requests have been sent one after the other, each to the network as the one before has
left it, and there is an answer to each. -/
inductive Answered (network : Network σ) :
    σ → List PreparedRequest → List Answer → σ → Prop
  | done {s : σ} : Answered network s [] [] s
  | sent {s s' last : σ} {r : PreparedRequest} {a : Answer} {rest : List PreparedRequest}
      {answers : List Answer} (sends : Client.send network r.request s = (a, s'))
      (others : Answered network s' rest answers last) :
      Answered network s (r :: rest) (a :: answers) last

theorem Answered.length_eq {s last : σ} {requests : List PreparedRequest} {answers : List Answer}
    (h : Answered network s requests answers last) : answers.length = requests.length := by
  induction h with
  | done => rfl
  | sent _ _ ih => rw [List.length_cons, List.length_cons, ih]

/-- What is observed of some requests, after what has been observed before. -/
def observeAll (o : Outcome) (exchanges : List (PreparedRequest × Answer)) : Outcome :=
  exchanges.foldl (fun o e => observe o e.1 e.2) o

/-- Every request is sent and observed, whatever became of those before. -/
theorem exists_answered (network : Network σ) (o : Outcome) (s : σ)
    (requests : List PreparedRequest) : ∃ answers last, Answered network s requests answers last ∧
      sendAll network o s requests = (observeAll o (requests.zip answers), last) := by
  induction requests generalizing o s with
  | nil => exact ⟨[], s, .done, rfl⟩
  | cons r rest ih =>
    obtain ⟨answers, last, hanswered, hsend⟩ :=
      ih (observe o r (Client.send network r.request s).1) (Client.send network r.request s).2
    exact ⟨_, last, .sent rfl hanswered, hsend⟩

/-! ### Observing -/

/-- The results of the checks of one request: those of the response, if there is one. -/
def results (r : PreparedRequest) (a : Answer) : List (String × Bool) :=
  match a.1 with
  | .ok response => r.checks.map fun c => (c.name, c.expect.holds response)
  | .error _ => r.checks.map fun c => (c.name, false)

theorem results_eq (r : PreparedRequest) (a : Answer) :
    (r.checks.map fun c => (c.name, c.passes a.1.toOption)) = results r a := by
  unfold results ResponseCheck.passes
  cases a.1 <;> rfl

theorem map_fst_results (r : PreparedRequest) (a : Answer) :
    (results r a).map Prod.fst = r.checks.map ResponseCheck.name := by
  unfold results
  cases a.1 <;> simp

section Observe

variable (o : Outcome) (exchanges : List (PreparedRequest × Answer))

/-- What every request adds to a list of an outcome is there in the order of the requests. -/
theorem append_observeAll {β : Type} {field : Outcome → List β}
    {part : PreparedRequest × Answer → List β}
    (h : ∀ o e, field (observe o e.1 e.2) = field o ++ part e) :
    field (observeAll o exchanges) = field o ++ exchanges.flatMap part := by
  induction exchanges generalizing o with
  | nil => exact (List.append_nil _).symm
  | cons e rest ih =>
    rw [List.flatMap_cons, ← List.append_assoc, ← h]
    exact ih (observe o e.1 e.2)

theorem requests_observeAll : (observeAll o exchanges).requests =
    o.requests ++ exchanges.map fun e => ⟨e.2.2, isFailure e.2.1⟩ := by
  rw [List.map_eq_flatMap]
  exact append_observeAll o exchanges fun _ _ => rfl

theorem values_observeAll : (observeAll o exchanges).values =
    o.values ++ exchanges.map fun e => (e.1.trend, e.2.2.toMillis) := by
  rw [List.map_eq_flatMap]
  exact append_observeAll o exchanges fun _ _ => rfl

theorem checks_observeAll : (observeAll o exchanges).checks =
    o.checks ++ exchanges.flatMap fun e => results e.1 e.2 :=
  append_observeAll o exchanges fun o e => congrArg (o.checks ++ ·) (results_eq e.1 e.2)

theorem failed_observeAll : (observeAll o exchanges).failed =
    (o.failed || exchanges.any fun e => isFailure e.2.1) := by
  induction exchanges generalizing o with
  | nil => exact (Bool.or_false _).symm
  | cons e rest ih =>
    rw [List.any_cons, ← Bool.or_assoc]
    exact ih (observe o e.1 e.2)

/-- Latencies are added up, and a sum that is too long is cut to the longest duration. -/
theorem latency_observeAll : (observeAll o exchanges).latency =
    Duration.clamp (o.latency.nanos + (exchanges.map fun e => e.2.2.nanos).sum) := by
  induction exchanges generalizing o with
  | nil => exact (Duration.clamp_nanos _).symm
  | cons e rest ih =>
    rw [List.map_cons, List.sum_cons, ← Nat.add_assoc, ← Duration.clamp_clamp_add]
    exact ih (observe o e.1 e.2)

end Observe

/-! ### Reporting -/

/-- An outcome tells of every request what became of it. -/
structure Reports (requests : List PreparedRequest) (answers : List Answer) (o : Outcome) :
    Prop where
  /-- There is one timing of every request, which tells whether it has failed. -/
  timings : o.requests = answers.map fun a => ⟨a.2, isFailure a.1⟩
  /-- A request has failed if there was no response, or one with such a status. -/
  failures : ∀ a ∈ answers, isFailure a.1 = true ↔
    (∃ fault, a.1 = .error fault) ∨ ∃ response, a.1 = .ok response ∧ 400 ≤ response.status
  /-- The iteration has failed if a request has. -/
  failed : o.failed = true ↔ ∃ timing ∈ o.requests, timing.failed = true
  /-- Its latency is the sum of the latencies of the requests. -/
  latency : o.latency = Duration.clamp (o.requests.map fun timing => timing.latency.nanos).sum
  /-- There is one value of the own trend of every request. -/
  values : o.values = (requests.zip answers).map fun e => (e.1.trend, e.2.2.toMillis)
  /-- There are the results of all checks, in the order in which they are declared.  Those of a
  request without a response are all negative, and no others depend on it. -/
  checks : o.checks = (requests.zip answers).flatMap fun e => results e.1 e.2

theorem isFailure_iff {a : Except TransportFault HttpResponse} : isFailure a = true ↔
    (∃ fault, a = .error fault) ∨ ∃ response, a = .ok response ∧ 400 ≤ response.status := by
  cases a <;> simp [isFailure]

/-- Every request is reported. -/
theorem reports_of_answered {s last : σ} {requests : List PreparedRequest} {answers : List Answer}
    (h : Answered network s requests answers last) :
    Reports requests answers (observeAll {} (requests.zip answers)) := by
  have hanswers : (requests.zip answers).map Prod.snd = answers :=
    List.map_snd_zip (Nat.le_of_eq h.length_eq)
  have htimings : (observeAll {} (requests.zip answers)).requests =
      answers.map fun a => ⟨a.2, isFailure a.1⟩ := by
    have hmap := congrArg
      (List.map fun a : Answer => (⟨a.2, isFailure a.1⟩ : RequestTiming)) hanswers
    rw [requests_observeAll, ← hmap, List.map_map]
    rfl
  refine ⟨htimings, fun a _ => isFailure_iff, ?_, ?_, ?_, ?_⟩
  · have hany : (observeAll {} (requests.zip answers)).failed =
        (observeAll {} (requests.zip answers)).requests.any RequestTiming.failed := by
      rw [failed_observeAll, requests_observeAll, List.nil_append, List.any_map]
      exact Bool.false_or _
    rw [hany, List.any_eq_true]
  · rw [latency_observeAll, requests_observeAll]
    simp [Function.comp_def]
  · exact values_observeAll {} _
  · exact checks_observeAll {} _

/-- What is reported has been declared: all checks and all trends, in their order. -/
theorem Reports.names_eq {w : HttpWorkload} {answers : List Answer} {o : Outcome}
    (h : Reports w.requests answers o) (hlength : answers.length = w.requests.length) :
    o.checks.map Prod.fst = w.declared.checks ∧ o.values.map Prod.fst = w.declared.trends := by
  have hrequests : (w.requests.zip answers).map Prod.fst = w.requests :=
    List.map_fst_zip (Nat.le_of_eq hlength.symm)
  refine ⟨?_, ?_⟩
  · have hnames : w.declared.checks =
        (w.requests.zip answers).flatMap fun e => e.1.checks.map ResponseCheck.name := by
      have hflat := congrArg (List.flatMap fun r => r.checks.map ResponseCheck.name) hrequests
      rw [List.flatMap_map] at hflat
      exact hflat.symm
    rw [h.checks, hnames, List.map_flatMap]
    simp only [map_fst_results]
  · have hnames : w.declared.trends = (w.requests.zip answers).map fun e => e.1.trend := by
      have hmap := congrArg (List.map PreparedRequest.trend) hrequests
      rw [List.map_map] at hmap
      exact hmap.symm
    rw [h.values, hnames, List.map_map]
    rfl

end StagedLoad.HttpWorkload
