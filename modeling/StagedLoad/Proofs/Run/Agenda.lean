import StagedLoad.Proofs.Run.Steps

/-!
# The agenda of a run

A run always does what is earliest on its agenda, and what it puts on its agenda instead is
no earlier.  So while it follows its schedule nothing on its agenda is overdue, and it does
everything at the very millisecond at which it is due.

## Main definitions

* `Run.First` — the first of the earliest entries of a list.
* `Run.Punctual` — nothing on the agenda is overdue.

## Main results

* `nextTask_mem`, `nextTask_le` — the next task is on the agenda, and nothing is earlier.
* `first_nextTask`, `First.unique` — it is the first of the earliest entries, of which there is one.
* `intervalEnd_of_millis` — intervals of whole milliseconds end at whole multiples.
* `Punctual.user`, `Punctual.next` — a run that is not overdue does not become so.
-/

namespace StagedLoad.Run

variable {σ : Type} {r : Run σ} {t : Nat}

/-! ### Intervals -/

theorem intervalEnd_mono (interval : Duration) {m n : Nat} (h : m ≤ n) :
    intervalEnd m interval ≤ intervalEnd n interval := by
  unfold intervalEnd
  have := Nat.mul_le_mul_right interval.nanos h
  exact Nat.div_le_div_right (by omega)

/-- Intervals of whole milliseconds end at their multiples. -/
theorem intervalEnd_of_millis {interval : Duration} {p : Nat}
    (h : interval.nanos = p * Duration.nanosPerMilli) (n : Nat) :
    intervalEnd n interval = n * p := by
  unfold intervalEnd
  rw [h, ← Nat.mul_assoc, Nat.mul_comm (n * p), Nat.mul_add_div (by decide)]
  rw [Nat.div_eq_of_lt (by decide), Nat.add_zero]

/-- Each interval that is not zero takes at least one nanosecond. -/
theorem le_intervalEnd {interval : Duration} (h : interval.isZero = false) (n : Nat) :
    n ≤ intervalEnd n interval * Duration.nanosPerMilli := by
  have hpos : 0 < interval.nanos := by
    simpa [Duration.isZero, Nat.pos_iff_ne_zero] using h
  have hle : n ≤ n * interval.nanos := Nat.le_mul_of_pos_right n hpos
  have hdiv := Nat.div_add_mod (n * interval.nanos + (Duration.nanosPerMilli - 1))
    Duration.nanosPerMilli
  have hmod := Nat.mod_lt (n * interval.nanos + (Duration.nanosPerMilli - 1))
    (show 0 < Duration.nanosPerMilli by decide)
  rw [intervalEnd, Nat.mul_comm]
  omega

/-- The end of an interval that is not zero is not the start. -/
theorem intervalEnd_pos {interval : Duration} (h : interval.isZero = false) (n : Nat) :
    0 < intervalEnd (n + 1) interval := by
  have := le_intervalEnd h (n + 1)
  exact Nat.pos_of_ne_zero fun hzero => by rw [hzero] at this; omega

/-! ### The next task -/

theorem earliest_spec (first : Nat × Task) (rest : List (Nat × Task)) :
    earliest first rest ∈ first :: rest ∧ ∀ e ∈ first :: rest, (earliest first rest).1 ≤ e.1 := by
  unfold earliest
  induction rest generalizing first with
  | nil => simp
  | cons e rest ih =>
    -- `best` is what the fold goes on with: the earlier of the first two entries
    obtain ⟨best, hbest, hmember, hfirst, he⟩ : ∃ best : Nat × Task,
        (if e.1 < first.1 then e else first) = best ∧ (best = e ∨ best = first) ∧
        best.1 ≤ first.1 ∧ best.1 ≤ e.1 := by
      refine ⟨_, rfl, ?_⟩
      split
      · exact ⟨.inl rfl, by omega, by omega⟩
      · exact ⟨.inr rfl, by omega, by omega⟩
    obtain ⟨hmem, hle⟩ := ih best
    rw [List.foldl_cons, hbest]
    refine ⟨?_, ?_⟩
    · rcases List.mem_cons.1 hmem with heq | hrest
      · rw [heq]
        rcases hmember with rfl | rfl <;> simp
      · exact List.mem_cons_of_mem _ (List.mem_cons_of_mem _ hrest)
    · intro e' he'
      have hhead := hle best List.mem_cons_self
      rcases List.mem_cons.1 he' with rfl | he'
      · exact Nat.le_trans hhead hfirst
      · rcases List.mem_cons.1 he' with rfl | he'
        · exact Nat.le_trans hhead he
        · exact hle e' (List.mem_cons_of_mem _ he')

theorem agenda_ne_nil (r : Run σ) : r.agenda ≠ [] := by simp [agenda]

/-- The next task is on the agenda. -/
theorem nextTask_mem (r : Run σ) : r.nextTask ∈ r.agenda := by
  unfold nextTask
  split
  case h_1 h => exact absurd h r.agenda_ne_nil
  case h_2 first rest h => rw [h]; exact (earliest_spec first rest).1

/-- Nothing on the agenda is earlier than the next task. -/
theorem nextTask_le {e : Nat × Task} (h : e ∈ r.agenda) : r.nextTask.1 ≤ e.1 := by
  unfold nextTask
  split
  case h_1 hnil => exact absurd hnil r.agenda_ne_nil
  case h_2 first rest hagenda => rw [hagenda] at h; exact (earliest_spec first rest).2 e h

/-- What is on the agenda. -/
theorem mem_agenda {e : Nat × Task} : e ∈ r.agenda ↔
    e = (intervalEnd r.polls r.plan.pollInterval, .poll) ∨
    (r.reporting = true ∧ e = (intervalEnd (r.ticks + 1) r.plan.progressInterval, .tell)) ∨
    (∃ i, r.plan.evaluationInterval = some i ∧ e = (intervalEnd (r.evaluations + 1) i, .judge)) ∨
    ∃ t ∈ r.aborts, e = (t, .obey) := by
  unfold agenda
  cases r.plan.evaluationInterval with
  | none => cases r.reporting <;> simp [eq_comm]
  | some i => cases r.reporting <;> simp [eq_comm]

/-- The time of a task on the agenda. -/
theorem time_of_nextTask (r : Run σ) : match r.nextTask.2 with
    | .poll => r.nextTask.1 = intervalEnd r.polls r.plan.pollInterval
    | .tell => r.nextTask.1 = intervalEnd (r.ticks + 1) r.plan.progressInterval
    | .judge => ∃ i, r.plan.evaluationInterval = some i ∧
        r.nextTask.1 = intervalEnd (r.evaluations + 1) i
    | .obey => r.nextTask.1 ∈ r.aborts := by
  rcases mem_agenda.1 r.nextTask_mem with h | ⟨-, h⟩ | ⟨i, hi, h⟩ | ⟨t, ht, h⟩
  · rw [h]
  · rw [h]
  · rw [h]; exact ⟨i, hi, rfl⟩
  · rw [h]; exact ht

/-! ### The first of the earliest entries -/

/-- An entry of a list that is earlier than those before it and no later than those behind it. -/
def First (e : Nat × Task) (l : List (Nat × Task)) : Prop :=
  ∃ before after, l = before ++ e :: after ∧ (∀ x ∈ before, e.1 < x.1) ∧ ∀ x ∈ after, e.1 ≤ x.1

theorem first_earliest (first : Nat × Task) (rest : List (Nat × Task)) :
    First (earliest first rest) (first :: rest) := by
  induction rest generalizing first with
  | nil => exact ⟨[], [], rfl, by simp, by simp⟩
  | cons e rest ih =>
    by_cases hlt : e.1 < first.1
    · have hearliest : earliest first (e :: rest) = earliest e rest := by
        simp only [earliest, List.foldl_cons, if_pos hlt]
      obtain ⟨before, after, hl, hbefore, hafter⟩ := ih e
      have hle := (earliest_spec e rest).2 e List.mem_cons_self
      rw [hearliest]
      refine ⟨first :: before, after, by rw [hl, List.cons_append], ?_, hafter⟩
      intro x hx
      rcases List.mem_cons.1 hx with rfl | hx
      · exact Nat.lt_of_le_of_lt hle hlt
      · exact hbefore x hx
    · have hearliest : earliest first (e :: rest) = earliest first rest := by
        simp only [earliest, List.foldl_cons, if_neg hlt]
      obtain ⟨before, after, hl, hbefore, hafter⟩ := ih first
      rw [hearliest]
      cases before with
      | nil =>
        obtain ⟨hhead, rfl⟩ := List.cons.inj hl
        refine ⟨[], e :: rest, by rw [← hhead]; rfl, by simp, ?_⟩
        intro x hx
        rcases List.mem_cons.1 hx with rfl | hx
        · rw [← hhead]
          exact Nat.le_of_not_lt hlt
        · exact hafter x hx
      | cons b before =>
        obtain ⟨rfl, hrest⟩ := List.cons.inj hl
        have hfirst := hbefore first List.mem_cons_self
        refine ⟨first :: e :: before, after, congrArg (fun l => first :: e :: l) hrest, ?_, hafter⟩
        intro x hx
        rcases List.mem_cons.1 hx with rfl | hx
        · exact hfirst
        · rcases List.mem_cons.1 hx with rfl | hx
          · exact Nat.lt_of_lt_of_le hfirst (Nat.le_of_not_lt hlt)
          · exact hbefore x (List.mem_cons_of_mem _ hx)

theorem First.filter {e : Nat × Task} {l : List (Nat × Task)} (h : First e l)
    {f : Nat × Task → Bool} (he : f e = true) : First e (l.filter f) := by
  obtain ⟨before, after, rfl, hbefore, hafter⟩ := h
  refine ⟨before.filter f, after.filter f, ?_, ?_, ?_⟩
  · rw [List.filter_append, List.filter_cons_of_pos he]
  · intro x hx
    exact hbefore x (List.mem_filter.1 hx).1
  · intro x hx
    exact hafter x (List.mem_filter.1 hx).1

theorem First.unique {e e' : Nat × Task} {l : List (Nat × Task)} (h : First e l)
    (h' : First e' l) : e = e' := by
  obtain ⟨before, after, hl, hbefore, hafter⟩ := h
  obtain ⟨before', after', hl', hbefore', hafter'⟩ := h'
  rw [hl] at hl'
  -- if one of them stood behind the other one, it would be earlier and no earlier
  rcases List.append_eq_append_iff.1 hl' with ⟨between, hb, ha⟩ | ⟨between, hb, ha⟩
  · cases between with
    | nil => exact (List.cons.inj ha).1
    | cons x between =>
      obtain ⟨rfl, rfl⟩ := List.cons.inj ha
      have hlt := hbefore' e (by simp [hb])
      have hle := hafter e' (by simp)
      omega
  · cases between with
    | nil => exact (List.cons.inj ha).1.symm
    | cons x between =>
      obtain ⟨rfl, rfl⟩ := List.cons.inj ha
      have hlt := hbefore e' (by simp [hb])
      have hle := hafter' e (by simp)
      omega

theorem first_nextTask (r : Run σ) : First r.nextTask r.agenda := by
  unfold nextTask
  split
  case h_1 h => exact absurd h r.agenda_ne_nil
  case h_2 first rest h => rw [h]; exact first_earliest first rest

/-! ### Nothing is overdue -/

/-- Nothing on the agenda of a run is overdue. -/
def Punctual (r : Run σ) : Prop := ∀ e ∈ r.agenda, r.pool.now ≤ e.1

theorem Punctual.now_le_nextTask (h : r.Punctual) : r.pool.now ≤ r.nextTask.1 :=
  h _ r.nextTask_mem

/-- The run as it is when its next task is due. -/
def whenDue (r : Run σ) : Run σ :=
  { r with pool := { r.pool with now := max r.pool.now r.nextTask.1 } }

@[simp] theorem polls_whenDue (r : Run σ) : r.whenDue.polls = r.polls := rfl
@[simp] theorem ticks_whenDue (r : Run σ) : r.whenDue.ticks = r.ticks := rfl
@[simp] theorem evaluations_whenDue (r : Run σ) : r.whenDue.evaluations = r.evaluations := rfl

theorem performAt_nextTask (r : Run σ) :
    r.performAt r.nextTask.1 r.nextTask.2 = r.whenDue.perform r.nextTask.2 := rfl

/-- The next task is done at the millisecond at which it is due. -/
theorem Punctual.now_whenDue (h : r.Punctual) : r.whenDue.pool.now = r.nextTask.1 :=
  Nat.max_eq_right h.now_le_nextTask

/-- A run stays punctual when a user acts before the next task. -/
theorem Punctual.user {u : VirtualUser} (h : r.Punctual) (hbefore : t < r.nextTask.1) :
    Punctual { r with pool := r.pool.actAt t u } := by
  intro e he
  have hnext := nextTask_le (r := r) he
  have hnow := h e he
  rw [Pool.actAt, Pool.now_act]
  exact Nat.max_le.2 ⟨hnow, by omega⟩

/-- A run stays punctual when it does its next task and goes on with the number of its polls,
ticks or evaluations increased. -/
theorem Punctual.next {r' : Run σ} (hnow : r'.pool.now = r.nextTask.1)
    (hplan : r'.plan = r.plan) (haborts : r'.aborts = r.aborts)
    (hreporting : r'.reporting = r.reporting) (hpolls : r.polls ≤ r'.polls)
    (hticks : r.ticks ≤ r'.ticks) (hevaluations : r.evaluations ≤ r'.evaluations) :
    r'.Punctual := by
  intro e he
  rw [hnow]
  -- every entry comes from one of the agenda before that was no later
  have hle : ∀ {e : Nat × Task}, e ∈ r.agenda → r.nextTask.1 ≤ e.1 := nextTask_le
  rw [mem_agenda, hplan, haborts, hreporting] at he
  simp only [mem_agenda] at hle
  rcases he with rfl | ⟨hrep, rfl⟩ | ⟨i, hi, rfl⟩ | ⟨t, ht, rfl⟩
  · exact Nat.le_trans (hle (.inl rfl)) (intervalEnd_mono _ hpolls)
  · exact Nat.le_trans (hle (.inr (.inl ⟨hrep, rfl⟩))) (intervalEnd_mono _ (by omega))
  · exact Nat.le_trans (hle (.inr (.inr (.inl ⟨i, hi, rfl⟩)))) (intervalEnd_mono _ (by omega))
  · exact hle (.inr (.inr (.inr ⟨t, ht, rfl⟩)))

end StagedLoad.Run
