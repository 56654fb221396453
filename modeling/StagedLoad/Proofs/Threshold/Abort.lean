import Mathlib.Data.List.Induction
import StagedLoad.Proofs.Threshold.Verdict

/-!
# Rules that stop a run

Whether a run has to stop is read off the table of the rules, and there the last of several
rules with one id takes the place of the others.  They stand as one, but the failure of one of
them may stop a run and that of another one not.  So it is the last one that counts: an
expression that is declared so that it stops the run and then once more without that lets the
run go on.

## Main definitions

* `Threshold.Rule.Stops` — a rule that fails, and whose failure stops the run.
* `Threshold.Rule.LastIn` — the last rule of a list with its id.

## Main results

* `Threshold.shouldAbort_iff` — a run has to stop if a rule says so that is the last one with its
  id.
* `Threshold.stops_unless_declared_again` — **the last declaration of an expression counts**.
-/

namespace StagedLoad.Threshold

/-- A rule fails on some statistics, and its failure stops the run. -/
structure Rule.Stops (r : Rule) (stats : Table String Statistics) : Prop where
  /-- A failure stops the run. -/
  asks : r.abortOnFail = true
  /-- There is a statistic, and the comparison does not hold. -/
  fails : ∃ x, r.observed stats = some x ∧ r.expr.comparison.holds x r.expr.limit = false

/-- A rule of a list behind which there is none with the same id. -/
def Rule.LastIn (r : Rule) (rules : List Rule) : Prop :=
  ∃ before after, rules = before ++ r :: after ∧ ∀ r' ∈ after, r'.id ≠ r.id

section

variable {rules : List Rule} {r r' : Rule}

theorem Rule.LastIn.mem (h : r.LastIn rules) : r ∈ rules := by
  obtain ⟨before, after, rfl, -⟩ := h
  simp

/-- The last rule with its id stays the last one when a rule with another id follows. -/
theorem Rule.LastIn.concat (h : r.LastIn rules) (hne : r'.id ≠ r.id) :
    r.LastIn (rules ++ [r']) := by
  obtain ⟨before, after, rfl, hafter⟩ := h
  refine ⟨before, after ++ [r'], by simp, ?_⟩
  intro s hs
  rcases List.mem_append.mp hs with hs | hs
  · exact hafter s hs
  · obtain rfl := List.mem_singleton.mp hs
    exact hne

/-- From each rule of a list on there is a last one with its id. -/
theorem Rule.exists_lastIn (before : List Rule) (r : Rule) (after : List Rule) :
    ∃ r' ∈ r :: after, r'.id = r.id ∧ r'.LastIn (before ++ r :: after) := by
  -- the induction is from behind: what comes last is the last one, or has another id
  induction after using List.reverseRecOn with
  | nil => exact ⟨r, List.mem_singleton_self r, rfl, before, [], rfl, by simp⟩
  | append_singleton after next ih =>
    by_cases hid : next.id = r.id
    · exact ⟨next, by simp, hid, before ++ r :: after, [], by simp, by simp⟩
    · obtain ⟨r', hmem, hr', hlast⟩ := ih
      refine ⟨r', ?_, hr', ?_⟩
      · rw [← List.cons_append]
        exact List.mem_append_left _ hmem
      · have hne : next.id ≠ r'.id := by rw [hr']; exact hid
        have hconcat := hlast.concat hne
        simpa using hconcat

/-- What is in the table is how the last rules with their ids stand. -/
theorem mem_values_perRule {stats : Table String Statistics} {strict : Bool} {j : Judgement} :
    j ∈ (evaluate rules stats strict).perRule.values ↔
      ∃ r : Rule, r.LastIn rules ∧ r.judge stats = j := by
  rw [Table.mem_values_iff]
  simp only [evaluate, Table.get?_ofList_eq_some_iff]
  constructor
  · rintro ⟨id, before, after, hrules, hafter⟩
    obtain ⟨rules₁, rest, rfl, rfl, hrest⟩ := List.map_eq_append_iff.mp hrules
    obtain ⟨r, rules₂, rfl, hr, rfl⟩ := List.map_eq_cons_iff.mp hrest
    obtain ⟨rfl, rfl⟩ := Prod.mk.inj hr
    exact ⟨r, ⟨rules₁, rules₂, rfl, by simpa using hafter⟩, rfl⟩
  · rintro ⟨r, ⟨before, after, rfl, hafter⟩, rfl⟩
    exact ⟨r.id, before.map fun r => (r.id, r.judge stats),
      after.map fun r => (r.id, r.judge stats), by simp, by simpa using hafter⟩

variable (stats : Table String Statistics) (strict : Bool)

/-- A run has to stop if a rule says so that is the last one with its id. -/
theorem shouldAbort_iff :
    (evaluate rules stats strict).shouldAbort = true ↔
      ∃ r : Rule, r.LastIn rules ∧ r.Stops stats := by
  have hstops : ∀ r : Rule, r.Stops stats ↔
      ((r.judge stats).abortOnFail && (r.judge stats).status == .fail) = true := by
    intro r
    rw [Bool.and_eq_true, beq_iff_eq, Rule.judge, Expr.status_eq_fail_iff]
    exact ⟨fun h => ⟨h.asks, h.fails⟩, fun h => ⟨h.1, h.2⟩⟩
  simp only [Evaluation.shouldAbort, List.any_eq_true, mem_values_perRule, hstops]
  constructor
  · rintro ⟨j, ⟨r, hlast, rfl⟩, hj⟩
    exact ⟨r, hlast, hj⟩
  · rintro ⟨r, hlast, hj⟩
    exact ⟨_, ⟨r, hlast, rfl⟩, hj⟩

section

variable {declared : DeclaredMetrics} {sets : List DeclarationSet}

/-- Of two rules with one id either both fail or none does. -/
theorem Rule.Stops.of_id_eq (h : compile declared sets = .ok rules) (hr : r ∈ rules)
    (hr' : r' ∈ rules) (hid : r'.id = r.id) (hstops : r.Stops stats)
    (hasks : r'.abortOnFail = true) : r'.Stops stats := by
  obtain ⟨hmetric, -, -, hexpr⟩ :=
    (accepted_of_mem_compile h hr').eq_of_id_eq (accepted_of_mem_compile h hr) hid
  refine ⟨hasks, ?_⟩
  obtain ⟨x, hx, hfails⟩ := hstops.fails
  refine ⟨x, ?_, by rw [hexpr, hfails]⟩
  rw [← hx]
  simp only [Rule.observed, hmetric, hexpr]

/-- A rule that stops the run is heeded unless what follows it takes its place without stopping
the run. -/
theorem shouldAbort_of_stops {before after : List Rule}
    (h : compile declared sets = .ok (before ++ r :: after)) (hstops : r.Stops stats)
    (hagain : ∀ r' ∈ after, r'.metric = r.metric → r'.expression = r.expression →
      r'.abortOnFail = true) :
    (evaluate (before ++ r :: after) stats strict).shouldAbort = true := by
  obtain ⟨r', hmem, hid, hlast⟩ := Rule.exists_lastIn before r after
  have hr : r ∈ before ++ r :: after := by simp
  have haccepted := accepted_of_mem_compile h hlast.mem
  obtain ⟨hmetric, hexpression⟩ :=
    haccepted.metric_expression_eq_of_id_eq (accepted_of_mem_compile h hr) hid
  have hasks : r'.abortOnFail = true := by
    rcases List.mem_cons.mp hmem with rfl | hbehind
    · exact hstops.asks
    · exact hagain r' hbehind hmetric hexpression
  rw [shouldAbort_iff]
  exact ⟨r', hlast, hstops.of_id_eq stats h hr hlast.mem hid hasks⟩

/-- **The last declaration of an expression counts.**  Whatever was declared and however often, a
run has to stop exactly if a rule that is the last one with its id fails and stops the run.  So a
rule that stops the run is heeded unless the same expression is declared on the same metric
again, behind it, without stopping the run; and where declarations of one expression on one
metric agree on whether they stop the run, every one of them is heeded. -/
theorem stops_unless_declared_again (h : compile declared sets = .ok rules) :
    ((evaluate rules stats strict).shouldAbort = true ↔
      ∃ r : Rule, r.LastIn rules ∧ r.Stops stats) ∧
    (∀ before r after, rules = before ++ r :: after → r.Stops stats →
      (∀ r' ∈ after, r'.metric = r.metric → r'.expression = r.expression →
        r'.abortOnFail = true) →
      (evaluate rules stats strict).shouldAbort = true) ∧
    ((∀ r ∈ rules, ∀ r' ∈ rules, r.metric = r'.metric → r.expression = r'.expression →
        r.abortOnFail = r'.abortOnFail) →
      ((evaluate rules stats strict).shouldAbort = true ↔ ∃ r ∈ rules, r.Stops stats)) := by
  refine ⟨shouldAbort_iff stats strict, ?_, ?_⟩
  · rintro before r after rfl hstops hagain
    exact shouldAbort_of_stops stats strict h hstops hagain
  · intro hagree
    constructor
    · intro habort
      obtain ⟨r, hlast, hstops⟩ := (shouldAbort_iff stats strict).mp habort
      exact ⟨r, hlast.mem, hstops⟩
    · rintro ⟨r, hr, hstops⟩
      obtain ⟨before, after, rfl⟩ := List.append_of_mem hr
      refine shouldAbort_of_stops stats strict h hstops ?_
      intro r' hr' hmetric hexpression
      rw [hagree r' (by simp [hr']) r hr hmetric hexpression, hstops.asks]

end

end

/-- One expression on the failed requests, declared with and without stopping the run. -/
def twiceDeclared (first second : Bool) : List DeclarationSet :=
  [⟨"http_req_failed", [⟨"rate<0.01", first⟩, ⟨"rate<0.01", second⟩]⟩]

/-- One of ten requests failed. -/
def oneInTenFailed : Table String Statistics :=
  Table.ofList [("http_req_failed", .rate ⟨10, 1⟩)]

/-- If the second declaration stops the run, the run has to stop. -/
theorem second_declaration_stops : ∃ twin r : Rule,
    compile {} (twiceDeclared false true) = .ok [twin, r] ∧ twin.abortOnFail = false ∧
    r.Stops oneInTenFailed ∧ (evaluate [twin, r] oneInTenFailed false).shouldAbort = true := by
  obtain ⟨twin, r, hrules, htwin, hasks, x, hx, hfails⟩ : ∃ twin r : Rule,
      compile {} (twiceDeclared false true) = .ok [twin, r] ∧ twin.abortOnFail = false ∧
      r.abortOnFail = true ∧ ∃ x, r.observed oneInTenFailed = some x ∧
        r.expr.comparison.holds x r.expr.limit = false :=
    ⟨_, _, rfl, rfl, rfl, _, rfl, by decide +kernel⟩
  have hstops : r.Stops oneInTenFailed := ⟨hasks, x, hx, hfails⟩
  obtain ⟨-, hbehind, -⟩ := stops_unless_declared_again oneInTenFailed false hrules
  exact ⟨twin, r, hrules, htwin, hstops, hbehind [twin] r [] rfl hstops (by simp)⟩

/-- If only the first one does, the run goes on, although a rule that stops the run fails. -/
theorem first_declaration_is_lost : ∃ rules,
    compile {} (twiceDeclared true false) = .ok rules ∧ (∃ r ∈ rules, r.Stops oneInTenFailed) ∧
    (evaluate rules oneInTenFailed false).shouldAbort = false := by
  obtain ⟨r, twin, hrules, hasks, x, hx, hfails, hlost⟩ : ∃ r twin : Rule,
      compile {} (twiceDeclared true false) = .ok [r, twin] ∧ r.abortOnFail = true ∧
      ∃ x, r.observed oneInTenFailed = some x ∧
        r.expr.comparison.holds x r.expr.limit = false ∧
        (evaluate [r, twin] oneInTenFailed false).shouldAbort = false :=
    ⟨_, _, rfl, rfl, _, rfl, by decide +kernel, by decide +kernel⟩
  exact ⟨_, hrules, ⟨r, by simp, hasks, x, hx, hfails⟩, hlost⟩

end StagedLoad.Threshold
