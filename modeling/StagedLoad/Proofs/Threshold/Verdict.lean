import StagedLoad.Proofs.Threshold.Agreement

/-!
# The table of the rules explains the verdict

The verdict is made from the list of the rules, and what is shown of them is a table, in which
the last of several rules with one id takes the place of the others.  Nothing is lost by that:
rules with one id look at the same statistic of the same metric and compare it with the same
limit, so that they stand as one.

## Main definitions

* `Threshold.Status.Counts` — how a rule stands that counts as failed.
* `Threshold.Judgement.Explains` — what is shown is how a rule stands.

## Main results

* `Threshold.explains_of_mem_compile` — what is shown under the id of a rule is how it stands.
* `Threshold.fails_iff_some_entry_counts` — **the verdict can be read off the table**.
-/

namespace StagedLoad.Threshold

/-- Rules that stand so count as failed, undetermined ones only if that is wanted. -/
def Status.Counts (strict : Bool) (s : Status) : Prop :=
  s = .fail ∨ strict = true ∧ s = .undetermined

/-- What is shown of a rule is how that very rule stands. -/
structure Judgement.Explains (j : Judgement) (r : Rule) (stats : Table String Statistics) :
    Prop where
  /-- The metric is that of the rule. -/
  metric : j.metric = r.metric
  /-- So is the text. -/
  expression : j.expression = r.expression
  /-- The statistic is the one that the rule looks at. -/
  observed : j.observed = r.observed stats
  /-- Without it the rule is undetermined. -/
  undetermined : j.status = .undetermined ↔ r.observed stats = none
  /-- It fails where the comparison does not hold. -/
  fail : j.status = .fail ↔
    ∃ x, r.observed stats = some x ∧ r.expr.comparison.holds x r.expr.limit = false

theorem Expr.status_eq_fail_iff {e : Expr} {o : Option Float} :
    e.status o = .fail ↔ ∃ x, o = some x ∧ e.comparison.holds x e.limit = false := by
  cases o with
  | none => simp [status]
  | some x => simp [status]

section

variable {declared : DeclaredMetrics} {sets : List DeclarationSet} {rules : List Rule}
  {r : Rule} (stats : Table String Statistics) (strict : Bool)

/-- The verdict is made from the list of the rules. -/
theorem evaluate_verdict_eq_fail_iff :
    (evaluate rules stats strict).verdict = .fail ↔
      ∃ r ∈ rules, (r.judge stats).status.Counts strict := by
  simp only [evaluate, Status.Counts]
  split
  case isTrue hany => simpa using hany
  case isFalse hany => simpa using hany

/-- **What is shown under the id of a rule is how it stands**, although it may have been written
down for another rule. -/
theorem explains_of_mem_compile (h : compile declared sets = .ok rules) (hr : r ∈ rules) :
    ∃ j, (evaluate rules stats strict).perRule.get? r.id = some j ∧ j.Explains r stats ∧
      j.status = (r.judge stats).status := by
  obtain ⟨r', hr', hid, hentry⟩ := exists_perRule_eq hr stats strict
  obtain ⟨hmetric, -, hexpression, hexpr⟩ :=
    (accepted_of_mem_compile h hr').eq_of_id_eq (accepted_of_mem_compile h hr) hid
  have hobserved : r'.observed stats = r.observed stats := by
    simp only [Rule.observed, hmetric, hexpr]
  have hstatus : (r'.judge stats).status = r.expr.status (r.observed stats) := by
    rw [Rule.judge, hobserved, hexpr]
  refine ⟨r'.judge stats, hentry, ⟨hmetric, hexpression, hobserved, ?_, ?_⟩, hstatus⟩
  · rw [hstatus]
    exact Expr.status_eq_undetermined_iff
  · rw [hstatus]
    exact Expr.status_eq_fail_iff

/-- **The verdict can be read off the table.**  Whatever was declared and however often, the
verdict is that the run has failed exactly if something in the table counts as failed.  Every
rule is in the table under its id, and what stands there is how that very rule stands; nothing
else is in the table.  This is so because the id of a rule determines its metric and its text,
although the name of a metric may hold what stands between them. -/
theorem fails_iff_some_entry_counts (h : compile declared sets = .ok rules) :
    ((evaluate rules stats strict).verdict = .fail ↔
      ∃ j ∈ (evaluate rules stats strict).perRule.values, j.status.Counts strict) ∧
    (∀ r ∈ rules, ∃ j, (evaluate rules stats strict).perRule.get? r.id = some j ∧
      j.Explains r stats) ∧
    (∀ j ∈ (evaluate rules stats strict).perRule.values, ∃ r ∈ rules, j.Explains r stats) ∧
    ∀ r ∈ rules, ∀ r' ∈ rules, r.id = r'.id →
      r.metric = r'.metric ∧ r.expression = r'.expression := by
  refine ⟨?_, ?_, ?_, ?_⟩
  · rw [evaluate_verdict_eq_fail_iff]
    constructor
    · rintro ⟨r, hr, hcounts⟩
      obtain ⟨j, hget, -, hstatus⟩ := explains_of_mem_compile stats strict h hr
      exact ⟨j, Table.mem_values_iff.mpr ⟨r.id, hget⟩, hstatus ▸ hcounts⟩
    · rintro ⟨j, hj, hcounts⟩
      obtain ⟨id, hget⟩ := Table.mem_values_iff.mp hj
      obtain ⟨r, hr, -, rfl⟩ := exists_judge_eq_of_get? hget
      exact ⟨r, hr, hcounts⟩
  · intro r hr
    obtain ⟨j, hget, hj, -⟩ := explains_of_mem_compile stats strict h hr
    exact ⟨j, hget, hj⟩
  · intro j hj
    obtain ⟨id, hget⟩ := Table.mem_values_iff.mp hj
    obtain ⟨r, hr, -, rfl⟩ := exists_judge_eq_of_get? hget
    exact ⟨r, hr, rfl, rfl, rfl, Expr.status_eq_undetermined_iff, Expr.status_eq_fail_iff⟩
  · intro r hr r' hr' hid
    exact (accepted_of_mem_compile h hr).metric_expression_eq_of_id_eq
      (accepted_of_mem_compile h hr') hid

end

/-- A rule that is declared twice, once with blanks around it and so that it stops the run, and
others on metrics whose names end where the name of the first one has a colon. -/
def queueSets : List DeclarationSet :=
  [⟨"queue: depth", [⟨" p(95) < 5 ", true⟩, ⟨"p(95) < 5", false⟩, ⟨"p(95)<5", false⟩]⟩,
    ⟨"queue", [⟨"max < 9", false⟩]⟩]

/-- One of the two metrics has been observed. -/
def queueStatistics : Table String Statistics :=
  Table.ofList [("queue: depth", .trend {
    count := 2
    avg := some 5
    min := some 3
    max := some 7
    med := some 5
    percentiles := Table.ofList [(⟨95 * 100, by decide, by decide⟩, 6.8)] })]

/-- Of the two rules with one id the first one has failed, and the entry of the second one says
so.  That the first one stops the run is not to be seen there. -/
theorem queue_verdict_is_explained :
    ∃ rules r j, compile { trends := ["queue", "queue: depth"] } queueSets = .ok rules ∧
      rules.map Rule.id = ["queue: depth: p(95) < 5", "queue: depth: p(95) < 5",
        "queue: depth: p(95)<5", "queue: max < 9"] ∧
      (evaluate rules queueStatistics false).verdict = .fail ∧
      (∃ j ∈ (evaluate rules queueStatistics false).perRule.values, j.status.Counts false) ∧
      rules.head? = some r ∧ r.abortOnFail = true ∧
      (evaluate rules queueStatistics false).perRule.get? "queue: depth: p(95) < 5" = some j ∧
      j.Explains r queueStatistics ∧ j.status = .fail ∧ j.abortOnFail = false := by
  obtain ⟨rules, r, j, hrules, hids, hverdict, hhead, hid, habort, hentry, hfail, hlost⟩ :
      ∃ rules r j, compile { trends := ["queue", "queue: depth"] } queueSets = .ok rules ∧
        rules.map Rule.id = ["queue: depth: p(95) < 5", "queue: depth: p(95) < 5",
          "queue: depth: p(95)<5", "queue: max < 9"] ∧
        (evaluate rules queueStatistics false).verdict = .fail ∧
        rules.head? = some r ∧ r.id = "queue: depth: p(95) < 5" ∧ r.abortOnFail = true ∧
        (evaluate rules queueStatistics false).perRule.get? "queue: depth: p(95) < 5" = some j ∧
        j.status = .fail ∧ j.abortOnFail = false :=
    ⟨_, _, _, rfl, by decide +kernel, by decide +kernel, rfl, by decide +kernel, rfl, rfl,
      by decide +kernel, rfl⟩
  obtain ⟨hiff, hexplained, -, -⟩ :=
    fails_iff_some_entry_counts queueStatistics false hrules
  obtain ⟨j', hget, hj⟩ := hexplained r (List.mem_of_head? hhead)
  have hsame : j' = j := by
    rw [hid, hentry] at hget
    exact (Option.some.inj hget).symm
  exact ⟨rules, r, j, hrules, hids, hverdict, hiff.mp hverdict, hhead, habort, hentry,
    hsame ▸ hj, hfail, hlost⟩

end StagedLoad.Threshold
