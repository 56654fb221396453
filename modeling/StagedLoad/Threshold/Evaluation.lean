import StagedLoad.Metric.Statistics
import StagedLoad.Threshold.Rule

/-!
# Judging rules

Every rule is judged on the statistics of its metric.  A rule without anything to
judge is undetermined; whether that counts as a failure is for the configuration.

## Main definitions

* `Threshold.Status`, `Threshold.Verdict` — of a rule, and of all of them.
* `Threshold.observed` — the statistic that a rule looks at.
* `Threshold.evaluate` — the judgement.
* `Threshold.Evaluation.shouldAbort` — whether a run has to stop.
-/

namespace StagedLoad.Threshold

/-- How a rule stands. -/
inductive Status
  /-- It holds. -/
  | pass
  /-- It does not hold. -/
  | fail
  /-- There was nothing to judge. -/
  | undetermined
  deriving DecidableEq, Repr

/-- The name of a status. -/
def Status.name : Status → String
  | pass => "pass"
  | fail => "fail"
  | undetermined => "undetermined"

/-- How all rules stand together. -/
inductive Verdict
  /-- No rule counts as failed. -/
  | pass
  /-- Some rule counts as failed. -/
  | fail
  deriving DecidableEq, Repr, Inhabited

/-- The name of a verdict. -/
def Verdict.name : Verdict → String
  | pass => "pass"
  | fail => "fail"

/-- How one rule was judged. -/
structure Judgement where
  /-- The name of the metric. -/
  metric : String
  /-- The text of the expression. -/
  expression : String
  /-- How the rule stands. -/
  status : Status
  /-- The statistic that was compared. -/
  observed : Option Float
  /-- Whether a failure stops the run. -/
  abortOnFail : Bool
  deriving DecidableEq, Repr

/-- The statistic that a selector means; kinds that do not have it give none. -/
def observed : Statistics → Selector → Option Float
  | .trend t, .avg => t.avg
  | .trend t, .min => t.min
  | .trend t, .max => t.max
  | .trend t, .med => t.med
  | .trend t, .percentile p => t.percentiles.get? p
  | .trend t, .count => some (Binary64.ofNat t.count)
  | .rate r, .rate => r.share
  | .rate r, .count => some (Binary64.ofNat r.total)
  | .counter c, .count => some (Binary64.ofNat c.count)
  | .counter c, .rate => c.perSecond
  | _, _ => none

/-- How a rule stands whose statistic is given. -/
def Expr.status (e : Expr) : Option Float → Status
  | none => .undetermined
  | some x => if e.comparison.holds x e.limit then .pass else .fail

/-- What a rule observes. -/
def Rule.observed (r : Rule) (stats : Table String Statistics) : Option Float :=
  (stats.get? r.metric).bind fun s => Threshold.observed s r.expr.selector

/-- How a rule is judged. -/
def Rule.judge (r : Rule) (stats : Table String Statistics) : Judgement where
  metric := r.metric
  expression := r.expression
  status := r.expr.status (r.observed stats)
  observed := r.observed stats
  abortOnFail := r.abortOnFail

/-- How all rules were judged. -/
structure Evaluation where
  /-- The rules by id; of rules with the same id the last one is listed. -/
  perRule : Table String Judgement
  /-- How all rules stand together. -/
  verdict : Verdict

/-- Judges all rules. -/
def evaluate (rules : List Rule) (stats : Table String Statistics) (failOnUndetermined : Bool) :
    Evaluation :=
  let judged := rules.map fun r => (r.id, r.judge stats)
  let counts (s : Status) : Bool := s == .fail || (failOnUndetermined && s == .undetermined)
  { perRule := Table.ofList judged
    verdict := if judged.any fun e => counts e.2.status then .fail else .pass }

namespace Evaluation

/-- The ids of the rules that stand in a certain way. -/
def withStatus (e : Evaluation) (s : Status) : List String :=
  (e.perRule.entries.filter fun r => r.2.status == s).map Prod.fst

/-- Whether a rule has failed whose failure stops the run. -/
def shouldAbort (e : Evaluation) : Bool :=
  e.perRule.values.any fun j => j.abortOnFail && j.status == .fail

end Evaluation

end StagedLoad.Threshold
