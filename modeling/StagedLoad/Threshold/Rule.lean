import StagedLoad.Metric.Name
import StagedLoad.Threshold.Parser

/-!
# Threshold rules

A declaration attaches expressions to a metric.  It becomes rules once the metric is
known, the expression can be read, and statistic and unit fit the kind of the metric.

## Main definitions

* `Threshold.Declaration`, `Threshold.DeclarationSet` — what a configuration declares.
* `Threshold.Rule` — a declaration that can be judged.
* `Threshold.metricKind?` — which metrics are known.
* `Threshold.compile` — from declarations to rules.
-/

namespace StagedLoad.Threshold

/-- One expression, and whether a run stops when it fails. -/
structure Declaration where
  /-- The text of the expression. -/
  expression : String
  /-- Whether a failure stops the run. -/
  abortOnFail : Bool := false
  deriving DecidableEq, Repr, Inhabited

/-- The expressions on one metric. -/
structure DeclarationSet where
  /-- The name of the metric. -/
  metric : String
  /-- The expressions on it. -/
  declarations : List Declaration
  deriving DecidableEq, Repr, Inhabited

/-- A declaration that can be judged. -/
structure Rule where
  /-- The name of the metric. -/
  metric : String
  /-- The kind of the metric. -/
  kind : Metric.Kind
  /-- The text of the expression without blanks around it. -/
  expression : String
  /-- The expression. -/
  expr : Expr
  /-- Whether a failure stops the run. -/
  abortOnFail : Bool
  deriving DecidableEq, Repr

namespace Rule

/-- What a rule goes by in reports. -/
def id (r : Rule) : String := r.metric ++ ": " ++ r.expression

/-- The percentile that a rule looks at. -/
def percentile? (r : Rule) : Option Percentile :=
  match r.expr.selector with
  | .percentile p => some p
  | _ => none

/-- Why a declaration cannot be judged. -/
inductive Fault
  /-- The text is no expression. -/
  | syntaxFault (metric expression : String) (reason : SyntaxFault)
  /-- There is no such metric. -/
  | unknownMetric (metric : String)
  /-- The kind of the metric does not have the statistic. -/
  | selectorMismatch (metric : String) (selector : Selector) (kind : Metric.Kind)
  /-- The statistic is not counted in the unit. -/
  | unitMismatch (metric : String) (selector : Selector) (unit : Unit) (kind : Metric.Kind)
  deriving DecidableEq, Repr

/-- The wording of a fault. -/
def Fault.message : Fault → String
  | syntaxFault metric expression reason =>
    "invalid threshold `" ++ expression ++ "` on `" ++ metric ++ "`: " ++ reason.message
  | unknownMetric metric => "threshold references unknown metric `" ++ metric ++ "`"
  | selectorMismatch metric selector kind =>
    "`" ++ selector.name ++ "` cannot be applied to " ++ kind.name ++ " metric `" ++ metric ++ "`"
  | unitMismatch metric selector unit kind =>
    "unit `" ++ unit.symbol ++ "` cannot be applied to `" ++ selector.name ++ "` on " ++
      kind.name ++ " metric `" ++ metric ++ "`"

end Rule

/-- The kind of a metric: checks have to be declared, and trends that not every run has. -/
def metricKind? (declared : DeclaredMetrics) (metric : String) : Option Metric.Kind :=
  match Metric.checkOfSeries? metric with
  | some check => if declared.checks.contains check then some .rate else none
  | none =>
    match Metric.builtinKind? metric with
    | some kind => some kind
    | none => if declared.trends.contains metric then some .trend else none

/-- Whether a kind of metric has a statistic. -/
def Selector.allowedFor (s : Selector) (kind : Metric.Kind) : Bool :=
  match kind with
  | .trend => s != .rate
  | .rate | .counter => s == .rate || s == .count

/-- Whether a statistic is counted in a unit. -/
def Unit.allowedFor (u : Unit) (s : Selector) (kind : Metric.Kind) : Bool :=
  if u.isTime then kind == .trend && s != .count else kind == .rate && s == .rate

/-- The rule of one expression on a metric of a known kind. -/
def compileOne (metric : String) (kind : Metric.Kind) (d : Declaration) :
    Except Rule.Fault Rule := do
  let expr ← (Expr.parse d.expression).mapError (Rule.Fault.syntaxFault metric d.expression)
  if !expr.selector.allowedFor kind then
    throw (.selectorMismatch metric expr.selector kind)
  if let some unit := expr.unit then
    if !unit.allowedFor expr.selector kind then
      throw (.unitMismatch metric expr.selector unit kind)
  return { metric, kind, expression := Blank.trim d.expression, expr, abortOnFail := d.abortOnFail }

/-- The rules of the expressions on one metric. -/
def compileSet (declared : DeclaredMetrics) (s : DeclarationSet) :
    Except Rule.Fault (List Rule) :=
  match metricKind? declared s.metric with
  | none => .error (.unknownMetric s.metric)
  | some kind => s.declarations.mapM (compileOne s.metric kind)

/-- The rules of a configuration, in the order of the declarations. -/
def compile (declared : DeclaredMetrics) (sets : List DeclarationSet) :
    Except Rule.Fault (List Rule) :=
  (sets.mapM (compileSet declared)).map List.flatten

end StagedLoad.Threshold
