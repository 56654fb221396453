import StagedLoad.Report.Short
import StagedLoad.Run.Report

/-!
# Reports for people

What a run prints for people: a header with the plan, and in the end a summary of metrics,
errors and thresholds, with the verdict as the last line.

## Main definitions

* `RunPlan.header` — the header.
* `RunReport.text` — the summary.
-/

namespace StagedLoad

/-- A line of a rule in the header. -/
def Threshold.Rule.headerLine (r : Threshold.Rule) : String :=
  "threshold: " ++ r.id ++ (if r.abortOnFail then " (abort on fail)" else "") ++ "\n"

/-- The header of a run whose profile is found at a path. -/
def RunPlan.header (plan : RunPlan) (path : String) : String :=
  "profile: " ++ path ++ "\n" ++
  "stages: " ++ toString plan.schedule.stages.length ++
    " duration=" ++ Short.duration plan.schedule.total ++
    " start_vus=" ++ toString plan.schedule.start.toNat ++
    " peak_vus=" ++ toString plan.schedule.peak.toNat ++ "\n" ++
  String.join (plan.rules.map Threshold.Rule.headerLine) ++ "\n"

/-- One percentile of a trend. -/
def Percentile.text (p : Percentile) (x : Float) : String :=
  " " ++ p.render ++ "=" ++ Short.millis x

/-- The statistics of a series. -/
def Statistics.text : Statistics → String
  | trend t =>
    "avg=" ++ Short.millis? t.avg ++ " min=" ++ Short.millis? t.min ++
      " med=" ++ Short.millis? t.med ++ " max=" ++ Short.millis? t.max ++
      String.join (t.percentiles.entries.map fun (p, x) => p.text x) ++
      " (n=" ++ toString t.count ++ ")"
  | rate r => Short.percent r.share ++ " (" ++ toString r.passes ++ "/" ++ toString r.total ++ ")"
  | counter c =>
    toString c.count ++ c.perSecond.elim "" fun x => " (" ++ Short.rate x ++ "/s)"

/-- A text with blanks behind it up to a number of characters. -/
def padded (width : Nat) (s : String) : String :=
  s ++ String.ofList (List.replicate (width - s.length) ' ')

/-- The mark of a status. -/
def Threshold.Status.mark : Threshold.Status → String
  | pass => "ok  "
  | fail => "FAIL"
  | undetermined => "??  "

/-- The line of a rule. -/
def Threshold.Judgement.text (id : String) (j : Threshold.Judgement) : String :=
  let observed := j.observed.elim "no data" fun x => "observed " ++ Binary64.fixed x 4
  "  " ++ j.status.mark ++ " " ++ id ++ " (" ++ observed ++ ")\n"

/-- The word for a verdict. -/
def Threshold.Verdict.word : Threshold.Verdict → String
  | pass => "PASS"
  | fail => "FAIL"

/-- Errors in the order in which they are listed: the most frequent first, then by text. -/
def byFrequency (errors : List (String × Nat)) : List (String × Nat) :=
  errors.mergeSort fun a b => b.2 < a.2 || (a.2 == b.2 && decide (a.1 ≤ b.1))

namespace RunReport

/-- The line with the duration. -/
def durationLine (r : RunReport) : String :=
  "  duration: " ++ Short.duration r.duration ++ " (stop: " ++ r.stopReason.name ++
    ") peak_vus: " ++ toString r.peak ++ "\n"

/-- The lines of the metrics, aligned behind the longest name. -/
def metricLines (r : RunReport) : String :=
  let width := (r.perMetric.keys.map String.utf8ByteSize).foldl max 0
  String.join (r.perMetric.entries.map fun (name, s) =>
    "  " ++ padded width name ++ "  " ++ s.text ++ "\n")

/-- The lines of the errors, if there are any. -/
def errorLines (r : RunReport) : String :=
  match r.errors.entries with
  | [] => ""
  | errors => "\nerrors\n" ++ String.join ((byFrequency errors).map fun (message, n) =>
      "  " ++ message ++ ": " ++ toString n ++ "\n")

/-- The lines of the rules, if there are any. -/
def thresholdLines (r : RunReport) : String :=
  match r.evaluation.perRule.entries with
  | [] => ""
  | rules => "\nthresholds\n" ++ String.join (rules.map fun (id, j) => j.text id)

/-- The summary. -/
def text (r : RunReport) : String :=
  "summary\n" ++ r.durationLine ++ "\nmetrics\n" ++ r.metricLines ++ r.errorLines ++
    r.thresholdLines ++ "\nverdict: " ++ r.evaluation.verdict.word ++ "\n"

end RunReport

end StagedLoad
