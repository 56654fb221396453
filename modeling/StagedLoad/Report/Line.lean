import StagedLoad.Json.Writer
import StagedLoad.Run.Report

/-!
# Reports for programs

What a run prints for programs: one line of JSON for each update, and one for the summary.

## Main definitions

* `ProgressUpdate.json`, `RunReport.json` — the values.
* `jsonLine` — a value as a line.
-/

namespace StagedLoad

/-- A number or the absent value. -/
def optionalNumber (x : Option Float) : Json Json.Number :=
  x.elim .null fun x => .number (.double x)

/-- A natural as a value. -/
def countJson (n : Nat) : Json Json.Number := .number (Json.Number.ofNat n)

/-- A double as a value. -/
def doubleJson (x : Float) : Json Json.Number := .number (.double x)

/-- An update. -/
def ProgressUpdate.json (u : ProgressUpdate) : Json Json.Number :=
  .object [
    ("kind", .string "progress"),
    ("tick", countJson u.tick),
    ("phase", .string u.phase.name),
    ("elapsed_secs", doubleJson u.elapsed.toSeconds),
    ("total_secs", doubleJson u.total.toSeconds),
    ("stage", countJson (u.stage.index + 1)),
    ("stages", countJson u.stage.count),
    ("target_vus", countJson u.stage.current.toNat),
    ("live_vus", countJson u.live),
    ("iterations_total", countJson u.iterations),
    ("failed_total", countJson u.failed),
    ("iterations_per_sec", doubleJson (if Binary64.isFinite u.perSecond then u.perSecond else 0))]

/-- How a rule was judged. -/
def Threshold.Judgement.json (j : Threshold.Judgement) : Json Json.Number :=
  .object [
    ("metric", .string j.metric),
    ("expression", .string j.expression),
    ("status", .string j.status.name),
    ("observed", optionalNumber j.observed)]

/-- The percentiles of a trend by name. -/
def percentilesJson (t : Table Percentile Float) : Json Json.Number :=
  .object (Table.ofList (t.entries.map fun (p, x) => (p.render, doubleJson x))).entries

/-- The statistics of a series. -/
def Statistics.json : Statistics → Json Json.Number
  | trend t => .object [
      ("type", .string "trend"),
      ("count", countJson t.count),
      ("avg", optionalNumber t.avg),
      ("min", optionalNumber t.min),
      ("max", optionalNumber t.max),
      ("med", optionalNumber t.med),
      ("percentiles", percentilesJson t.percentiles)]
  | rate r => .object [
      ("type", .string "rate"),
      ("total", countJson r.total),
      ("passes", countJson r.passes),
      ("rate", optionalNumber r.share)]
  | counter c => .object [
      ("type", .string "counter"),
      ("count", countJson c.count),
      ("per_second", optionalNumber c.perSecond)]

/-- A table as an object. -/
def tableJson {α : Type} (f : α → Json Json.Number) (t : Table String α) : Json Json.Number :=
  .object (t.entries.map fun (k, v) => (k, f v))

/-- A summary. -/
def RunReport.json (r : RunReport) : Json Json.Number :=
  .object [
    ("kind", .string "summary"),
    ("verdict", .string r.evaluation.verdict.name),
    ("stop_reason", .string r.stopReason.name),
    ("duration_secs", doubleJson r.duration.toSeconds),
    ("iterations", countJson r.iterations),
    ("peak_vus", countJson r.peak),
    ("thresholds", tableJson Threshold.Judgement.json r.evaluation.perRule),
    ("metrics", tableJson Statistics.json r.perMetric),
    ("errors", tableJson countJson r.errors)]

/-- A value as a line. -/
def jsonLine (v : Json Json.Number) : String := v.render ++ "\n"

end StagedLoad
