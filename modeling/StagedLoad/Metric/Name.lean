/-!
# Names and kinds of metrics

A run measures series of observations.  Some series every run has; every check
that a workload names has one of its own, and a workload can declare further trends.

## Main definitions

* `Metric.Kind` — trends, rates and counters.
* `Metric.builtinKind?` — the kind of a series that needs no declaration.
* `Metric.checkSeries`, `Metric.requestTrend` — composed names.
* `DeclaredMetrics` — what a workload declares.
-/

namespace StagedLoad

namespace Metric

/-- What is kept of the observations of a series. -/
inductive Kind
  /-- A number of events. -/
  | counter
  /-- How many observations hold. -/
  | rate
  /-- Statistics of numeric observations. -/
  | trend
  deriving DecidableEq, Repr

/-- The name of a kind. -/
def Kind.name : Kind → String
  | counter => "counter"
  | rate => "rate"
  | trend => "trend"

/-- The kind with a name. -/
def Kind.named? (s : String) : Option Kind := [counter, rate, trend].find? fun k => k.name == s

/-- The time of every request, in milliseconds. -/
def requestDuration : String := "http_req_duration"

/-- Which requests failed. -/
def requestFailed : String := "http_req_failed"

/-- The time of every iteration, in milliseconds. -/
def iterationDuration : String := "iteration_duration"

/-- How many iterations there were. -/
def iterations : String := "iterations"

/-- Which checks passed. -/
def checks : String := "checks"

/-- What the name of a check's own series starts with. -/
def checkOpening : String := "checks\x7bcheck:"

/-- The name of a check's own series. -/
def checkSeries (check : String) : String := checkOpening ++ check ++ "\x7d"

/-- The name of a request's own trend. -/
def requestTrend (request : String) : String := requestDuration ++ "\x7bname:" ++ request ++ "\x7d"

/-- Takes an opening and a closing off a text, if it has both without overlap. -/
def between? (opening closing s : List Char) : Option (List Char) :=
  if opening.isPrefixOf s then
    let rest := s.drop opening.length
    if closing.isSuffixOf rest then some (rest.take (rest.length - closing.length)) else none
  else none

/-- The check whose series has the name. -/
def checkOfSeries? (series : String) : Option String :=
  (between? checkOpening.toList ['\x7d'] series.toList).map String.ofList

/-- The kind of a series that every run has, or of a check's own series. -/
def builtinKind? (name : String) : Option Kind :=
  if name = requestDuration ∨ name = iterationDuration then some .trend
  else if name = requestFailed ∨ name = checks then some .rate
  else if name = iterations then some .counter
  else if (checkOfSeries? name).isSome then some .rate
  else none

end Metric

/-- The series that a workload declares beside those every run has. -/
structure DeclaredMetrics where
  /-- The names of its checks. -/
  checks : List String := []
  /-- The names of its trends. -/
  trends : List String := []
  deriving DecidableEq, Repr, Inhabited

end StagedLoad
