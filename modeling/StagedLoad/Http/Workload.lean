import StagedLoad.Http.Check
import StagedLoad.Http.Client
import StagedLoad.Http.Form
import StagedLoad.Workload

/-!
# Workloads of requests

A workload that sends a list of requests in every iteration, one after the other, whatever
becomes of them.  Each request has a trend of its own and may have checks.

## Main definitions

* `RequestSpec` — a request as it is configured.
* `PreparedRequest`, `prepare?` — a request that is ready to be sent.
* `HttpWorkload`, `HttpWorkload.build?` — the workloads.
* `HttpWorkload.iterate` — what happens in one iteration.
* `HttpWorkload.workload` — the workload that virtual users invoke.
-/

namespace StagedLoad

/-- What a request carries. -/
inductive RequestBody
  /-- Nothing. -/
  | empty
  /-- Some bytes. -/
  | raw (contentType : Option String) (data : Bytes)
  /-- A form. -/
  | form (f : Form)
  deriving DecidableEq, Repr, Inhabited

/-- A request as it is configured. -/
structure RequestSpec where
  /-- Its name. -/
  name : String
  /-- The method. -/
  method : String := "GET"
  /-- Where it goes, against the base of the workload. -/
  path : String
  /-- The headers. -/
  headers : List (String × String) := []
  /-- What it carries. -/
  body : RequestBody := .empty
  /-- What is expected of the response. -/
  checks : List ResponseCheck := []
  deriving Inhabited

/-- A request that is ready to be sent. -/
structure PreparedRequest where
  /-- The name of its trend. -/
  trend : String
  /-- The request. -/
  request : HttpRequest
  /-- What is expected of the response. -/
  checks : List ResponseCheck
  deriving Inhabited

/-- The name of the header that tells what a body holds. -/
def contentTypeHeader : String := "content-type"

/-- Adds a header that tells what the body holds, if there is none yet. -/
def withContentType (headers : List (String × String)) (type : Option String) :
    List (String × String) :=
  match type with
  | some t =>
    if Header.has headers contentTypeHeader then headers else headers ++ [(contentTypeHeader, t)]
  | none => headers

/-- What a body holds, if it says so. -/
def RequestBody.contentType? : RequestBody → Option String
  | empty => none
  | raw type _ => type
  | form _ => some Form.contentType

/-- The bytes of a body. -/
def RequestBody.bytes : RequestBody → Bytes
  | empty => []
  | raw _ data => data
  | form f => f.encode

/-- Makes a request ready: its URL is read against the base and its body is encoded. -/
def prepare? (base : Url) (timeout : Option Duration) (r : RequestSpec) :
    Except TransportFault PreparedRequest :=
  match base.join? r.path with
  | none => .error (.invalidUrl (base.render ++ r.path))
  | some url => .ok {
      trend := Metric.requestTrend r.name
      request := {
        method := r.method
        url := url.render
        headers := withContentType r.headers r.body.contentType?
        body := r.body.bytes
        timeout }
      checks := r.checks }

/-- A list of requests that are sent in every iteration. -/
structure HttpWorkload where
  /-- The requests. -/
  requests : List PreparedRequest
  deriving Inhabited

namespace HttpWorkload

/-- The workload of some requests against a base. -/
def build? (base : String) (requests : List RequestSpec) (timeout : Option Duration) :
    Except TransportFault HttpWorkload :=
  match Url.parse? base with
  | none => .error (.invalidUrl base)
  | some url =>
    if !url.isWeb then .error (.unsupportedScheme base)
    else (requests.mapM (prepare? url timeout)).map HttpWorkload.mk

/-- The checks and trends of all requests; names may repeat. -/
def declared (w : HttpWorkload) : DeclaredMetrics where
  checks := w.requests.flatMap fun r => r.checks.map ResponseCheck.name
  trends := w.requests.map PreparedRequest.trend

/-- Whether a request counts as failed. -/
def isFailure : Except TransportFault HttpResponse → Bool
  | .ok r => 400 ≤ r.status
  | .error _ => true

/-- What is observed once a request has been sent. -/
def observe (o : Outcome) (r : PreparedRequest)
    (answer : Except TransportFault HttpResponse × Duration) : Outcome :=
  let failed := isFailure answer.1
  { o with
    latency := o.latency + answer.2
    failed := o.failed || failed
    values := o.values ++ [(r.trend, answer.2.toMillis)]
    requests := o.requests ++ [⟨answer.2, failed⟩]
    checks := o.checks ++ r.checks.map fun c => (c.name, c.passes answer.1.toOption) }

variable {σ : Type}

/-- Sends requests one after the other. -/
def sendAll (network : Network σ) (o : Outcome) (state : σ) :
    List PreparedRequest → Outcome × σ
  | [] => (o, state)
  | r :: rest =>
    let (answer, state) := Client.send network r.request state
    sendAll network (observe o r answer) state rest

/-- One iteration. -/
def iterate (w : HttpWorkload) (network : Network σ) (state : σ) : Outcome × σ :=
  sendAll network {} state w.requests

/-- The workload that virtual users invoke: an iteration takes as long as its requests. -/
def workload (w : HttpWorkload) (network : Network σ) : Workload σ where
  declared := w.declared
  invoke _ state :=
    let (o, state) := w.iterate network state
    (⟨o.latency.startedMillis, .outcome o⟩, state)

end HttpWorkload

end StagedLoad
