import StagedLoad.Http.Client
import StagedLoad.Json.Path
import StagedLoad.Json.Writer
import StagedLoad.Target.Upload

/-!
# A server to test against

A small server that keeps count of what it is asked.  It tells that it is well, tells its
counts, takes uploads, answers slowly, and fails every so often.

## Main definitions

* `TargetCounters` — the counts.
* `TargetRequest`, `TargetResponse` — what it is asked and what it answers.
* `Target.route` — which handler a request reaches.
* `Target.handle` — what a handler answers and counts.
* `Target.serve` — one request.
-/

namespace StagedLoad

/-- The counts of the server. -/
structure TargetCounters where
  /-- How many requests reached a handler. -/
  requests : Nat := 0
  /-- How many uploads were taken. -/
  uploads : Nat := 0
  /-- How many bytes they had. -/
  uploadBytes : Nat := 0
  /-- How often the handler that fails every so often was reached. -/
  flakyCalls : Nat := 0
  deriving DecidableEq, Repr, Inhabited

/-- What the server is asked. -/
structure TargetRequest where
  /-- The method. -/
  method : String
  /-- The path, without the query. -/
  path : String
  /-- The query. -/
  query : String := ""
  /-- How the body is announced. -/
  contentType : Option String := none
  /-- The body. -/
  body : Bytes := []
  deriving DecidableEq, Repr, Inhabited

/-- What the server answers. -/
structure TargetResponse where
  /-- The status. -/
  status : Nat
  /-- How the body is announced. -/
  contentType : Option String := none
  /-- The body. -/
  body : Bytes := []
  /-- How many milliseconds the answer takes. -/
  delay : Nat := 0
  deriving DecidableEq, Repr, Inhabited

namespace Target

/-- The handlers. -/
inductive Handler
  /-- Tells that the server is well. -/
  | health
  /-- Tells the counts. -/
  | metrics
  /-- Takes an upload. -/
  | upload
  /-- Answers after a while. -/
  | slow
  /-- Fails every so often. -/
  | flaky
  deriving DecidableEq, Repr

/-- Where a handler is found. -/
def Handler.path : Handler → String
  | health => "/health"
  | metrics => "/metrics"
  | upload => "/upload"
  | slow => "/slow"
  | flaky => "/flaky"

/-- The methods that a handler is asked with. -/
def Handler.methods : Handler → List String
  | upload => ["POST"]
  | _ => ["GET", "HEAD"]

/-- All handlers. -/
def handlers : List Handler := [.health, .metrics, .upload, .slow, .flaky]

/-- Which handler a request reaches, or the status of the answer if there is none. -/
def route (r : TargetRequest) : Except Nat Handler :=
  match handlers.find? fun h => h.path == r.path with
  | none => .error 404
  | some h => if h.methods.contains r.method then .ok h else .error 405

/-! ### Queries -/

/-- A byte of a query with a blank for a plus sign. -/
def plusToBlank (b : UInt8) : UInt8 := if b = 43 then 32 else b

/-- The text that a part of a query stands for. -/
def queryText (cs : List Char) : String :=
  Bytes.toStringLossy (Percent.decode ((Bytes.ofString (String.ofList cs)).map plusToBlank))

/-- The names and values of a query. -/
def queryPairs (query : String) : List (String × String) :=
  ((Host.splitAt '&' query.toList).filter (· ≠ [])).map fun pair =>
    (queryText (pair.takeWhile (· != '=')), queryText ((pair.dropWhile (· != '=')).drop 1))

/-- The last value of a query under a name, read as a 64-bit word. -/
def queryNumber? (query name : String) : Option Nat :=
  (((queryPairs query).filter fun p => p.1 == name).getLast?).bind fun p =>
    Json.index? p.2.toList

/-! ### Handlers -/

/-- The announcement of JSON. -/
def jsonType : String := "application/json"

/-- The announcement of plain text. -/
def textType : String := "text/plain; charset=utf-8"

/-- An answer of JSON. -/
def jsonResponse (v : Json Json.Number) : TargetResponse :=
  ⟨200, some jsonType, Bytes.ofString v.render, 0⟩

/-- An answer of plain text. -/
def textResponse (status : Nat) (s : String) : TargetResponse :=
  ⟨status, some textType, Bytes.ofString s, 0⟩

/-- The counts as text. -/
def metricsText (c : TargetCounters) : String :=
  "# TYPE testserver_requests_total counter\ntestserver_requests_total " ++ toString c.requests ++
    "\n# TYPE testserver_uploads_total counter\ntestserver_uploads_total " ++
    toString c.uploads ++ "\n"

/-- A text or the absent value. -/
def optionalText : Option String → Json Json.Number
  | some s => .string s
  | none => .null

/-- What is said of an upload. -/
def uploadJson (bucket : Option String) (file : UploadedFile) : Json Json.Number :=
  .object [("bucket", optionalText bucket), ("filename", optionalText file.filename),
    ("size", .number (Json.Number.ofNat file.size))]

/-- Takes an upload: without a file, or with a body that cannot be read to its end, it does not
count. -/
def takeUpload (c : TargetCounters) (body : UploadBody) : TargetResponse × TargetCounters :=
  match Upload.read {} body with
  | .error reason => (textResponse 400 reason, c)
  | .ok upload =>
    match upload.file with
    | none => (textResponse 400 "missing file part", c)
    | some file =>
      (jsonResponse (uploadJson upload.bucket file),
        { c with
          uploads := c.uploads + 1
          uploadBytes := c.uploadBytes + file.size })

/-- How many milliseconds a slow answer takes. -/
def slowDelay (query : String) : Nat := (queryNumber? query "ms").getD 50

/-- Every how many calls one fails. -/
def flakyPeriod (query : String) : Nat :=
  ((queryNumber? query "every").filter fun n => 0 < n).getD 20

/-- What a handler answers and counts, beside the request itself. -/
def answer (c : TargetCounters) (h : Handler) (query : String) (body : UploadBody) :
    TargetResponse × TargetCounters :=
  match h with
  | .health => (jsonResponse (.object [("status", .bool true)]), c)
  | .metrics => (textResponse 200 (metricsText c), c)
  | .upload => takeUpload c body
  | .slow => ({ textResponse 200 "slow" with delay := slowDelay query }, c)
  | .flaky =>
    ({ status := if c.flakyCalls % flakyPeriod query = 0 then 500 else 200 },
      { c with flakyCalls := c.flakyCalls + 1 })

/-- What a handler answers to a request that reaches it; the request counts. -/
def handle (c : TargetCounters) (h : Handler) (query : String) (body : UploadBody) :
    TargetResponse × TargetCounters :=
  answer { c with requests := c.requests + 1 } h query body

/-- The body of a request as its handler reads it, which only uploads do.  Without a boundary an
upload has none. -/
def body? (reader : UploadReader) (h : Handler) (r : TargetRequest) : Option UploadBody :=
  match h with
  | .upload => (r.contentType.bind reader.boundary?).map fun b => reader.body b r.body
  | _ => some .ended

/-- What is asked for with `HEAD` is answered without a body. -/
def withoutBody (r : TargetRequest) (a : TargetResponse) : TargetResponse :=
  if r.method = "HEAD" then { a with body := [] } else a

/-- One request.  An upload without a boundary does not reach its handler. -/
def serve (reader : UploadReader) (c : TargetCounters) (r : TargetRequest) :
    TargetResponse × TargetCounters :=
  match route r with
  | .error status => ({ status }, c)
  | .ok h =>
    match body? reader h r with
    | none => (textResponse 400 "Invalid `boundary` for `multipart/form-data` request", c)
    | some body =>
      let (a, c) := handle c h r.query body
      (withoutBody r a, c)

/-- Requests one after the other. -/
def serveAll (reader : UploadReader) (c : TargetCounters) :
    List TargetRequest → List TargetResponse × TargetCounters
  | [] => ([], c)
  | r :: rest =>
    let (a, c) := serve reader c r
    let (as, c) := serveAll reader c rest
    (a :: as, c)

/-! ### The server on a network -/

/-- What a request on a network asks the server. -/
def requestOf (u : Url) (r : HttpRequest) : TargetRequest where
  method := r.method
  path := String.ofList u.pathChars
  query := String.ofList (u.query.getD [])
  contentType := (r.headers.find? fun h => Header.lower h.1 == "content-type").map Prod.snd
  body := r.body

/-- What the server sends back. -/
def deliveryOf (a : TargetResponse) : Delivery :=
  .response a.status
    (a.contentType.elim [] fun t => [("content-type", Bytes.ofString t)]) a.body

/-- A network on which the server is found at a host and a port. -/
def network (host : Host) (port : Nat) : Network TargetCounters where
  exchange r c :=
    match Url.parse? r.url with
    | none => (⟨Duration.zero, .failure "client error (Connect)"⟩, c)
    | some u =>
      if u.host = some host ∧ u.port = some port then
        let (a, c) := serve .forms c (requestOf u r)
        (⟨Duration.ofMillis a.delay, deliveryOf a⟩, c)
      else (⟨Duration.zero, .failure "client error (Connect)"⟩, c)

end Target

end StagedLoad
