import StagedLoad.Http.Message
import StagedLoad.Http.RequestUri
import StagedLoad.Table
import StagedLoad.Url.Reader

/-!
# Clients

A client looks at a request before it sends it: the URL has to be one of the web that the
connection accepts too, and every header has to be one that can be sent.  What then comes
back is up to the network.

## Main definitions

* `Exchange`, `Network` — what a network makes of a request.
* `HttpRequest.fault?` — why a request is not sent at all.
* `Client.send` — sends a request.
-/

namespace StagedLoad

/-- What comes back over a connection. -/
inductive Delivery
  /-- A response, with the headers as they came. -/
  | response (status : Nat) (headers : List (String × Bytes)) (body : Bytes)
  /-- No response. -/
  | failure (reason : String)
  /-- A response whose body breaks off. -/
  | broken (reason : String)
  deriving DecidableEq, Repr, Inhabited

/-- What a network makes of one request. -/
structure Exchange where
  /-- How long it takes. -/
  latency : Duration
  /-- What comes back. -/
  delivery : Delivery
  deriving DecidableEq, Repr, Inhabited

/-- A network with a state of type `σ`, which requests change one after the other. -/
structure Network (σ : Type) where
  /-- What becomes of a request. -/
  exchange : HttpRequest → σ → Exchange × σ

/-- The network on which nothing can be reached. -/
def Network.unreachable : Network PUnit where
  exchange _ state := (⟨Duration.zero, .failure "client error (Connect)"⟩, state)

/-- Why a request is not sent at all. -/
def HttpRequest.fault? (r : HttpRequest) : Option TransportFault :=
  match Url.parse? r.url with
  | none => some (.invalidUrl r.url)
  | some u =>
    if !u.isWeb then some (.unsupportedScheme r.url)
    else if !RequestUri.accepts r.url then some (.invalidUrl r.url)
    else r.headers.findSome? Header.fault?

/-- Joins what came in under one name. -/
def joinValues (before : Option String) (value : String) : String :=
  match before with
  | none => value
  | some s => if s.isEmpty then value else s ++ ", " ++ value

/-- The headers of a response: one for each name in lower case, repeated ones joined. -/
def mergeHeaders (headers : List (String × Bytes)) : Table String String :=
  headers.foldl (fun t (name, value) =>
    t.update (Header.lower name) (joinValues · (Bytes.toStringLossy value))) Table.empty

/-- What a client makes of what comes back. -/
def Delivery.result : Delivery → Except TransportFault HttpResponse
  | response status headers body => .ok ⟨status, (mergeHeaders headers).entries, body⟩
  | failure reason => .error (.request reason)
  | broken reason => .error (.bodyRead reason)

namespace Client

variable {σ : Type}

/-- What a client makes of an exchange that may not take longer than a limit, and how long it
waits for it. -/
def await (limit : Option Duration) (e : Exchange) :
    Except TransportFault HttpResponse × Duration :=
  match limit with
  | some t => if t < e.latency then (.error (.timeout t), t) else (e.delivery.result, e.latency)
  | none => (e.delivery.result, e.latency)

/-- Sends a request: the response or why there is none, how long that took, and the network
afterwards. -/
def send (network : Network σ) (r : HttpRequest) (state : σ) :
    (Except TransportFault HttpResponse × Duration) × σ :=
  match r.fault? with
  | some fault => ((.error fault, Duration.zero), state)
  | none =>
    let (e, state) := network.exchange r state
    (await r.timeout e, state)

end Client

end StagedLoad
