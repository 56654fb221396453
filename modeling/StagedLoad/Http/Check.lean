import StagedLoad.Http.Message
import StagedLoad.Json.Path
import StagedLoad.Json.Reader

/-!
# Checks of responses

A check looks at the status of a response or at a place in its body.

## Main definitions

* `Expectation`, `ResponseCheck` — the checks.
* `ResponseCheck.passes` — whether a response is as expected.
-/

namespace StagedLoad

/-- What is expected of a response. -/
inductive Expectation
  /-- A status. -/
  | status (code : Nat)
  /-- A value at a place in the body. -/
  | json (path : String) (value : Json Json.Number)
  deriving Inhabited

/-- An expectation with a name. -/
structure ResponseCheck where
  /-- The name. -/
  name : String
  /-- What is expected. -/
  expect : Expectation
  deriving Inhabited

/-- Whether a response is as expected.  A body that is no JSON is not. -/
def Expectation.holds (e : Expectation) (r : HttpResponse) : Bool :=
  match e with
  | status code => r.status == code
  | json path value =>
    match (Json.ofBytes? r.body).bind fun doc => doc.lookup? path with
    | none => false
    | some found => found.same Json.Number.same value

/-- Whether a response is as expected; no response never is. -/
def ResponseCheck.passes (c : ResponseCheck) (response : Option HttpResponse) : Bool :=
  response.any c.expect.holds

end StagedLoad
