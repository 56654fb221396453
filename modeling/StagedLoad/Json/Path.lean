import StagedLoad.Decimal.Binary64
import StagedLoad.Json.Basic
import StagedLoad.Text.Blank

/-!
# Paths into JSON values

A path is a text of steps with points between them.  A step is a name inside an object and
an index inside an array.  Blanks around a path do not count, nor does `$.` in front of it,
however often; the empty path and `$` are the value itself.

## Main definitions

* `Json.step?` — one step.
* `Json.steps` — the steps of a path.
* `Json.lookup?` — the value at a path.
-/

namespace StagedLoad.Json

variable {ν : Type}

/-- The number that a step into an array is written for: digits, after a plus sign if there
is one, for a 64-bit word. -/
def index? (step : List Char) : Option Nat :=
  let digits := match step with
    | '+' :: rest => rest
    | other => other
  if digits.isEmpty || !digits.all Char.isDigit then none
  else
    let n := digits.foldl (fun acc c => acc * 10 + (c.toNat - 48)) 0
    if n ≤ Binary64.maxWord then some n else none

/-- One step: a name inside an object, an index inside an array. -/
def step? (v : Json ν) (step : List Char) : Option (Json ν) :=
  match v with
  | object _ => v.member? (String.ofList step)
  | array _ => (index? step).bind v.element?
  | _ => none

/-- Splits a text at its points. -/
def splitPoints : List Char → List (List Char)
  | [] => [[]]
  | '.' :: rest => [] :: splitPoints rest
  | c :: rest =>
    match splitPoints rest with
    | [] => [[c]]
    | s :: more => (c :: s) :: more

/-- Takes `$.` off the start, as often as it is there. -/
def stripRoot : List Char → List Char
  | '$' :: '.' :: rest => stripRoot rest
  | cs => cs

/-- The steps of a path. -/
def steps (path : List Char) : List (List Char) :=
  let cs := stripRoot (Blank.trimEnd (Blank.trimStart path))
  if cs = [] ∨ cs = ['$'] then [] else splitPoints cs

/-- The value at a path. -/
def lookup? (v : Json ν) (path : String) : Option (Json ν) :=
  (steps path.toList).foldlM step? v

end StagedLoad.Json
