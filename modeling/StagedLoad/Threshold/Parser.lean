import StagedLoad.Threshold.Expr

/-!
# Reading threshold expressions

An expression is a selector, a comparison, a number and a unit, in this order and
with blanks anywhere.  The comparison is looked for symbol by symbol, so that `<=`
is never taken for `<`; what stands before its first occurrence is the selector.

## Main definitions

* `Threshold.SyntaxFault` — what can be wrong with a text.
* `Threshold.Expr.parse` — the reader.
-/

namespace StagedLoad.Threshold

/-- Why a text is no threshold expression; `raw` is the whole text. -/
inductive SyntaxFault
  /-- The text is blank. -/
  | empty
  /-- There is no comparison. -/
  | missingComparison (raw : String)
  /-- There is nothing on one side of the comparison. -/
  | incomplete (raw : String)
  /-- What stands in `p(…)` is no percentile. -/
  | percentileOutOfRange (raw : String)
  /-- There is no such statistic. -/
  | unknownSelector (selector raw : String)
  /-- The limit is no finite number. -/
  | invalidNumber (raw : String)
  /-- There is no such unit. -/
  | unknownUnit (unit raw : String)
  deriving DecidableEq, Repr

/-- The wording of a fault. -/
def SyntaxFault.message : SyntaxFault → String
  | empty => "empty threshold"
  | missingComparison raw => "invalid threshold (missing operator): " ++ raw
  | incomplete raw => "invalid threshold: " ++ raw
  | percentileOutOfRange raw => "percentile out of range in threshold: " ++ raw
  | unknownSelector selector raw =>
    "unknown aggregation `" ++ selector ++ "` in threshold: " ++ raw
  | invalidNumber raw => "invalid numeric value in threshold: " ++ raw
  | unknownUnit unit raw => "unknown unit `" ++ unit ++ "` in threshold: " ++ raw

/-- Splits a text at the first occurrence of a symbol: what is before it and what is behind. -/
def splitAt? (symbol : List Char) : List Char → Option (List Char × List Char)
  | [] => if symbol.isEmpty then some ([], []) else none
  | c :: cs =>
    if symbol.isPrefixOf (c :: cs) then some ([], (c :: cs).drop symbol.length)
    else (splitAt? symbol cs).map fun (before, behind) => (c :: before, behind)

/-- Splits a text at the first occurrence of the first symbol in `searchOrder` that occurs. -/
def splitComparison? (cs : List Char) : Option (Comparison × List Char × List Char) :=
  Comparison.searchOrder.findSome? fun op =>
    (splitAt? op.symbol.toList cs).map fun (left, right) => (op, left, right)

/-- What stands in `p(…)`. -/
def percentileText? : List Char → Option (List Char)
  | 'p' :: '(' :: rest => if rest.getLast? = some ')' then some rest.dropLast else none
  | _ => none

/-- The selector that is written by some characters: a word in any letter case, or `p(…)`. -/
def readSelector (raw : String) (cs : List Char) : Except SyntaxFault Selector :=
  match Selector.words.find? fun w => w.name.toList == cs.map Char.toLower with
  | some w => .ok w
  | none => match percentileText? cs with
    | none => .error (.unknownSelector (String.ofList cs) raw)
    | some inner => match Percentile.parse (String.ofList inner) with
      | .ok p => .ok (.percentile p)
      | .error _ => .error (.percentileOutOfRange raw)

/-- Characters that the number is made of. -/
def isNumberChar (c : Char) : Bool := c.isDigit || c == '.' || c == '-' || c == '+'

/-- The finite double that is written by some characters. -/
def readNumber (raw : String) (cs : List Char) : Except SyntaxFault Float :=
  match Binary64.ofChars? cs with
  | some x => if Binary64.isFinite x then .ok x else .error (.invalidNumber raw)
  | none => .error (.invalidNumber raw)

/-- The spellings of units. -/
def unitSpellings : List (String × Unit) :=
  [("%", .percent), ("ns", .nanoseconds), ("us", .microseconds), ("µs", .microseconds),
    ("ms", .milliseconds), ("s", .seconds), ("m", .minutes), ("h", .hours)]

/-- The unit that is written by some characters, if any are there. -/
def readUnit (raw : String) (cs : List Char) : Except SyntaxFault (Option Unit) :=
  if cs.isEmpty then .ok none
  else match unitSpellings.find? fun e => e.1.toList == cs with
    | some (_, u) => .ok (some u)
    | none => .error (.unknownUnit (String.ofList cs) raw)

/-- Reads a threshold expression. -/
def Expr.parse (raw : String) : Except SyntaxFault Expr := do
  let cs := Blank.squeeze raw
  if cs.isEmpty then throw .empty
  let some (comparison, left, right) := splitComparison? cs | throw (.missingComparison raw)
  if left.isEmpty || right.isEmpty then throw (.incomplete raw)
  let selector ← readSelector raw left
  let x ← readNumber raw (right.takeWhile isNumberChar)
  let unit ← readUnit raw (right.dropWhile isNumberChar)
  return { selector, comparison, limit := unit.elim x fun u => u.scale x, unit }

end StagedLoad.Threshold
