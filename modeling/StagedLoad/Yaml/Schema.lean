import StagedLoad.Decimal.Reader
import StagedLoad.Json.Reader

/-!
# What plain scalars stand for

The core schema of YAML: which texts are the absent value, truth values, integers and
doubles.  Integers are written in base ten, or with a prefix in base sixteen, eight or two.
Digits of base ten do not start with a zero.

## Main definitions

* `Yaml.isNull`, `Yaml.bool?` — the absent value and truth values.
* `Yaml.unsigned?`, `Yaml.negative?` — integers within limits.
* `Yaml.double?` — doubles.
-/

namespace StagedLoad.Yaml

/-- Whether a text is a name of the absent value. -/
def isNull (s : String) : Bool := ["~", "null", "Null", "NULL"].contains s

/-- The truth value with a name. -/
def bool? (s : String) : Option Bool :=
  if ["true", "True", "TRUE"].contains s then some true
  else if ["false", "False", "FALSE"].contains s then some false
  else none

/-- The base that a letter behind a zero stands for. -/
def base? : Char → Option Nat
  | 'x' => some 16
  | 'o' => some 8
  | 'b' => some 2
  | _ => none

/-- The base of the digits that follow. -/
def splitBase : List Char → Nat × List Char
  | '0' :: x :: rest =>
    match base? x with
    | some b => (b, rest)
    | none => (10, '0' :: x :: rest)
  | cs => (10, cs)

/-- The number that digits of a base are written for, behind `acc`. -/
def ofDigits? (base : Nat) : (acc : Nat) → List Char → Option Nat
  | acc, [] => some acc
  | acc, c :: cs =>
    match Json.hexValue? c with
    | some v => if v < base then ofDigits? base (acc * base + v) cs else none
    | none => none

/-- Whether a list has two digits or more of which the first is a zero, and nothing else. -/
def hasLeadingZero : List Char → Bool
  | '0' :: d :: ds => (d :: ds).all Char.isDigit
  | _ => false

/-- The number that a list is written for without a sign. -/
def natural? (cs : List Char) : Option Nat :=
  if hasLeadingZero cs then none
  else
    let (base, digits) := splitBase cs
    if digits.isEmpty then none else ofDigits? base 0 digits

/-- What follows a plus. -/
def dropPlus : List Char → List Char
  | '+' :: cs => cs
  | cs => cs

/-- The natural number up to a limit that a text is written for. -/
def unsigned? (limit : Nat) (s : String) : Option Nat :=
  (natural? (dropPlus s.toList)).filter (· ≤ limit)

/-- The natural number up to a limit that a text is written for behind a minus. -/
def negative? (limit : Nat) (s : String) : Option Nat :=
  match s.toList with
  | '-' :: cs => (natural? cs).filter (· ≤ limit)
  | _ => none

/-- Whether a list starts with a sign. -/
def startsWithSign (cs : List Char) : Bool := cs.head?.any fun c => c == '+' || c == '-'

/-- The double that a text is written for. -/
def double? (s : String) : Option Float :=
  match s.toList with
  | '+' :: cs =>
    if startsWithSign cs then none
    else if isInfinity cs then some Literal.infinite
    else finite? cs
  | '-' :: cs => if isInfinity cs then some (-Literal.infinite) else finite? ('-' :: cs)
  | cs =>
    if isInfinity cs then some Literal.infinite
    else if [".nan", ".NaN", ".NAN"].contains s then some Literal.nan.toFloat
    else finite? cs
where
  /-- Whether a list is a name of infinity. -/
  isInfinity (cs : List Char) : Bool := [".inf", ".Inf", ".INF"].contains (String.ofList cs)
  /-- The double that a list is written for in digits. -/
  finite? (cs : List Char) : Option Float := (Binary64.ofChars? cs).filter Binary64.isFinite

end StagedLoad.Yaml
