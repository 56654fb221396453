import StagedLoad.Decimal.Reader
import StagedLoad.Duration.Basic
import StagedLoad.Text.Blank

/-!
# Durations written by people

Two notations: a plain number of seconds such as `1.5`, and a sum of numbers with
units such as `1h 30m` or `2.5days`.

The notation with units is read character by character.  A number is a string of
digits with blanks among them, possibly with a point and more digits; the unit is
the letters that follow.  Every number and every product with the size of its unit
has to fit into 64 bits, and a fraction has to come out as a whole number of
nanoseconds or, for hours and above, of seconds.

## Main definitions

* `TimeUnit` — the units, their names and sizes.
* `Duration.Fault` — what can be wrong with a text.
* `Duration.parse` — the reader of both notations.
-/

namespace StagedLoad

/-- A number of seconds and a number of nanoseconds. -/
structure Span where
  /-- The seconds. -/
  seconds : Nat
  /-- The nanoseconds, of which there can be more than fit into a second. -/
  nanos : Nat
  deriving DecidableEq, Repr

/-- A unit of time in a text. -/
inductive TimeUnit
  /-- Nanoseconds. -/
  | nanosecond
  /-- Microseconds. -/
  | microsecond
  /-- Milliseconds. -/
  | millisecond
  /-- Seconds. -/
  | second
  /-- Minutes. -/
  | minute
  /-- Hours. -/
  | hour
  /-- Days of 24 hours. -/
  | day
  /-- Weeks. -/
  | week
  /-- Months of 30.44 days. -/
  | month
  /-- Years of 365.25 days. -/
  | year
  deriving DecidableEq, Repr

namespace TimeUnit

/-- The names that a unit goes by. -/
def names : TimeUnit → List String
  | nanosecond => ["nanos", "nsec", "ns"]
  | microsecond => ["usec", "us", "µs"]
  | millisecond => ["millis", "msec", "ms"]
  | second => ["seconds", "second", "secs", "sec", "s"]
  | minute => ["minutes", "minute", "mins", "min", "m"]
  | hour => ["hours", "hour", "hrs", "hr", "h"]
  | day => ["days", "day", "d"]
  | week => ["weeks", "week", "wks", "wk", "w"]
  | month => ["months", "month", "M"]
  | year => ["years", "year", "yrs", "yr", "y"]

/-- Every unit. -/
def all : List TimeUnit :=
  [nanosecond, microsecond, millisecond, second, minute, hour, day, week, month, year]

/-- The unit with a name; names are case-sensitive. -/
def named? (name : String) : Option TimeUnit := all.find? fun u => u.names.contains name

/-- How a whole number of units is counted: as seconds or as nanoseconds, and how many. -/
def size : TimeUnit → Span
  | nanosecond => ⟨0, 1⟩
  | microsecond => ⟨0, 1000⟩
  | millisecond => ⟨0, 1000000⟩
  | second => ⟨1, 0⟩
  | minute => ⟨60, 0⟩
  | hour => ⟨3600, 0⟩
  | day => ⟨86400, 0⟩
  | week => ⟨604800, 0⟩
  | month => ⟨2630016, 0⟩
  | year => ⟨31557600, 0⟩

/-- How a fraction of a unit is counted; nanoseconds have no fractions. -/
def fractionSize? : TimeUnit → Option Span
  | nanosecond => none
  | second => some ⟨0, 1000000000⟩
  | minute => some ⟨0, 60000000000⟩
  | u => some u.size

end TimeUnit

namespace Duration

/-- What can be wrong with a text in the notation with units. -/
inductive GrammarFault
  /-- A character that can stand neither in a number nor in a unit. -/
  | invalidCharacter (offset : Nat)
  /-- Something else where a number has to start. -/
  | numberExpected (offset : Nat)
  /-- A number without a unit. -/
  | unitMissing (value : Nat)
  /-- A unit that does not exist. -/
  | unknownUnit (unit : String)
  /-- A number beyond 64 bits, or a fraction that does not come out even. -/
  | overflow
  /-- No number at all. -/
  | empty
  /-- A full second carried into the greatest number of seconds, which ends the program. -/
  | carry
  deriving DecidableEq, Repr

/-- The wording of a fault. -/
def GrammarFault.message : GrammarFault → String
  | invalidCharacter offset => "invalid character at " ++ offset.repr
  | numberExpected offset => "expected number at " ++ offset.repr
  | unitMissing value =>
    "time unit needed, for example " ++ value.repr ++ "sec or " ++ value.repr ++ "ms"
  | unknownUnit unit =>
    "unknown time unit \"" ++ unit ++ "\", supported units: ns, us/µs, ms, sec, min, hours, " ++
      "days, weeks, months, years (and few variations)"
  | overflow => "number is too large or cannot be represented without a lack of precision " ++
      "(values below 1ns are not supported)"
  | empty => "value was empty"
  | carry => "overflow in Duration::new"

/-- Conversions that end the program instead of answering. -/
inductive Crash
  /-- A number of seconds of `2 ^ 64` or more. -/
  | tooManySeconds
  /-- A carry of a full second into the greatest number of seconds. -/
  | carry
  deriving DecidableEq, Repr

/-- The last words of the program. -/
def Crash.message : Crash → String
  | tooManySeconds =>
    "cannot convert float seconds to Duration: value is either too big or NaN"
  | carry => GrammarFault.carry.message

/-- Why a text gives no duration. -/
inductive Fault
  /-- The text is blank. -/
  | empty
  /-- A plain number that is negative or not finite. -/
  | notANumberOfSeconds (text : String)
  /-- Neither a plain number nor the notation with units. -/
  | malformed (text : String) (cause : GrammarFault)
  /-- The conversion ends the program. -/
  | crash (cause : Crash)
  deriving DecidableEq, Repr

/-- The wording of a fault. -/
def Fault.message : Fault → String
  | empty => "duration cannot be empty (expected e.g. 10s, 250ms, 1m30s)"
  | notANumberOfSeconds text => "duration '" ++ text ++ "' must be a non-negative, finite number"
  | malformed text cause => "invalid duration '" ++ text ++ "': " ++ cause.message
  | crash cause => cause.message

/-! ### The notation with units -/

/-- A character and the number of bytes before it. -/
abbrev Placed := Nat × Char

/-- Every character with the number of bytes before it. -/
def place : Nat → List Char → List Placed
  | _, [] => []
  | offset, c :: cs => (offset, c) :: place (offset + c.utf8Size) cs

/-- Where the rest of a text starts, `stop` being the end of the text. -/
def offsetOf (stop : Nat) : List Placed → Nat
  | [] => stop
  | (offset, _) :: _ => offset

/-- Characters of units: letters and the micro sign. -/
def isUnitChar (c : Char) : Bool := c.isAlpha || c == 'µ'

/-- A natural that has to fit into 64 bits. -/
def word (n : Nat) : Except GrammarFault Nat :=
  if n ≤ Binary64.maxWord then .ok n else .error .overflow

/-- A natural divided by another one, which has to go evenly. -/
def exactDiv (num den : Nat) : Except GrammarFault Nat :=
  if num % den = 0 then .ok (num / den) else .error .overflow

/-- The digits after a point. -/
structure Fraction where
  /-- The digits as one natural. -/
  numerator : Nat
  /-- Ten to the number of digits. -/
  denominator : Nat
  deriving DecidableEq, Repr

/-- The first digit of a number, after any blanks; `none` at the end of the text. -/
def firstDigit (start : Nat) : List Placed → Except GrammarFault (Option (Nat × List Placed))
  | [] => .ok none
  | (_, c) :: rest =>
    if c.isDigit then .ok (some (Literal.digitValue c, rest))
    else if Blank.isBlank c then firstDigit start rest
    else .error (.numberExpected start)

/-- The digits after a point, up to the start of the unit.  `start` is where the reader
stands: at the point, or behind the last character it took. -/
def fraction (stop start : Nat) (f : Fraction) :
    List Placed → Except GrammarFault (Fraction × List Placed)
  | [] => if f.denominator = 1 then .error (.invalidCharacter start) else .ok (f, [])
  | (offset, c) :: rest =>
    if c.isDigit then do
      let den ← word (f.denominator * 10)
      let num ← word (f.numerator * 10 + Literal.digitValue c)
      fraction stop (offsetOf stop rest) ⟨num, den⟩ rest
    else if Blank.isBlank c then fraction stop (offsetOf stop rest) f rest
    else if isUnitChar c then
      if f.denominator = 1 then .error (.invalidCharacter start) else .ok (f, (offset, c) :: rest)
    else .error (.invalidCharacter start)

/-- The rest of a number after its first digit, up to the start of the unit. -/
def number (stop : Nat) (n : Nat) :
    List Placed → Except GrammarFault (Nat × Option Fraction × List Placed)
  | [] => .ok (n, none, [])
  | (offset, c) :: rest =>
    if c.isDigit then do
      number stop (← word (n * 10 + Literal.digitValue c)) rest
    else if Blank.isBlank c then number stop n rest
    else if isUnitChar c then .ok (n, none, (offset, c) :: rest)
    else if c = '.' then do
      let (f, rest) ← fraction stop offset ⟨0, 1⟩ rest
      .ok (n, some f, rest)
    else .error (.invalidCharacter offset)

/-- What follows a unit. -/
inductive AfterUnit
  /-- A digit directly behind the unit. -/
  | digit (value : Nat)
  /-- A blank, or the end of the text. -/
  | gap
  deriving DecidableEq, Repr

/-- The letters of a unit, what ends them, and the rest of the text. -/
def unitName : List Placed → Except GrammarFault (List Char × AfterUnit × List Placed)
  | [] => .ok ([], .gap, [])
  | (offset, c) :: rest =>
    if c.isDigit then .ok ([], .digit (Literal.digitValue c), rest)
    else if Blank.isBlank c then .ok ([], .gap, rest)
    else if isUnitChar c then do
      let (cs, after, rest) ← unitName rest
      .ok (c :: cs, after, rest)
    else .error (.invalidCharacter offset)

/-- Of two steps one after the other both have given a result if there is one. -/
theorem exists_of_bind_eq_ok {ε α β : Type} {x : Except ε α} {f : α → Except ε β} {b : β}
    (h : x >>= f = .ok b) : ∃ a, x = .ok a ∧ f a = .ok b := by
  cases x with
  | error e => cases h
  | ok a => exact ⟨a, rfl, h⟩

/-- What is left behind a unit is no longer than what there was, and shorter if a digit was taken
with the unit. -/
theorem unitName_length {t rest : List Placed} {cs : List Char} {a : AfterUnit}
    (h : unitName t = .ok (cs, a, rest)) :
    rest.length ≤ t.length ∧ ∀ d, a = .digit d → rest.length < t.length := by
  induction t generalizing cs a rest with
  | nil =>
    cases h
    simp
  | cons p t ih =>
    obtain ⟨offset, c⟩ := p
    unfold unitName at h
    split at h
    case isTrue =>
      cases h
      simp
    case isFalse =>
      split at h
      case isTrue =>
        cases h
        simp
      case isFalse =>
        split at h
        case isTrue =>
          obtain ⟨⟨cs', a', rest'⟩, hr, h⟩ := exists_of_bind_eq_ok h
          cases h
          have hle := (ih hr).1
          exact ⟨Nat.le_succ_of_le hle, fun _ _ => Nat.lt_succ_of_le hle⟩
        case isFalse => cases h

theorem unitName_length_le {t rest : List Placed} {cs : List Char} {a : AfterUnit}
    (h : unitName t = .ok (cs, a, rest)) : rest.length ≤ t.length := (unitName_length h).1

/-- A digit behind a unit is taken with it. -/
theorem unitName_length_lt {t rest : List Placed} {cs : List Char} {d : Nat}
    (h : unitName t = .ok (cs, .digit d, rest)) : rest.length < t.length :=
  (unitName_length h).2 d rfl

/-- A duration with a span added.  Nanoseconds beyond a second are carried, an exact second
of them only when the sum is formed. -/
def plus (total : Duration) (span : Span) : Except GrammarFault Duration := do
  let n ← word (total.subsecond + span.nanos)
  let carried := if nanosPerSecond < n then n / nanosPerSecond else 0
  let s ← word (span.seconds + carried)
  let s ← word (total.wholeSeconds + s)
  match ofNanos? (s * nanosPerSecond + (n - carried * nanosPerSecond)) with
  | some d => .ok d
  | none => .error .carry

/-- A whole number of units as a span. -/
def wholeSpan (n : Nat) (size : Span) : Except GrammarFault Span := do
  .ok ⟨← word (n * size.seconds), ← word (n * size.nanos)⟩

/-- A fraction of a unit as a span. -/
def fractionSpan (f : Fraction) (size : Span) : Except GrammarFault Span := do
  let s ← word (f.numerator * size.seconds)
  let n ← word (f.numerator * size.nanos)
  .ok ⟨← exactDiv s f.denominator, ← exactDiv n f.denominator⟩

/-- A duration with a number of units added. -/
def plusUnits (total : Duration) (n : Nat) (f : Option Fraction) (name : List Char) :
    Except GrammarFault Duration :=
  match TimeUnit.named? (String.ofList name) with
  | none =>
    .error (if name.isEmpty then .unitMissing n else .unknownUnit (String.ofList name))
  | some unit => do
    let total ← total.plus (← wholeSpan n unit.size)
    match f, unit.fractionSize? with
    | none, _ => .ok total
    | some _, none => .error .overflow
    | some f, some size => total.plus (← fractionSpan f size)

theorem firstDigit_length_lt {start : Nat} {t rest : List Placed} {n : Nat}
    (h : firstDigit start t = .ok (some (n, rest))) : rest.length < t.length := by
  induction t with
  | nil => cases h
  | cons p t ih =>
    obtain ⟨offset, c⟩ := p
    unfold firstDigit at h
    split at h
    case isTrue =>
      cases h
      exact Nat.lt_succ_self _
    case isFalse =>
      split at h
      case isTrue => exact Nat.lt_succ_of_lt (ih h)
      case isFalse => cases h

theorem fraction_length_le {stop start : Nat} {f g : Fraction} {t rest : List Placed}
    (h : fraction stop start f t = .ok (g, rest)) : rest.length ≤ t.length := by
  induction t generalizing start f with
  | nil =>
    unfold fraction at h
    split at h <;> cases h
    exact Nat.le_refl _
  | cons p t ih =>
    obtain ⟨offset, c⟩ := p
    unfold fraction at h
    split at h
    case isTrue =>
      obtain ⟨d, -, h⟩ := exists_of_bind_eq_ok h
      obtain ⟨n, -, h⟩ := exists_of_bind_eq_ok h
      exact Nat.le_succ_of_le (ih h)
    case isFalse =>
      split at h
      case isTrue => exact Nat.le_succ_of_le (ih h)
      case isFalse =>
        split at h
        case isTrue =>
          split at h <;> cases h
          exact Nat.le_refl _
        case isFalse => cases h

theorem number_length_le {stop n m : Nat} {f : Option Fraction} {t rest : List Placed}
    (h : number stop n t = .ok (m, f, rest)) : rest.length ≤ t.length := by
  induction t generalizing n with
  | nil =>
    cases h
    exact Nat.le_refl _
  | cons p t ih =>
    obtain ⟨offset, c⟩ := p
    unfold number at h
    split at h
    case isTrue =>
      obtain ⟨w, -, h⟩ := exists_of_bind_eq_ok h
      exact Nat.le_succ_of_le (ih h)
    case isFalse =>
      split at h
      case isTrue => exact Nat.le_succ_of_le (ih h)
      case isFalse =>
        split at h
        case isTrue =>
          cases h
          exact Nat.le_refl _
        case isFalse =>
          split at h
          case isTrue =>
            obtain ⟨⟨g, rest'⟩, hf, h⟩ := exists_of_bind_eq_ok h
            cases h
            exact Nat.le_succ_of_le (fraction_length_le hf)
          case isFalse => cases h

/-- Adds up numbers with units; the first digit of the next number, `n`, has been read. -/
def sum (stop : Nat) (total : Duration) (n : Nat) (t : List Placed) :
    Except GrammarFault Duration :=
  match hn : number stop n t with
  | .error e => .error e
  | .ok (n, f, rest) =>
    match hu : unitName rest with
    | .error e => .error e
    | .ok (name, after, rest') =>
      match plusUnits total n f name with
      | .error e => .error e
      | .ok total =>
        -- the number behind a unit may start in its very next character
        match after, hu with
        | .digit d, hu =>
          have : rest'.length < t.length := by
            have h1 := number_length_le hn
            have h2 := unitName_length_lt hu
            omega
          sum stop total d rest'
        | .gap, hu =>
          match hd : firstDigit (offsetOf stop rest') rest' with
          | .error e => .error e
          | .ok none => .ok total
          | .ok (some (d, rest'')) =>
            have : rest''.length < t.length := by
              have h1 := number_length_le hn
              have h2 := unitName_length_le hu
              have h3 := firstDigit_length_lt hd
              omega
            sum stop total d rest''
termination_by t.length

/-- Reads the notation with units. -/
def ofUnits (text : String) : Except GrammarFault Duration :=
  let stop := text.utf8ByteSize
  match firstDigit 0 (place 0 text.toList) with
  | .error e => .error e
  | .ok none => .error .empty
  | .ok (some (n, rest)) => sum stop zero n rest

/-! ### Both notations -/

/-- A number of seconds given as a double. -/
def ofNumber (text : String) (x : Float) : Except Fault Duration :=
  if !Binary64.isFinite x || x < 0 then .error (.notANumberOfSeconds text)
  else match ofSeconds? x with
    | some d => .ok d
    | none => .error (.crash .tooManySeconds)

/-- Reads a duration: a plain number of seconds, or else the notation with units.  Blanks
around the text do not count. -/
def parse (raw : String) : Except Fault Duration :=
  let text := Blank.trim raw
  if text.isEmpty then .error .empty
  else match Binary64.ofChars? text.toList with
    | some x => ofNumber text x
    | none => match ofUnits text with
      | .ok d => .ok d
      | .error .carry => .error (.crash .carry)
      | .error cause => .error (.malformed text cause)

end Duration

end StagedLoad
