import StagedLoad.Decimal.Binary64

/-!
# Durations

Spans of time in whole nanoseconds, up to just under `2 ^ 64` seconds.

Sums that would leave the range saturate at its end, differences that would fall
below zero saturate at zero; conversions that cannot be made answer `none`.

## Main definitions

* `Duration` — a bounded number of nanoseconds.
* `Duration.add`, `Duration.sub` — saturating sum and difference.
* `Duration.ofSeconds?`, `Duration.toSeconds` — from and to doubles.
-/

namespace StagedLoad

/-- A span of time. -/
structure Duration where
  /-- Its length in nanoseconds. -/
  nanos : Nat
  /-- Less than `2 ^ 64` seconds. -/
  nanos_lt : nanos < 18446744073709551616 * 1000000000
  deriving DecidableEq

namespace Duration

/-- Nanoseconds in a second. -/
def nanosPerSecond : Nat := 1000000000

/-- Nanoseconds in a millisecond. -/
def nanosPerMilli : Nat := 1000000

/-- The greatest number of nanoseconds a duration can have. -/
def maxNanos : Nat := 18446744073709551616 * 1000000000 - 1

@[ext] theorem ext {a b : Duration} (h : a.nanos = b.nanos) : a = b := by
  cases a; cases b; cases h; rfl

/-- The duration of at most `n` nanoseconds: longer ones are cut to the longest. -/
def clamp (n : Nat) : Duration :=
  ⟨min n maxNanos, Nat.lt_of_le_of_lt (Nat.min_le_right _ _) (by decide)⟩

theorem nanos_le_maxNanos (d : Duration) : d.nanos ≤ maxNanos := Nat.le_sub_one_of_lt d.nanos_lt

@[simp] theorem nanos_clamp (n : Nat) : (clamp n).nanos = min n maxNanos := rfl

@[simp] theorem clamp_nanos (d : Duration) : clamp d.nanos = d :=
  ext (Nat.min_eq_left d.nanos_le_maxNanos)

/-- The duration of `n` nanoseconds, if there is one. -/
def ofNanos? (n : Nat) : Option Duration :=
  if h : n < 18446744073709551616 * 1000000000 then some ⟨n, h⟩ else none

/-- No time at all. -/
def zero : Duration := ⟨0, by decide⟩

@[simp] theorem nanos_zero : zero.nanos = 0 := rfl

instance : Inhabited Duration := ⟨zero⟩

instance : Repr Duration := ⟨fun d _ => repr d.nanos⟩

/-- Whether no time passes. -/
def isZero (d : Duration) : Bool := d.nanos == 0

theorem isZero_iff (d : Duration) : d.isZero = true ↔ d = zero := by
  simp [isZero, Duration.ext_iff]

instance : LE Duration := ⟨fun a b => a.nanos ≤ b.nanos⟩

instance : LT Duration := ⟨fun a b => a.nanos < b.nanos⟩

instance (a b : Duration) : Decidable (a ≤ b) := inferInstanceAs (Decidable (a.nanos ≤ b.nanos))

instance (a b : Duration) : Decidable (a < b) := inferInstanceAs (Decidable (a.nanos < b.nanos))

theorem le_def {a b : Duration} : a ≤ b ↔ a.nanos ≤ b.nanos := Iff.rfl

theorem lt_def {a b : Duration} : a < b ↔ a.nanos < b.nanos := Iff.rfl

/-- The sum of two durations, cut to the longest. -/
def add (a b : Duration) : Duration := clamp (a.nanos + b.nanos)

/-- The difference of two durations, zero if the second is longer. -/
def sub (a b : Duration) : Duration :=
  ⟨a.nanos - b.nanos, Nat.lt_of_le_of_lt (Nat.sub_le _ _) a.nanos_lt⟩

instance : Add Duration := ⟨add⟩

instance : Sub Duration := ⟨sub⟩

theorem nanos_add (a b : Duration) : (a + b).nanos = min (a.nanos + b.nanos) maxNanos := rfl

/-- It does not matter whether a sum is cut once or again and again. -/
theorem clamp_clamp_add (m n : Nat) : clamp ((clamp m).nanos + n) = clamp (m + n) := by
  apply ext
  rw [nanos_clamp, nanos_clamp, nanos_clamp]
  omega

@[simp] theorem nanos_sub (a b : Duration) : (a - b).nanos = a.nanos - b.nanos := rfl

/-- The shorter of two durations. -/
def min (a b : Duration) : Duration := if a.nanos ≤ b.nanos then a else b

theorem nanos_min (a b : Duration) : (min a b).nanos = Nat.min a.nanos b.nanos := by
  unfold min
  split
  · exact (Nat.min_eq_left ‹_›).symm
  · exact (Nat.min_eq_right (by omega)).symm

/-- The whole seconds. -/
def wholeSeconds (d : Duration) : Nat := d.nanos / nanosPerSecond

/-- The nanoseconds beyond the whole seconds. -/
def subsecond (d : Duration) : Nat := d.nanos % nanosPerSecond

/-- The whole milliseconds. -/
def wholeMillis (d : Duration) : Nat := d.nanos / nanosPerMilli

/-- The milliseconds, a started one counting in full. -/
def startedMillis (d : Duration) : Nat := (d.nanos + (nanosPerMilli - 1)) / nanosPerMilli

/-- The duration of `n` milliseconds, cut to the longest. -/
def ofMillis (n : Nat) : Duration := clamp (nanosPerMilli * n)

/-- The duration of `n` seconds, cut to the longest. -/
def seconds (n : Nat) : Duration := clamp (nanosPerSecond * n)

/-- The seconds as a double: whole seconds and fraction are rounded on their own. -/
def toSeconds (d : Duration) : Float :=
  Binary64.ofNat d.wholeSeconds + Binary64.ofNat d.subsecond / 1e9

/-- The milliseconds as a double. -/
def toMillis (d : Duration) : Float := d.toSeconds * 1000

/-- The duration nearest to a non-negative number of seconds, ties going to an even number
of nanoseconds; `none` for what is not finite and for `2 ^ 64` seconds and more. -/
def ofSeconds? (x : Float) : Option Duration :=
  match Binary64.decode x with
  | .finite _ m q =>
    let (num, den) := Binary64.scaled m q
    ofNanos? (roundDiv (num * nanosPerSecond) den .toEven)
  | _ => none

end Duration

end StagedLoad
