import StagedLoad.Duration.Basic

/-!
# Instants

What a clock shows that only goes forward: the time since some start that nobody knows.  Its
seconds are a signed number of 64 bits, so there is a last instant, and durations lead beyond it.
To compute an instant that the clock does not get to is a crash.

## Main definitions

* `Instant` — what the clock can show.
* `Instant.add` — the instant after some time.
-/

namespace StagedLoad

/-- What the clock can show. -/
structure Instant where
  /-- Nanoseconds since the clock started. -/
  nanos : Nat
  /-- Less than `2 ^ 63` seconds. -/
  nanos_lt : nanos < 9223372036854775808 * 1000000000
  deriving DecidableEq

namespace Instant

/-- What ends the program instead of a fault. -/
inductive Crash
  /-- The clock does not get to an instant. -/
  | overflow
  deriving DecidableEq, Repr

/-- The wording of a crash. -/
def Crash.message : Crash → String
  | overflow => "overflow when adding duration to instant"

/-- The first number of nanoseconds that the clock does not show. -/
def limit : Nat := 9223372036854775808 * 1000000000

/-- The instant at which the clock shows some nanoseconds, or the last one. -/
def clamp (n : Nat) : Instant :=
  ⟨min n (limit - 1), Nat.lt_of_le_of_lt (Nat.min_le_right _ _) (by decide)⟩

/-- The instant after some time. -/
def add (t : Instant) (d : Duration) : Except Crash Instant :=
  if h : t.nanos + d.nanos < limit then .ok ⟨t.nanos + d.nanos, h⟩ else .error .overflow

@[ext] theorem ext {a b : Instant} (h : a.nanos = b.nanos) : a = b := by
  cases a; cases b; cases h; rfl

/-- Instants are added up exactly, where the clock gets to the sum. -/
theorem add_eq_ok_iff {t u : Instant} {d : Duration} :
    t.add d = .ok u ↔ u.nanos = t.nanos + d.nanos := by
  unfold add
  split
  case isTrue h => exact ⟨fun heq => (by cases heq; rfl), fun heq => congrArg _ (ext heq.symm)⟩
  case isFalse h => exact ⟨fun heq => (by cases heq), fun heq => absurd (heq ▸ u.nanos_lt) h⟩

end Instant

end StagedLoad
