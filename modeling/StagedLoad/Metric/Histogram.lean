import StagedLoad.Metric.Percentile
import StagedLoad.Metric.Scalar
import StagedLoad.Table

/-!
# Histograms with three significant digits

A histogram counts microseconds in slots whose width grows with the value: up to
2047 every value has a slot of its own, then 1024 slots cover the values up to the
next power of two, over and over.  A slot is never wider than a thousandth of its
values.  A value that is beyond the last slot counts as the greatest of the range.

## Main definitions

* `Histogram.slotOf`, `Histogram.slotEnd` — the slot of a value, and the greatest
  value of a slot.
* `Histogram.slotInRange` — the slot in which a value is counted.
* `Histogram` — how many values each slot holds.
* `Histogram.valueAt` — the value below which a share of all values lies.
-/

namespace StagedLoad

/-- How many values each slot holds; slots that hold none are not listed. -/
structure Histogram where
  /-- The counts by slot. -/
  counts : Table Nat Nat

namespace Histogram

/-- The number of values that have slots of their own. -/
def fineValues : Nat := 2048

/-- Half of `fineValues`: the slots between two powers of two. -/
def slotsPerOctave : Nat := 1024

/-- The power of two by which the slot of a value is wider than one. -/
def octave (value : Nat) : Nat := Nat.log2 (value ||| (fineValues - 1)) - 10

/-- The slot of a value, were the range unlimited. -/
def slotOf (value : Nat) : Nat :=
  let o := octave value
  o * slotsPerOctave + value / Nat.pow 2 o

/-- The greatest value whose slot is the given one. -/
def slotEnd (slot : Nat) : Nat :=
  if slot < fineValues then slot
  else
    let o := slot / slotsPerOctave - 1
    (slot % slotsPerOctave + slotsPerOctave + 1) * Nat.pow 2 o - 1

/-- The greatest value of the range: an hour of microseconds. -/
def greatest : Nat := 3600000000

/-- The last slot: it ends at `2 ^ 32 - 1`, the first end of an octave after `greatest`. -/
def lastSlot : Nat := 23 * slotsPerOctave - 1

/-- The slot in which a value is counted. -/
def slotInRange (value : Nat) : Nat :=
  if slotOf value ≤ lastSlot then slotOf value else slotOf greatest

/-- The histogram without values. -/
def empty : Histogram := ⟨Table.empty⟩

/-- Counts a value. -/
def record (h : Histogram) (value : Nat) : Histogram :=
  ⟨h.counts.update (slotInRange value) fun n => n.getD 0 + 1⟩

/-- How many values were counted. -/
def total (h : Histogram) : Nat := h.counts.values.foldl (· + ·) 0

/-- Walks the slots in ascending order until `rank` values have been passed. -/
def walk (rank seen : Nat) : List (Nat × Nat) → Option Nat
  | [] => none
  | (slot, n) :: rest => if rank ≤ seen + n then some (slotEnd slot) else walk rank (seen + n) rest

/-- The greatest value of the slot that holds the value of a rank, counted from one. -/
def valueAtRank (h : Histogram) (rank : Nat) : Nat := (walk rank 0 h.counts.entries).getD 0

/-- The rank of a share of `n` values: at least the first. -/
def rankOf {α : Type} [Scalar α] (share : α) (n : Nat) : Nat :=
  max 1 (Scalar.ceil (share * Scalar.ofNat n))

/-- The value below or at which a share of all values lies. -/
def valueAt {α : Type} [Scalar α] (h : Histogram) (share : α) : Nat :=
  h.valueAtRank (rankOf share h.total)

end Histogram

end StagedLoad
