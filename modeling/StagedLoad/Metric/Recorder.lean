import StagedLoad.Metric.Sample

/-!
# The recorder

Every writer records its samples into a shard of its own; a shared shard takes the
samples of those who have none.  A snapshot lists all samples shard by shard: the
shared one first, then the others in the order in which they were opened.

## Main definitions

* `Recorder` — the shards and the running totals.
* `Recorder.openShard`, `Recorder.record`, `Recorder.snapshot` — its operations.
-/

namespace StagedLoad

/-- The samples recorded so far. -/
structure Recorder where
  /-- The samples of writers without a shard. -/
  shared : Array Sample := #[]
  /-- The samples of every writer with a shard, in the order in which shards were opened. -/
  shards : Array (Array Sample) := #[]
  /-- How many samples were recorded. -/
  recorded : Nat := 0
  /-- How many of them did not succeed. -/
  failed : Nat := 0
  deriving Inhabited

namespace Recorder

/-- A recorder without samples. -/
def empty : Recorder := {}

/-- Opens a shard; its number is the number of shards before. -/
def openShard (r : Recorder) : Recorder := { r with shards := r.shards.push #[] }

/-- Counts a sample in the totals. -/
def observe (r : Recorder) (s : Sample) : Recorder :=
  { r with recorded := r.recorded + 1, failed := if s.success then r.failed else r.failed + 1 }

/-- Records a sample into the shared shard. -/
def recordShared (r : Recorder) (s : Sample) : Recorder :=
  { r.observe s with shared := r.shared.push s }

/-- Records a sample into a shard that has been opened. -/
def record (r : Recorder) (shard : Nat) (s : Sample) : Recorder :=
  { r.observe s with shards := r.shards.modify shard fun a => a.push s }

/-- All samples, shard by shard. -/
def snapshot (r : Recorder) : List Sample :=
  r.shared.toList ++ r.shards.toList.flatMap Array.toList

end Recorder

end StagedLoad
