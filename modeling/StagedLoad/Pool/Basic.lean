import StagedLoad.Metric.Recorder
import StagedLoad.Workload

/-!
# The pool of virtual users

A pool keeps as many virtual users alive as it is told to.  A user waits for the start,
then invokes the workload, records a sample, and pauses, over and over.  Between iterations
it leaves if it has been retired or if the pool has been stopped; an invocation is never
cut short.

Users that have left stay in a queue until the pool looks after them; one that crashed makes
that a fault.

## Main definitions

* `VirtualUser`, `Activity` — a user, and what it is doing.
* `Pool` — the users, their recorder, and the clock.
* `VirtualUser.advance` — what a user does when its time has come.
* `Pool.reconcile`, `Pool.start`, `Pool.stop`, `Pool.reap` — the operations of its owner.
-/

namespace StagedLoad

/-- What a virtual user is doing. -/
inductive Activity
  /-- It waits for the start. -/
  | waiting
  /-- It invokes the workload. -/
  | invoking (context : IterationContext) (invocation : Invocation)
  /-- It pauses until a time. -/
  | thinking (until_ : Nat)
  deriving DecidableEq, Repr, Inhabited

/-- A virtual user that has not left. -/
structure VirtualUser where
  /-- Its number, counted from one. -/
  id : Nat
  /-- Its shard of the recorder. -/
  shard : Nat
  /-- Whether it has been told to leave. -/
  retired : Bool
  /-- How many iterations it has recorded. -/
  iteration : Nat
  /-- What it is doing. -/
  activity : Activity
  deriving DecidableEq, Repr, Inhabited

/-- A virtual user that has left. -/
structure Departure where
  /-- Its number. -/
  id : Nat
  /-- What brought it down, if its workload did. -/
  cause : Option String
  deriving DecidableEq, Repr, Inhabited

/-- What can be wrong with a pool. -/
inductive PoolFault
  /-- A workload brought a virtual user down, and this is said of it. -/
  | crash (cause : String)
  /-- More users are alive than have not left. -/
  | missing (live running : Nat)
  deriving DecidableEq, Repr

/-- The wording of a fault. -/
def PoolFault.message : PoolFault → String
  | crash cause => "scheduler fault: virtual user panicked: " ++ cause
  | missing live running =>
    "scheduler fault: " ++ toString live ++ " live virtual users but only " ++
      toString running ++ " running"

/-- A pool whose workload has a state of type `σ`. -/
structure Pool (σ : Type) where
  /-- What the users do. -/
  workload : Workload σ
  /-- The state of the workload. -/
  state : σ
  /-- How long users pause unless an outcome says otherwise. -/
  thinkTime : Duration
  /-- Where samples go. -/
  recorder : Recorder := Recorder.empty
  /-- The users that have not left, in the order in which they came. -/
  users : List VirtualUser := []
  /-- The users that have left and not been looked after, in the order in which they left. -/
  departures : List Departure := []
  /-- The numbers of the users that have not been told to retire. -/
  live : List Nat := []
  /-- Whether users may begin. -/
  started : Bool := false
  /-- Whether users have to leave. -/
  stopped : Bool := false
  /-- The number of the next user. -/
  nextId : Nat := 1
  /-- The greatest number of live users so far. -/
  peak : Nat := 0
  /-- The time in milliseconds since the run started. -/
  now : Nat := 0

namespace VirtualUser

/-- Whether a user leaves when it is between iterations. -/
def mustLeave (stopped : Bool) (u : VirtualUser) : Bool := stopped || u.retired

/-- When a user has something to do next, if ever. -/
def due? (started stopped : Bool) (now : Nat) (u : VirtualUser) : Option Nat :=
  match u.activity with
  | .waiting => if started || stopped then some now else none
  | .invoking c i => some (c.elapsed + i.takes)
  | .thinking t => some (if u.mustLeave stopped then now else t)

end VirtualUser

namespace Pool

variable {σ : Type}

/-- How many users have not been looked after since they left, or have not left. -/
def running (p : Pool σ) : Nat := p.users.length + p.departures.length

/-! ### What users do -/

/-- Changes the user with a number. -/
def setUser (u : VirtualUser) (l : List VirtualUser) : List VirtualUser :=
  l.map fun v => if v.id = u.id then u else v

/-- A user leaves, of itself or because something brought it down. -/
def depart (p : Pool σ) (u : VirtualUser) (cause : Option String) : Pool σ :=
  { p with
    users := p.users.filter fun v => v.id != u.id
    departures := p.departures ++ [⟨u.id, cause⟩] }

/-- A user between iterations leaves, if it has to, or invokes the workload. -/
def beginIteration (p : Pool σ) (u : VirtualUser) : Pool σ :=
  if u.mustLeave p.stopped then p.depart u none
  else
    let c : IterationContext := { user := u.id, iteration := u.iteration, elapsed := p.now }
    let (i, state) := p.workload.invoke c p.state
    { p with state, users := setUser { u with activity := .invoking c i } p.users }

/-- An invocation of a user ends: it is recorded, and the user pauses or leaves. -/
def endIteration (p : Pool σ) (u : VirtualUser) (c : IterationContext) (i : Invocation) : Pool σ :=
  match Sample.ofInvocation? c i with
  | none => p.depart u i.ending.cause?
  | some sample =>
    let p := { p with recorder := p.recorder.record u.shard sample }
    let u := { u with
      iteration := u.iteration + 1
      activity := .thinking (p.now + (i.ending.thinkTime p.thinkTime).startedMillis) }
    -- who has to leave does so at once and does not pause first
    if u.mustLeave p.stopped then p.depart u none
    else { p with users := setUser u p.users }

/-- A user does what is due. -/
def act (p : Pool σ) (u : VirtualUser) : Pool σ :=
  match u.activity with
  | .waiting => p.beginIteration u
  | .thinking _ => p.beginIteration u
  | .invoking c i => p.endIteration u c i

/-! ### What the owner does -/

/-- A user comes. -/
def spawn (p : Pool σ) : Pool σ :=
  { p with
    recorder := p.recorder.openShard
    users := p.users ++ [{
      id := p.nextId
      shard := p.recorder.shards.size
      retired := false
      iteration := 0
      activity := .waiting }]
    live := p.live ++ [p.nextId]
    nextId := p.nextId + 1 }

/-- Some users come. -/
def spawnMany : Nat → Pool σ → Pool σ
  | 0, p => p
  | n + 1, p => spawnMany n p.spawn

/-- All but the oldest live users are told to leave. -/
def retireBeyond (p : Pool σ) (keep : Nat) : Pool σ :=
  let retiring := p.live.drop keep
  { p with
    users := p.users.map fun u => if retiring.contains u.id then { u with retired := true } else u
    live := p.live.take keep }

/-- Users may begin. -/
def start (p : Pool σ) : Pool σ := { p with started := true }

/-- Users have to leave. -/
def stop (p : Pool σ) : Pool σ := { p with started := true, stopped := true }

/-- Looks after departures up to the first crash, and tells the cause of it. -/
def reapDepartures : List Departure → Option String × List Departure
  | [] => (none, [])
  | d :: rest =>
    match d.cause with
    | some cause => (some cause, rest)
    | none => reapDepartures rest

/-- Looks after the users that have left.  There is a fault if one crashed, or if more users
are alive than have not left. -/
def reap (p : Pool σ) : Pool σ × Option PoolFault :=
  let (cause, departures) := reapDepartures p.departures
  let p := { p with departures }
  match cause with
  | some cause => (p, some (.crash cause))
  | none =>
    if p.running < p.live.length then (p, some (.missing p.live.length p.running))
    else (p, none)

/-- Brings the number of live users to a target. -/
def resize (p : Pool σ) (target : Nat) : Pool σ :=
  let p := if target < p.live.length then p.retireBeyond target
    else spawnMany (target - p.live.length) p
  { p with peak := max p.peak p.live.length }

/-- Looks after the users that have left and, if that shows no fault, brings the number of
live users to a target.  A stopped pool stays as it is. -/
def reconcile (p : Pool σ) (target : Nat) : Pool σ × Option PoolFault :=
  match p.reap with
  | (p, some fault) => (p, some fault)
  | (p, none) => (if p.stopped then p else p.resize target, none)

/-- Stops the pool for good and gives up its users. -/
def abandon (p : Pool σ) : Pool σ := { p.stop with live := [] }

/-- Looks after the departures of an abandoned pool that everyone has left.  Of several crashes
the first one counts. -/
def settle (p : Pool σ) : Pool σ × Option PoolFault :=
  ({ p with departures := [] }, (p.departures.findSome? Departure.cause).map .crash)

end Pool

end StagedLoad
