import StagedLoad.Pool.Basic

/-!
# A pool in time

The users of a pool act one after the other, always one of those that are due first.

## Main definitions

* `Pool.next?` — the user that is due first, and when.
* `Pool.step?` — the pool after it has acted, if it is due by a given time.
* `Pool.advance?`, `Pool.wait?` — the pool at a given time.
* `Pool.drain?` — the pool after everyone has left.
-/

namespace StagedLoad.Pool

variable {σ : Type}

/-- The earlier of two users that are due, the first one if they are due at the same time. -/
def earlier (a b : Option (Nat × VirtualUser)) : Option (Nat × VirtualUser) :=
  match a, b with
  -- of two at the same time the older one goes first
  | some x, some y => if y.1 < x.1 then some y else some x
  | some x, none => some x
  | none, b => b

/-- The user that is due first, and when. -/
def next? (p : Pool σ) : Option (Nat × VirtualUser) :=
  (p.users.map fun u => (u.due? p.started p.stopped p.now).map fun t => (t, u)).foldl earlier none

/-- Lets the user act that is due first. -/
def actAt (p : Pool σ) (time : Nat) (u : VirtualUser) : Pool σ :=
  { p with now := max p.now time }.act u

/-- Lets the user act that is due first, if it is due by the limit. -/
def stepWithin? (limit : Nat) (p : Pool σ) : Option (Pool σ) :=
  match p.next? with
  | some (t, u) => if t ≤ limit then some (p.actAt t u) else none
  | none => none

/-- Lets the user act that is due first. -/
def step? (p : Pool σ) : Option (Pool σ) := p.next?.map fun (t, u) => p.actAt t u

/-- Lets users act until none is due by the limit; then the limit has come.  At most `fuel`
of them act. -/
def advance? (p : Pool σ) (limit : Nat) : (fuel : Nat) → Option (Pool σ)
  | 0 => none
  | fuel + 1 =>
    match p.stepWithin? limit with
    | some p => advance? p limit fuel
    | none => some { p with now := max p.now limit }

/-- Lets some time pass, a started millisecond in full.  Without any time nobody acts. -/
def wait? (fuel : Nat) (p : Pool σ) (d : Duration) : Option (Pool σ) :=
  if d.isZero then some p else p.advance? (p.now + d.startedMillis) fuel

/-- Lets users act until none is due.  At most `fuel` of them act. -/
def exhaust? : (fuel : Nat) → Pool σ → Option (Pool σ)
  | 0, _ => none
  | fuel + 1, p =>
    match p.step? with
    | some p => exhaust? fuel p
    | none => some p

/-- Stops the pool, waits until everyone has left, and looks after them. -/
def drain? (fuel : Nat) (p : Pool σ) : Option (Pool σ × Option PoolFault) :=
  (exhaust? fuel p.abandon).map settle

end StagedLoad.Pool
