import StagedLoad.Proofs.Pool.Move

/-!
# What the owner of a pool can do

The owner of a pool brings the number of live users to a target, lets them begin, tells them to
leave, waits until everyone has left, or lets some time pass, in any order.

## Main definitions

* `Pool.Command` — what the owner can do.
* `Pool.perform?`, `Pool.performAll?` — the pool after the owner has done one thing, or several.

## Main results

* `course_perform?`, `course_performAll?` — whatever the owner does is a course.
-/

namespace StagedLoad.Pool

variable {σ : Type}

/-- What the owner of a pool can do. -/
inductive Command
  /-- It brings the number of live users to a target. -/
  | reconcile (target : Nat)
  /-- It lets users begin. -/
  | start
  /-- It tells users to leave. -/
  | stop
  /-- It waits until everyone has left. -/
  | drain
  /-- It lets some time pass. -/
  | wait (d : Duration)
  deriving DecidableEq, Repr

/-- A pool after its owner has done something; users act at most `fuel` times. -/
def perform? (fuel : Nat) (p : Pool σ) : Command → Option (Pool σ)
  | .reconcile target => some (p.reconcile target).1
  | .start => some p.start
  | .stop => some p.stop
  | .drain => (p.drain? fuel).map Prod.fst
  | .wait d => p.wait? fuel d

/-- A pool after its owner has done one thing after the other. -/
def performAll? (fuel : Nat) (commands : List Command) (p : Pool σ) : Option (Pool σ) :=
  commands.foldlM (perform? fuel) p

theorem course_perform? {fuel : Nat} {p q : Pool σ} {command : Command}
    (h : p.perform? fuel command = some q) : Course p q := by
  cases command with
  | reconcile target => cases h; exact course_reconcile p target
  | start => cases h; exact .single .start
  | stop => cases h; exact .single .stop
  | drain =>
    obtain ⟨⟨q, fault⟩, hdrain, rfl⟩ := Option.map_eq_some_iff.1 h
    exact course_drain? hdrain
  | wait d => exact (progress_wait? h).course

theorem course_performAll? {fuel : Nat} {p q : Pool σ} {commands : List Command}
    (h : p.performAll? fuel commands = some q) : Course p q := by
  induction commands generalizing p with
  | nil => cases h; exact .refl
  | cons command rest ih =>
    obtain ⟨r, hr, hrest⟩ := Option.bind_eq_some_iff.1 h
    exact (course_perform? hr).trans (ih hrest)

end StagedLoad.Pool
