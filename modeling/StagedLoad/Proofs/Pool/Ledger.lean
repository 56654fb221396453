import StagedLoad.Proofs.Pool.Command
import StagedLoad.Proofs.Pool.Drain
import StagedLoad.Proofs.Pool.Resize
import StagedLoad.Proofs.Pool.Users

/-!
# The ledger of a pool

Whoever watches a pool from the beginning can write down the numbers of the users that come,
and after each reconciliation that finds no fault how many users are alive.  The numbers are
one, two, three and so on, and the greatest of the counts is the peak, whatever the owner of
the pool does in between and wherever its users are when it does so.

## Main definitions

* `Pool.Deed`, `Pool.Chronicle` — what can happen to a pool, and a ledger of it.
* `Command.noteAll?` — the ledger of what the owner of a pool does.
* `Pool.Orderly` — what a ledger says about the pool.

## Main results

* `Numbered.deed` — the numbers go on as they began.
* `orderly_of_chronicle` — every pool with a ledger is orderly, and whatever the owner of a pool
  does has a ledger.
-/

namespace StagedLoad.Pool

variable {σ : Type}

/-- What has been seen of a pool. -/
structure Ledger where
  /-- The numbers of the users that came, in the order in which they came. -/
  came : List Nat := []
  /-- How many users were alive after each reconciliation that found no fault. -/
  counts : List Nat := []
  deriving DecidableEq, Repr

/-- The numbers of the users that are there afterwards and were not there before. -/
def newcomers (before after : Pool σ) : List Nat :=
  (after.users.map VirtualUser.id).filter fun id => id ∉ before.users.map VirtualUser.id

/-- Writes down who has come, and how many users are alive if that has been looked at. -/
def Ledger.note (l : Ledger) (before after : Pool σ) (count : Option Nat) : Ledger where
  came := l.came ++ newcomers before after
  counts := l.counts ++ count.toList

/-- One thing that happens to a pool.  If it is a reconciliation that finds no fault, the number
of live users is looked at. -/
inductive Deed : Pool σ → Pool σ → Option Nat → Prop
  /-- The number of live users has been brought to a target. -/
  | reconcile {p q : Pool σ} {target : Nat} (done : p.reconcile target = (q, none)) :
      Deed p q (some q.live.length)
  /-- A fault has been found instead. -/
  | refuse {p q : Pool σ} {target : Nat} {fault : PoolFault}
      (refused : p.reconcile target = (q, some fault)) : Deed p q none
  /-- Users may begin. -/
  | start {p : Pool σ} : Deed p p.start none
  /-- Users have to leave. -/
  | stop {p : Pool σ} : Deed p p.stop none
  /-- Draining begins. -/
  | abandon {p : Pool σ} : Deed p p.abandon none
  /-- Draining ends when everyone has left. -/
  | settle {p : Pool σ} (stopped : p.stopped = true) (gone : p.users = []) :
      Deed p p.settle.1 none
  /-- A user goes on, or time passes. -/
  | tick {p q : Pool σ} (tick : Tick p q) : Deed p q none

/-- A pool to which one thing happened after the other, and the ledger of it. -/
inductive Chronicle (fresh : Pool σ) : Ledger → Pool σ → Prop
  /-- Nothing has happened. -/
  | nothing : Chronicle fresh {} fresh
  /-- Something more has happened. -/
  | deed {l : Ledger} {p q : Pool σ} {count : Option Nat} (before : Chronicle fresh l p)
      (deed : Deed p q count) : Chronicle fresh (l.note p q count) q

/-! ### Ledgers of what the owner does -/

section Owner

variable {fresh p q : Pool σ} {l : Ledger} {u : VirtualUser}

theorem newcomers_eq_nil
    (h : ∀ id ∈ q.users.map VirtualUser.id, id ∈ p.users.map VirtualUser.id) :
    newcomers p q = [] := by
  rw [newcomers, List.filter_eq_nil_iff]
  intro id hid
  simpa using h id hid

theorem Ledger.note_of_newcomers_eq_nil (h : newcomers p q = []) : l.note p q none = l := by
  rw [note, h]
  simp

/-- Who is there after a user has acted was there before, with the same number and the same
mark. -/
theorem mem_users_act (hu : u ∈ p.users) {v : VirtualUser} (hv : v ∈ (p.act u).users) :
    ∃ w ∈ p.users, w.id = v.id ∧ w.retired = v.retired := by
  have hstay : ∀ w ∈ p.users, ∃ x ∈ p.users, x.id = w.id ∧ x.retired = w.retired :=
    fun w hw => ⟨w, hw, rfl, rfl⟩
  have hacts := acts_act p u
  generalize p.act u = q at hacts hv
  cases hacts with
  | leave | crash | finish => exact hstay v (List.mem_filter.1 hv).1
  | begin | pause =>
    rcases mem_setUser hv with rfl | hv
    · exact ⟨u, hu, rfl, rfl⟩
    · exact hstay v hv

/-- While the owner of a pool does nothing, nobody comes. -/
theorem Tick.mem_users (h : Tick p q) {v : VirtualUser} (hv : v ∈ q.users) :
    ∃ w ∈ p.users, w.id = v.id ∧ w.retired = v.retired := by
  cases h with
  | act mem => exact mem_users_act mem hv
  | pass => exact ⟨v, hv, rfl, rfl⟩

theorem Tick.newcomers_eq_nil (h : Tick p q) : newcomers p q = [] := by
  apply Pool.newcomers_eq_nil
  intro id hid
  obtain ⟨v, hv, rfl⟩ := List.mem_map.1 hid
  obtain ⟨w, hw, hid, -⟩ := h.mem_users hv
  exact List.mem_map.2 ⟨w, hw, hid⟩

theorem Progress.newcomers_eq_nil (h : Progress p q) : newcomers p q = [] := by
  apply Pool.newcomers_eq_nil
  induction h with
  | refl => exact fun _ hid => hid
  | tail _ hlast ih =>
    intro id hid
    obtain ⟨v, hv, rfl⟩ := List.mem_map.1 hid
    obtain ⟨w, hw, hid, -⟩ := hlast.mem_users hv
    exact hid ▸ ih w.id (List.mem_map_of_mem hw)

/-- While the owner of a pool does nothing, there is nothing to be written down. -/
theorem Chronicle.progress (h : Chronicle fresh l p) (hp : Progress p q) :
    Chronicle fresh l q := by
  induction hp with
  | refl => exact h
  | tail _ hlast ih =>
    have hdeed := Chronicle.deed ih (.tick hlast)
    rwa [Ledger.note_of_newcomers_eq_nil hlast.newcomers_eq_nil] at hdeed

/-- Draining a pool is done in one go or in between other things, and the ledger is the same. -/
theorem Chronicle.drain {fuel : Nat} {fault : Option PoolFault} (h : Chronicle fresh l p)
    (hdrain : p.drain? fuel = some (q, fault)) : Chronicle fresh l q ∧ q.users = [] := by
  obtain ⟨r, hr, hsettle⟩ := Option.map_eq_some_iff.1 hdrain
  have hq : q = r.settle.1 := by rw [hsettle]
  subst hq
  have hstopped : r.stopped = true := (course_exhaust? hr).stopped rfl
  have hgone : r.users = [] := users_eq_nil_of_next?_eq_none hstopped (next?_of_exhaust? hr)
  -- nobody comes when draining begins, while users leave, nor when it ends
  have hbegin : newcomers p p.abandon = [] := newcomers_eq_nil fun _ hid => hid
  have hend : newcomers r r.settle.1 = [] := newcomers_eq_nil fun _ hid => hid
  have habandon := Chronicle.deed h .abandon
  rw [Ledger.note_of_newcomers_eq_nil hbegin] at habandon
  have hleft := habandon.progress (progress_exhaust? hr)
  have hsettled := hleft.deed (.settle hstopped hgone)
  rw [Ledger.note_of_newcomers_eq_nil hend] at hsettled
  exact ⟨hsettled, hgone⟩

/-- How many users are alive after what the owner of a pool does, if that is a reconciliation
that finds no fault. -/
def Command.count? (p : Pool σ) : Command → Option Nat
  | .reconcile target =>
    match p.reconcile target with
    | (q, none) => some q.live.length
    | (_, some _) => none
  | _ => none

/-- Does something with a pool and writes it down. -/
def Command.note? (fuel : Nat) (e : Ledger × Pool σ) (command : Command) :
    Option (Ledger × Pool σ) :=
  (e.2.perform? fuel command).map fun q => (e.1.note e.2 q (command.count? e.2), q)

/-- Does one thing after the other with a pool and writes it down. -/
def Command.noteAll? (fuel : Nat) (commands : List Command) (e : Ledger × Pool σ) :
    Option (Ledger × Pool σ) :=
  commands.foldlM (Command.note? fuel) e

/-- What is written down is a ledger. -/
theorem Chronicle.note? {fuel : Nat} {command : Command} {e : Ledger × Pool σ}
    (h : Chronicle fresh l p) (hnote : Command.note? fuel (l, p) command = some e) :
    Chronicle fresh e.1 e.2 := by
  obtain ⟨q, hq, rfl⟩ := Option.map_eq_some_iff.1 hnote
  dsimp only at hq ⊢
  cases command with
  | reconcile target =>
    cases hq
    dsimp only [Command.count?]
    split
    case h_1 r hdone => rw [hdone]; exact h.deed (.reconcile hdone)
    case h_2 r fault hrefused => rw [hrefused]; exact h.deed (.refuse hrefused)
  | start => cases hq; exact h.deed .start
  | stop => cases hq; exact h.deed .stop
  | drain =>
    obtain ⟨⟨q, fault⟩, hdrain, rfl⟩ := Option.map_eq_some_iff.1 hq
    obtain ⟨hq, hgone⟩ := h.drain hdrain
    have hnone : newcomers p q = [] := newcomers_eq_nil (by simp [hgone])
    change Chronicle fresh (l.note p q none) q
    rwa [Ledger.note_of_newcomers_eq_nil hnone]
  | wait d =>
    have hprogress := progress_wait? hq
    change Chronicle fresh (l.note p q none) q
    rw [Ledger.note_of_newcomers_eq_nil hprogress.newcomers_eq_nil]
    exact h.progress hprogress

theorem chronicle_of_noteAll? {fuel : Nat} {commands : List Command} {e : Ledger × Pool σ}
    (h : Chronicle fresh l p) (hnote : Command.noteAll? fuel commands (l, p) = some e) :
    Chronicle fresh e.1 e.2 := by
  induction commands generalizing l p with
  | nil => cases hnote; exact h
  | cons command rest ih =>
    obtain ⟨e', he', hrest⟩ := Option.bind_eq_some_iff.1 hnote
    exact ih (h.note? he') hrest

/-- Whatever the owner of a pool does can be written down, and that is a ledger. -/
theorem Chronicle.noteAll? {fuel : Nat} {commands : List Command} (h : Chronicle fresh l p)
    (hq : p.performAll? fuel commands = some q) :
    ∃ l', Command.noteAll? fuel commands (l, p) = some (l', q) ∧ Chronicle fresh l' q := by
  obtain ⟨l', hl'⟩ : ∃ l', Command.noteAll? fuel commands (l, p) = some (l', q) := by
    clear h
    induction commands generalizing l p with
    | nil => cases hq; exact ⟨l, rfl⟩
    | cons command rest ih =>
      obtain ⟨r, hr, hrest⟩ := Option.bind_eq_some_iff.1 hq
      obtain ⟨l', hl'⟩ := ih (l := l.note p r (command.count? p)) hrest
      refine ⟨l', ?_⟩
      rw [Command.noteAll?, List.foldlM_cons, Command.note?, hr]
      exact hl'
  exact ⟨l', hl', chronicle_of_noteAll? h hl'⟩

end Owner

/-! ### Numbers -/

/-- The numbers of a pool and its ledger agree. -/
structure Numbered (p : Pool σ) (l : Ledger) : Prop where
  /-- Users are numbered and have their shards. -/
  valid : p.Valid
  /-- The numbers have been given out one after the other. -/
  came : l.came = List.range' 1 l.came.length
  /-- The next number is the next one. -/
  next : p.nextId = l.came.length + 1
  /-- Whoever is alive has come. -/
  alive : ∀ id ∈ p.live, id ∈ l.came
  /-- The peak is the greatest of the counts. -/
  peak : p.peak = l.counts.foldl max 0
  /-- It has not been passed. -/
  crest : p.live.length ≤ p.peak
  /-- Until users have to leave, those that are told to leave are the ones that are not alive. -/
  marked : p.stopped = false → ∀ u ∈ p.users, u.retired = true ↔ u.id ∉ p.live

variable {p q : Pool σ} {l : Ledger} {count : Option Nat} {target : Nat}

theorem Deed.course (h : Deed p q count) : Course p q := by
  cases h with
  | @reconcile _ target done =>
    have hcourse := course_reconcile p target
    rwa [done] at hcourse
  | @refuse _ target _ refused =>
    have hcourse := course_reconcile p target
    rwa [refused] at hcourse
  | start => exact .single .start
  | stop => exact .single .stop
  | abandon => exact course_abandon p
  | settle => exact .single (move_settle p)
  | tick tick => exact .single tick.move

/-- The numbers of a pool still agree with its ledger after something by which nobody comes, and
by which nobody is told to live or to leave. -/
theorem Numbered.of_frame (h : p.Numbered l) (hvalid : q.Valid) (hnext : q.nextId = p.nextId)
    (hpeak : q.peak = p.peak) (hlive : q.live.Sublist p.live)
    (husers : ∀ v ∈ q.users, ∃ w ∈ p.users, w.id = v.id ∧ w.retired = v.retired)
    (hgoing : q.stopped = false → p.stopped = false ∧ q.live = p.live) :
    q.Numbered (l.note p q none) := by
  have hnone : newcomers p q = [] := by
    apply newcomers_eq_nil
    intro id hid
    obtain ⟨v, hv, rfl⟩ := List.mem_map.1 hid
    obtain ⟨w, hw, hwv, -⟩ := husers v hv
    exact List.mem_map.2 ⟨w, hw, hwv⟩
  rw [Ledger.note_of_newcomers_eq_nil hnone]
  refine ⟨hvalid, h.came, hnext.trans h.next, ?_, hpeak.trans h.peak, ?_, ?_⟩
  · intro id hid
    exact h.alive id (hlive.subset hid)
  · rw [hpeak]
    exact Nat.le_trans hlive.length_le h.crest
  · intro hq v hv
    obtain ⟨hp, hsame⟩ := hgoing hq
    obtain ⟨w, hw, hwv, hmark⟩ := husers v hv
    rw [hsame, ← hwv, ← hmark]
    exact h.marked hp w hw

/-- Looking after departures changes no number. -/
theorem Numbered.tend (h : p.Numbered l) (departures : List Departure) :
    ({ p with departures } : Pool σ).Numbered l where
  valid := { h.valid with }
  came := h.came
  next := h.next
  alive := h.alive
  peak := h.peak
  crest := h.crest
  marked := h.marked

/-- A count that is not beyond the peak leaves it where it is. -/
theorem Numbered.note_count (h : p.Numbered l) :
    p.Numbered { l with counts := l.counts ++ [p.live.length] } where
  valid := h.valid
  came := h.came
  next := h.next
  alive := h.alive
  peak := by
    rw [List.foldl_append, ← h.peak]
    exact (Nat.max_eq_left h.crest).symm
  crest := h.crest
  marked := h.marked

/-- The users that come when a pool grows are those behind the ones that were there. -/
theorem newcomers_append {added : List VirtualUser} {n : Nat} (hp : p.Valid)
    (husers : q.users = p.users ++ added)
    (hadded : added.map VirtualUser.id = List.range' p.nextId n) :
    newcomers p q = List.range' p.nextId n := by
  have hold : (p.users.map VirtualUser.id).filter
      (fun id => id ∉ p.users.map VirtualUser.id) = [] := by
    rw [List.filter_eq_nil_iff]
    intro id hid
    simpa using hid
  have hnew : (List.range' p.nextId n).filter
      (fun id => id ∉ p.users.map VirtualUser.id) = List.range' p.nextId n := by
    rw [List.filter_eq_self]
    intro id hid
    have hle := (List.mem_range'_1.1 hid).1
    rw [decide_eq_true_eq]
    intro hmem
    obtain ⟨u, hu, rfl⟩ := List.mem_map.1 hmem
    have := (hp.numbered u hu).2
    omega
  rw [newcomers, husers, List.map_append, hadded, List.filter_append, hold, hnew,
    List.nil_append]

/-- Growing goes on with the next numbers. -/
theorem Numbered.grow (h : p.Numbered l) (hgoing : p.stopped = false)
    (hle : p.live.length ≤ target) (hvalid : (p.resize target).Valid) :
    (p.resize target).Numbered (l.note p (p.resize target) (some target)) := by
  obtain ⟨recorder, added, heq, -, hadded, hstay⟩ := resize_of_le hle
  have hnew := newcomers_append h.valid (q := p.resize target) (by rw [heq]) hadded
  have hlength : (l.note p (p.resize target) (some target)).came.length =
      l.came.length + (target - p.live.length) := by
    rw [Ledger.note, hnew, List.length_append, List.length_range']
  refine ⟨hvalid, ?_, ?_, ?_, ?_, ?_, ?_⟩
  · rw [hlength]
    dsimp only [Ledger.note]
    rw [hnew, h.came, h.next, List.length_range', Nat.add_comm l.came.length 1]
    exact List.range'_append_1
  · rw [hlength, heq]
    have := h.next
    dsimp only
    omega
  · intro id hid
    rw [heq] at hid
    dsimp only [Ledger.note]
    rw [hnew, List.mem_append]
    exact (List.mem_append.1 hid).imp_left (h.alive id)
  · rw [heq, Ledger.note, List.foldl_append, ← h.peak]
    rfl
  · rw [heq]
    simp only [List.length_append, List.length_range']
    omega
  · intro _ u hu
    rw [heq] at hu ⊢
    dsimp only at hu ⊢
    rw [List.mem_append, not_or]
    rcases List.mem_append.1 hu with hu | hu
    · -- who was there before has a smaller number than those that come
      have hlt := (h.valid.numbered u hu).2
      rw [h.marked hgoing u hu]
      refine (and_iff_left ?_).symm
      intro hmem
      have := (List.mem_range'_1.1 hmem).1
      omega
    · have hmem : u.id ∈ List.range' p.nextId (target - p.live.length) :=
        hadded ▸ List.mem_map_of_mem hu
      simp [hstay u hu, hmem]

/-- Those are told to leave whose numbers are not among the ones that stay. -/
theorem Numbered.marked_retireBeyond (h : p.Numbered l) (hgoing : p.stopped = false)
    {u : VirtualUser} (hu : u ∈ (p.retireBeyond target).users) :
    u.retired = true ↔ u.id ∉ p.live.take target := by
  obtain ⟨v, hv, rfl⟩ := List.mem_map.1 hu
  have hmark := h.marked hgoing v hv
  -- the live numbers are those that stay and those that go, and none is both
  have hsplit : v.id ∈ p.live ↔ v.id ∈ p.live.take target ∨ v.id ∈ p.live.drop target := by
    rw [← List.mem_append, List.take_append_drop]
  have hdisjoint : v.id ∈ p.live.drop target → v.id ∉ p.live.take target := by
    intro hdrop htake
    have hascending := h.valid.live_ascending
    rw [← List.take_append_drop target p.live, List.pairwise_append] at hascending
    exact Nat.lt_irrefl _ (hascending.2.2 _ htake _ hdrop)
  by_cases hdrop : v.id ∈ p.live.drop target
  · rw [if_pos (by simpa using hdrop)]
    simpa using hdisjoint hdrop
  · rw [if_neg (by simpa using hdrop), hmark, hsplit, or_iff_left hdrop]

/-- Shrinking tells those to leave that are no longer alive. -/
theorem Numbered.shrink (h : p.Numbered l) (hgoing : p.stopped = false)
    (hlt : target < p.live.length) (hvalid : (p.resize target).Valid) :
    (p.resize target).Numbered (l.note p (p.resize target) (some target)) := by
  have heq := resize_of_lt hlt
  have hids : (p.resize target).users.map VirtualUser.id = p.users.map VirtualUser.id := by
    rw [heq]
    simp only [retireBeyond, List.map_map]
    apply List.map_congr_left
    intro u _
    dsimp only [Function.comp]
    split <;> rfl
  have hnone : newcomers p (p.resize target) = [] := newcomers_eq_nil fun id hid => hids ▸ hid
  have hcame : (l.note p (p.resize target) (some target)).came = l.came := by
    rw [Ledger.note, hnone, List.append_nil]
  refine ⟨hvalid, by rw [hcame]; exact h.came, by rw [hcame, heq]; exact h.next, ?_, ?_, ?_, ?_⟩
  · intro id hid
    rw [heq] at hid
    rw [hcame]
    exact h.alive id (List.mem_of_mem_take hid)
  · rw [heq, Ledger.note, List.foldl_append, ← h.peak]
    rfl
  · rw [heq]
    simp only [retireBeyond, List.length_take]
    omega
  · intro _ u hu
    rw [heq] at hu ⊢
    exact h.marked_retireBeyond hgoing hu

/-- **The numbers of a pool agree with its ledger**, whatever happens. -/
theorem Numbered.deed (h : p.Numbered l) (hd : Deed p q count) :
    q.Numbered (l.note p q count) := by
  have hvalid := hd.course.valid h.valid
  have hsame : ∀ v ∈ p.users, ∃ w ∈ p.users, w.id = v.id ∧ w.retired = v.retired :=
    fun v hv => ⟨v, hv, rfl, rfl⟩
  cases hd with
  | @reconcile _ target done =>
    obtain ⟨departures, ⟨rfl, hstopped⟩ | ⟨rfl, -, hgoing⟩⟩ := reconcile_cases done
    · -- a stopped pool stays as it is, so its count is not beyond the peak
      have hnone : newcomers p { p with departures } = [] := newcomers_eq_nil fun _ hid => hid
      rw [Ledger.note, hnone, List.append_nil]
      exact (h.tend departures).note_count
    · have htended := h.tend departures
      obtain ⟨_, _, _, _, hresize, -, hlength⟩ :=
        resize_spec ({ p with departures } : Pool σ) target
      have hlive : (({ p with departures } : Pool σ).resize target).live.length = target := by
        rw [hresize]
        exact hlength
      rw [hlive]
      rcases Nat.lt_or_ge target p.live.length with hlt | hle
      · exact htended.shrink hgoing hlt hvalid
      · exact htended.grow hgoing hle hvalid
  | refuse refused =>
    obtain ⟨departures, ⟨rfl, -⟩ | ⟨-, hnone, -⟩⟩ := reconcile_cases refused
    · exact h.of_frame hvalid rfl rfl (List.Sublist.refl _) hsame fun hq => ⟨hq, rfl⟩
    · cases hnone
  | start => exact h.of_frame hvalid rfl rfl (List.Sublist.refl _) hsame fun hq => ⟨hq, rfl⟩
  | stop => exact h.of_frame hvalid rfl rfl (List.Sublist.refl _) hsame fun hq => by cases hq
  | abandon => exact h.of_frame hvalid rfl rfl (List.nil_sublist _) hsame fun hq => by cases hq
  | settle => exact h.of_frame hvalid rfl rfl (List.Sublist.refl _) hsame fun hq => ⟨hq, rfl⟩
  | tick tick =>
    refine h.of_frame hvalid ?_ ?_ ?_ (fun v hv => tick.mem_users hv) ?_ <;>
      cases tick <;> simp

/-- A pool that nobody has come into. -/
def fresh (w : Workload σ) (s : σ) (think : Duration) : Pool σ :=
  { workload := w, state := s, thinkTime := think }

theorem numbered_fresh (w : Workload σ) (s : σ) (think : Duration) :
    (fresh w s think).Numbered {} where
  valid := valid_fresh w s think
  came := rfl
  next := rfl
  alive := by simp [fresh]
  peak := rfl
  crest := Nat.le_refl _
  marked := by simp [fresh]

theorem Numbered.chronicle {p₀ : Pool σ} (h : p₀.Numbered {}) (hc : Chronicle p₀ l p) :
    p.Numbered l := by
  induction hc with
  | nothing => exact h
  | deed _ hd ih => exact ih.deed hd

/-! ### What a ledger says -/

/-- What the ledger of a pool says about it, and what a reconciliation does to such a pool. -/
structure Orderly (p : Pool σ) (l : Ledger) : Prop where
  /-- The live numbers ascend. -/
  ascending : p.live.Pairwise (· < ·)
  /-- Whoever is alive has come. -/
  alive : ∀ id ∈ p.live, id ∈ l.came
  /-- The users that came have the numbers one, two, three and so on, in this order. -/
  came : l.came = List.range' 1 l.came.length
  /-- The next user will have the next number. -/
  next : p.nextId = l.came.length + 1
  /-- The peak is the greatest number of users that were alive after a reconciliation. -/
  peak : p.peak = l.counts.foldl max 0
  /-- Until users have to leave, those that are told to leave are the ones that are not alive. -/
  marked : p.stopped = false → ∀ u ∈ p.users, u.retired = true ↔ u.id ∉ p.live
  /-- Until users have to leave, there are as many live users as asked for. -/
  exact : p.stopped = false → ∀ n q, p.reconcile n = (q, none) → q.live.length = n
  /-- If they are more than before, all that were alive are, those that come have the next
  numbers, and nobody is told to leave. -/
  grows : p.stopped = false → ∀ n q, p.live.length ≤ n → p.reconcile n = (q, none) →
    q.live = p.live ++ List.range' p.nextId (n - p.live.length) ∧
    q.nextId = p.nextId + (n - p.live.length) ∧
    ∃ added, q.users = p.users ++ added ∧
      added.map VirtualUser.id = List.range' p.nextId (n - p.live.length) ∧
      ∀ u ∈ added, u.retired = false
  /-- If they are fewer, those that came first are still alive, and exactly the others are told
  to leave. -/
  shrinks : p.stopped = false → ∀ n q, n < p.live.length → p.reconcile n = (q, none) →
    q.live = p.live.take n ∧ q.nextId = p.nextId ∧
    q.users = p.users.map fun u =>
      if u.id ∈ p.live.drop n then { u with retired := true } else u
  /-- A reconciliation that finds a fault changes no number, no count and no mark. -/
  refuses : ∀ n q fault, p.reconcile n = (q, some fault) →
    q.live = p.live ∧ q.nextId = p.nextId ∧ q.peak = p.peak ∧ q.users = p.users

theorem reconcile_of_going {n : Nat} (hgoing : p.stopped = false)
    (h : p.reconcile n = (q, none)) :
    ∃ departures, q = ({ p with departures } : Pool σ).resize n := by
  obtain ⟨departures, ⟨-, hnot⟩ | ⟨hq, -, -⟩⟩ := reconcile_cases h
  · simp [hgoing] at hnot
  · exact ⟨departures, hq⟩

theorem Numbered.orderly (h : p.Numbered l) : p.Orderly l where
  ascending := h.valid.live_ascending
  alive := h.alive
  came := h.came
  next := h.next
  peak := h.peak
  marked := h.marked
  exact := by
    intro hgoing n q hq
    obtain ⟨departures, rfl⟩ := reconcile_of_going hgoing hq
    obtain ⟨_, _, _, _, heq, -, hlength⟩ := resize_spec ({ p with departures } : Pool σ) n
    rw [heq]
    exact hlength
  grows := by
    intro hgoing n q hle hq
    obtain ⟨departures, rfl⟩ := reconcile_of_going hgoing hq
    obtain ⟨recorder, added, heq, -, hadded, hstay⟩ :=
      resize_of_le (p := { p with departures }) hle
    rw [heq]
    exact ⟨rfl, rfl, added, rfl, hadded, hstay⟩
  shrinks := by
    intro hgoing n q hlt hq
    obtain ⟨departures, rfl⟩ := reconcile_of_going hgoing hq
    rw [resize_of_lt (p := { p with departures }) hlt]
    simp [retireBeyond]
  refuses := by
    intro n q fault hq
    obtain ⟨departures, ⟨rfl, -⟩ | ⟨-, hnone, -⟩⟩ := reconcile_cases hq
    · exact ⟨rfl, rfl, rfl, rfl⟩
    · cases hnone

/-- **Numbers are given out in order, and the peak is the greatest count.**  Whatever the owner
of a pool does can be written down in a ledger, and so can what its users do meanwhile.  Whatever
has been written down, the live numbers ascend, the numbers that were given out are one, two,
three and so on, and the peak is the greatest number of users that were alive after a
reconciliation; and the next reconciliation brings the next users or tells the last ones to
leave, unless it finds a fault, and then it does neither. -/
theorem orderly_of_chronicle (w : Workload σ) (s : σ) (think : Duration) :
    (∀ fuel commands l p q, Chronicle (fresh w s think) l p →
      p.performAll? fuel commands = some q → ∃ l',
        Command.noteAll? fuel commands (l, p) = some (l', q) ∧
        Chronicle (fresh w s think) l' q) ∧
    ∀ l p, Chronicle (fresh w s think) l p → p.Orderly l := by
  refine ⟨?_, ?_⟩
  · intro fuel commands l p q h hq
    exact h.noteAll? hq
  · intro l p h
    exact ((numbered_fresh w s think).chronicle h).orderly

/-- Users whose iterations take a millisecond and who pause for 100 milliseconds. -/
def riseAndFall : Option (Ledger × Pool Unit) :=
  Command.noteAll? 100 [.reconcile 5, .start, .reconcile 2, .wait (Duration.ofMillis 250),
    .reconcile 2, .reconcile 3]
    ({}, fresh ⟨{}, fun _ s => (⟨1, .outcome {}⟩, s)⟩ () (Duration.ofMillis 100))

/-- Five users come, three of them leave again, and the one that comes later is the sixth.  If
there is to be one user only, it is the first. -/
theorem riseAndFall_is_orderly : ∃ l p, riseAndFall = some (l, p) ∧
    l = ⟨[1, 2, 3, 4, 5, 6], [5, 2, 2, 3]⟩ ∧ p.live = [1, 2, 6] ∧ p.peak = 5 ∧
    p.Orderly l ∧ ∃ q, p.reconcile 1 = (q, none) ∧ q.live = [1] ∧ q.nextId = 7 := by
  have hrun : riseAndFall.map
      (fun e => (e.1, e.2.live, e.2.stopped, (e.2.reconcile 1).2.isNone)) =
      some (⟨[1, 2, 3, 4, 5, 6], [5, 2, 2, 3]⟩, [1, 2, 6], false, true) := by
    decide +kernel
  obtain ⟨⟨l, p⟩, hp, hfields⟩ := Option.map_eq_some_iff.1 hrun
  obtain ⟨rfl, hlive, hgoing, hfault⟩ : l = ⟨[1, 2, 3, 4, 5, 6], [5, 2, 2, 3]⟩ ∧
      p.live = [1, 2, 6] ∧ p.stopped = false ∧ (p.reconcile 1).2.isNone = true := by
    simpa only [Prod.mk.injEq] using hfields
  have hreconcile : p.reconcile 1 = ((p.reconcile 1).1, none) :=
    Prod.ext rfl (Option.isNone_iff_eq_none.1 hfault)
  obtain ⟨-, horderly⟩ := orderly_of_chronicle
    (⟨{}, fun _ s => (⟨1, .outcome {}⟩, s)⟩ : Workload Unit) () (Duration.ofMillis 100)
  have h := horderly _ p (chronicle_of_noteAll? .nothing hp)
  obtain ⟨hshrunk, hsame, -⟩ := h.shrinks hgoing 1 _ (by rw [hlive]; decide) hreconcile
  refine ⟨_, p, hp, rfl, hlive, h.peak, h, _, hreconcile, ?_, ?_⟩
  · rw [hshrunk, hlive]
    rfl
  · rw [hsame, h.next]
    rfl

end StagedLoad.Pool
