import Mathlib.Data.List.Infix
import StagedLoad.Http.FormReader

/-!
# Cutting at boundaries

A delimiter is a line end, two dashes and the boundary.  Its first byte, the carriage return, is
not among its others, so an occurrence cannot overlap the one that follows: what does not hold
the delimiter ends where the next one begins, whatever its last bytes are.

* `cut?_append_of_not_found`, `cut?_append_of_notMem` — where a byte sequence is found first.
* `delimiter_not_infix_line` — no delimiter comes about where a line ends.
* `sections?_joined` — parts that hold no delimiter are cut out again, each as it was.
* `cut?_head`, `lines_head` — the lines of a head, and what follows the first empty line.
-/

namespace StagedLoad.FormReader

/-! ### The first occurrence -/

theorem cut?_append_self {p : Bytes} (hp : p ≠ []) (l : Bytes) :
    cut? p (p ++ l) = some ([], l) := by
  obtain ⟨c, q, rfl⟩ := List.exists_cons_of_ne_nil hp
  have hpre : (c :: q).isPrefixOf (c :: (q ++ l)) = true :=
    List.isPrefixOf_iff_prefix.mpr (List.prefix_append (c :: q) l)
  rw [List.cons_append, cut?, if_pos hpre, ← List.cons_append, List.drop_left]

theorem cut?_cons_of_elsewhere {p l : Bytes} {b : UInt8} (h : ¬ p <+: b :: l) :
    cut? p (b :: l) = (cut? p l).map fun r => (b :: r.1, r.2) := by
  rw [cut?, if_neg (fun hpre => h (List.isPrefixOf_iff_prefix.mp hpre))]

variable {c : UInt8} {q : Bytes}

/-- Bytes without the first byte of what is looked for are passed over. -/
theorem cut?_append_of_notMem {s : Bytes} (h : c ∉ s) (l : Bytes) :
    cut? (c :: q) (s ++ l) = (cut? (c :: q) l).map fun r => (s ++ r.1, r.2) := by
  induction s with
  | nil => simp
  | cons b s ih =>
    have hne : ¬ c :: q <+: b :: (s ++ l) := fun hpre =>
      h (List.mem_cons.mpr (.inl (List.cons_prefix_cons.mp hpre).1))
    rw [List.cons_append, cut?_cons_of_elsewhere hne,
      ih (fun hs => h (List.mem_cons_of_mem _ hs)), Option.map_map]
    rfl

theorem cut?_of_notMem {s : Bytes} (h : c ∉ s) : cut? (c :: q) s = none := by
  have := cut?_append_of_notMem (q := q) h []
  rwa [List.append_nil, cut?, if_neg (by simp), Option.map_none] at this

/-- What does not hold the sequence ends where the sequence is found, if no byte of the sequence
but the first can begin it. -/
theorem cut?_append_of_not_found (hq : c ∉ q) {s : Bytes} (h : ¬ c :: q <:+: s) (l : Bytes) :
    cut? (c :: q) (s ++ (c :: q ++ l)) = some (s, l) := by
  induction s with
  | nil => exact cut?_append_self (List.cons_ne_nil c q) l
  | cons b s ih =>
    rw [List.infix_cons_iff, not_or] at h
    have hne : ¬ c :: q <+: b :: (s ++ (c :: q ++ l)) := by
      intro hpre
      rw [← List.cons_append] at hpre
      rcases List.prefix_or_prefix_of_prefix hpre (List.prefix_append (b :: s) _) with hin | hout
      · exact h.1 hin
      · -- the sequence would go on into itself
        obtain ⟨t, ht⟩ := hout
        rw [← ht, List.prefix_append_right_inj] at hpre
        cases t with
        | nil => exact h.1 ⟨[], by rw [← ht, List.append_nil, List.append_nil]⟩
        | cons x t =>
          obtain ⟨rfl, rfl⟩ := List.cons.inj ht
          obtain rfl := (List.cons_prefix_cons.mp hpre).1
          exact hq (List.mem_append_right s List.mem_cons_self)
    rw [List.cons_append, cut?_cons_of_elsewhere hne, ih h.2]
    rfl

/-! ### Parts between delimiters -/

/-- What stands between two parts. -/
def delimiter (boundary : Bytes) : Bytes := lineEnd ++ dashes ++ boundary

theorem delimiter_eq_cons (boundary : Bytes) :
    delimiter boundary = 13 :: (10 :: (dashes ++ boundary)) := rfl

theorem return_notMem_delimiter_tail {boundary : Bytes} (hb : 13 ∉ boundary) :
    (13 : UInt8) ∉ 10 :: (dashes ++ boundary) := by
  simpa [dashes] using hb

/-- No delimiter comes about where a line ends, unless the next line begins with it. -/
theorem delimiter_not_infix_line {boundary l rest : Bytes} (hl : 13 ∉ l)
    (hstart : ¬ dashes ++ boundary <+: rest) (hrest : ¬ delimiter boundary <:+: rest) :
    ¬ delimiter boundary <:+: l ++ (lineEnd ++ rest) := by
  induction l with
  | nil =>
    intro h
    rw [List.nil_append, lineEnd, List.cons_append, List.cons_append, List.nil_append,
      List.infix_cons_iff, List.infix_cons_iff] at h
    rcases h with h | h | h
    · rw [delimiter_eq_cons, List.cons_prefix_cons, List.cons_prefix_cons] at h
      exact hstart h.2.2
    · rw [delimiter_eq_cons, List.cons_prefix_cons] at h
      exact absurd h.1 (by decide)
    · exact hrest h
  | cons b l ih =>
    intro h
    rw [List.cons_append, List.infix_cons_iff] at h
    rcases h with h | h
    · rw [delimiter_eq_cons, List.cons_prefix_cons] at h
      exact hl (h.1 ▸ List.mem_cons_self)
    · exact ih (fun hm => hl (List.mem_cons_of_mem _ hm)) h

/-- The parts that stand behind a boundary, each followed by the next one. -/
def joined (boundary : Bytes) (sections : List Bytes) : Bytes :=
  sections.flatMap fun s => lineEnd ++ (s ++ delimiter boundary)

theorem joined_cons (boundary s : Bytes) (sections : List Bytes) (rest : Bytes) :
    joined boundary (s :: sections) ++ rest =
      lineEnd ++ (s ++ (delimiter boundary ++ (joined boundary sections ++ rest))) := by
  simp only [joined, List.flatMap_cons, List.append_assoc]

theorem sections?_cons {boundary s : Bytes} (hb : 13 ∉ boundary)
    (hs : ¬ delimiter boundary <:+: s) (rest : Bytes) :
    sections? boundary (lineEnd ++ (s ++ (delimiter boundary ++ rest))) =
      (sections? boundary rest).map (s :: ·) := by
  have hcut : cut? (lineEnd ++ dashes ++ boundary)
      ((lineEnd ++ (s ++ (delimiter boundary ++ rest))).drop lineEnd.length) = some (s, rest) := by
    rw [List.drop_left]
    exact cut?_append_of_not_found (return_notMem_delimiter_tail hb) hs rest
  have hdashes : ¬ dashes.isPrefixOf (lineEnd ++ (s ++ (delimiter boundary ++ rest))) = true := by
    simp [dashes, lineEnd]
  have hline : lineEnd.isPrefixOf (lineEnd ++ (s ++ (delimiter boundary ++ rest))) = true :=
    List.isPrefixOf_iff_prefix.mpr (List.prefix_append _ _)
  rw [sections?, if_neg hdashes, if_pos hline]
  split
  · next hnone => exact absurd (hnone.symm.trans hcut) (by simp)
  · next hsome =>
    obtain ⟨rfl, rfl⟩ := Prod.mk.inj (Option.some.inj (hsome.symm.trans hcut))
    rfl

/-- Parts that hold no delimiter are cut out again, whatever follows the two dashes. -/
theorem sections?_joined {boundary : Bytes} (hb : 13 ∉ boundary) {sections : List Bytes}
    (h : ∀ s ∈ sections, ¬ delimiter boundary <:+: s) (tail : Bytes) :
    sections? boundary (joined boundary sections ++ (dashes ++ tail)) = some sections := by
  induction sections with
  | nil =>
    have hdashes : dashes.isPrefixOf (dashes ++ tail) = true :=
      List.isPrefixOf_iff_prefix.mpr (List.prefix_append _ _)
    rw [joined, List.flatMap_nil, List.nil_append, sections?, if_pos hdashes]
  | cons s sections ih =>
    rw [joined_cons, sections?_cons hb (h s List.mem_cons_self),
      ih (fun t ht => h t (List.mem_cons_of_mem _ ht)), Option.map_some]

/-! ### Heads -/

/-- A line that a head can hold: it does not end early, and it is neither empty nor does it look
like a boundary. -/
structure IsHeadLine (l : Bytes) : Prop where
  /-- The line ends where it should. -/
  unbroken : 13 ∉ l
  /-- It begins with something else than a dash. -/
  start : ∃ b ∈ l.head?, b ≠ 45

/-- Further lines of a head. -/
def continued (ls : List Bytes) : Bytes := ls.flatMap (lineEnd ++ ·)

theorem continued_cons (l : Bytes) (ls : List Bytes) :
    continued (l :: ls) = lineEnd ++ (l ++ continued ls) := by
  rw [continued, List.flatMap_cons, List.append_assoc]
  rfl

variable {l : Bytes} {ls : List Bytes}

theorem IsHeadLine.exists_cons (hl : IsHeadLine l) :
    ∃ b t, l = b :: t ∧ b ≠ 13 ∧ b ≠ 45 := by
  obtain ⟨b, hb, hne⟩ := hl.start
  cases l with
  | nil => exact absurd hb (by simp)
  | cons x t =>
    obtain rfl : x = b := by simpa using hb
    exact ⟨x, t, rfl, fun h => hl.unbroken (h ▸ List.mem_cons_self), hne⟩

theorem IsHeadLine.not_boundary_start (hl : IsHeadLine l) (boundary rest : Bytes) :
    ¬ dashes ++ boundary <+: l ++ rest := by
  obtain ⟨b, t, rfl, -, hb⟩ := hl.exists_cons
  intro h
  exact hb (List.cons_prefix_cons.mp h).1.symm

/-- A line is passed over if the next one is not empty. -/
theorem cut?_line (hl : 13 ∉ l) {rest : Bytes} (hrest : ¬ lineEnd <+: rest) :
    cut? (lineEnd ++ lineEnd) (l ++ (lineEnd ++ rest)) =
      (cut? (lineEnd ++ lineEnd) rest).map fun r => (l ++ (lineEnd ++ r.1), r.2) := by
  have hreturn : ¬ lineEnd ++ lineEnd <+: 13 :: 10 :: rest := fun h =>
    hrest ((List.prefix_append_right_inj lineEnd).mp h)
  have hfeed : ¬ lineEnd ++ lineEnd <+: 10 :: rest := fun h =>
    absurd (List.cons_prefix_cons.mp h).1 (by decide)
  have hpass := cut?_append_of_notMem (q := [10, 13, 10]) hl (13 :: 10 :: rest)
  change cut? (lineEnd ++ lineEnd) (l ++ (lineEnd ++ rest)) =
    (cut? (lineEnd ++ lineEnd) (13 :: 10 :: rest)).map _ at hpass
  rw [hpass, cut?_cons_of_elsewhere hreturn, cut?_cons_of_elsewhere hfeed, Option.map_map,
    Option.map_map]
  rfl

/-- A head ends at the first empty line. -/
theorem cut?_head (hl : IsHeadLine l) (hls : ∀ m ∈ ls, IsHeadLine m) (data : Bytes) :
    cut? (lineEnd ++ lineEnd) (l ++ (continued ls ++ (lineEnd ++ lineEnd ++ data))) =
      some (l ++ continued ls, data) := by
  induction ls generalizing l with
  | nil =>
    have hpass := cut?_append_of_notMem (q := [10, 13, 10]) hl.unbroken
      (lineEnd ++ lineEnd ++ data)
    change cut? (lineEnd ++ lineEnd) _ = (cut? (lineEnd ++ lineEnd) _).map _ at hpass
    rw [continued, List.flatMap_nil, List.nil_append, hpass,
      cut?_append_self (by simp [lineEnd]), Option.map_some]
  | cons m ls ih =>
    have hm := hls m List.mem_cons_self
    have hnext : ¬ lineEnd <+: m ++ (continued ls ++ (lineEnd ++ lineEnd ++ data)) := by
      obtain ⟨b, t, rfl, hb, -⟩ := hm.exists_cons
      exact fun h => hb (List.cons_prefix_cons.mp h).1.symm
    rw [continued_cons, List.append_assoc, List.append_assoc, cut?_line hl.unbroken hnext,
      ih hm (fun n hn => hls n (List.mem_cons_of_mem _ hn)), Option.map_some]

/-- A head is made of its lines. -/
theorem lines_head (hl : IsHeadLine l) (hls : ∀ m ∈ ls, IsHeadLine m) :
    lines (l ++ continued ls) = l :: ls := by
  induction ls generalizing l with
  | nil =>
    have hnone : cut? lineEnd l = none := cut?_of_notMem hl.unbroken
    rw [continued, List.flatMap_nil, List.append_nil, lines]
    split
    · rfl
    · next hsome => exact absurd (hnone.symm.trans hsome) (by simp)
  | cons m ls ih =>
    have hsome : cut? lineEnd (l ++ (lineEnd ++ (m ++ continued ls))) =
        some (l, m ++ continued ls) := by
      have hpass := cut?_append_of_notMem (q := [10]) hl.unbroken (lineEnd ++ (m ++ continued ls))
      change cut? lineEnd _ = (cut? lineEnd _).map _ at hpass
      rw [hpass, cut?_append_self (by simp [lineEnd]), Option.map_some, List.append_nil]
    rw [continued_cons, lines]
    split
    · next hnone => exact absurd (hnone.symm.trans hsome) (by simp)
    · next hcut =>
      obtain ⟨rfl, rfl⟩ := Prod.mk.inj (Option.some.inj (hcut.symm.trans hsome))
      rw [ih (hls m List.mem_cons_self) fun n hn => hls n (List.mem_cons_of_mem _ hn)]

/-- A part holds no delimiter if its data does not hold what follows the line end of one. -/
theorem delimiter_not_infix_part {boundary data : Bytes} (hl : IsHeadLine l)
    (hls : ∀ m ∈ ls, IsHeadLine m) (hdata : ¬ dashes ++ boundary <:+: data) :
    ¬ delimiter boundary <:+: l ++ (continued ls ++ (lineEnd ++ lineEnd ++ data)) := by
  have hdelimiter : ¬ delimiter boundary <:+: data := fun h =>
    hdata ((List.suffix_append lineEnd (dashes ++ boundary)).isInfix.trans h)
  induction ls generalizing l with
  | nil =>
    have hempty : ¬ delimiter boundary <:+: [] ++ (lineEnd ++ data) :=
      delimiter_not_infix_line List.not_mem_nil (fun h => hdata h.isInfix) hdelimiter
    have hdash : ¬ dashes ++ boundary <+: lineEnd ++ data := fun h =>
      absurd (List.cons_prefix_cons.mp h).1 (by decide)
    exact delimiter_not_infix_line hl.unbroken hdash hempty
  | cons m ls ih =>
    have hm := hls m List.mem_cons_self
    rw [continued_cons, List.append_assoc, List.append_assoc]
    exact delimiter_not_infix_line hl.unbroken (hm.not_boundary_start boundary _)
      (ih hm fun n hn => hls n (List.mem_cons_of_mem _ hn))

end StagedLoad.FormReader
