import StagedLoad.Metric.Histogram
import StagedLoad.Proofs.Table

/-!
# What a histogram knows of its values

A histogram is made of the slots of its values alone, so it does not matter in which order they
were recorded.  Slots ascend with the values, so walking them finds the slot of the value that
has the rank among the sorted values.

## Main definitions

* `Histogram.ofValues` — the histogram of some values.
* `Histogram.expand` — every slot as often as it was counted.

## Main results

* `Histogram.ofValues_perm` — the order of the values does not matter.
* `Histogram.slotOf_mono`, `Histogram.le_slotEnd`, `Histogram.slotEnd_le` — slots ascend, and
  the end of a slot is near to all values of the slot.
* `Histogram.valueAtRank_ofValues` — **the value of a rank is the end of the slot** of the sorted
  value that has the rank.
-/

namespace StagedLoad.Histogram

/-- The histogram of some values. -/
def ofValues (values : List Nat) : Histogram := ⟨Table.tally (values.map slotInRange)⟩

/-- Recording values one by one makes their histogram. -/
theorem foldl_record {α : Type} (f : α → Nat) (xs : List α) :
    xs.foldl (fun h x => h.record (f x)) empty = ofValues (xs.map f) := by
  have hgeneral : ∀ t : Table Nat Nat,
      (xs.foldl (fun h x => h.record (f x)) (⟨t⟩ : Histogram)) =
        ⟨((xs.map f).map slotInRange).foldl
          (fun t k => t.update k fun n => n.getD 0 + 1) t⟩ := by
    -- the table is what the values before have left
    induction xs with
    | nil => intro t; rfl
    | cons x xs ih => intro t; exact ih _
  exact hgeneral Table.empty

/-- The order of the values does not matter. -/
theorem ofValues_perm {vs vs' : List Nat} (h : vs.Perm vs') : ofValues vs = ofValues vs' := by
  rw [ofValues, ofValues, Table.tally_perm (h.map slotInRange)]

theorem total_ofValues (vs : List Nat) : (ofValues vs).total = vs.length := by
  unfold total ofValues
  rw [← List.sum_eq_foldl, Table.sum_values_tally, List.length_map]

/-! ### Slots -/

theorem octave_of_lt {value : Nat} (h : value < fineValues) : octave value = 0 := by
  have hor : value ||| (fineValues - 1) < 2 ^ 11 := Nat.or_lt_two_pow h (by decide)
  have hne : value ||| (fineValues - 1) ≠ 0 := by
    have : fineValues - 1 ≤ value ||| (fineValues - 1) := Nat.right_le_or
    have : 0 < fineValues - 1 := by decide
    omega
  unfold octave
  have := (Nat.log2_lt hne).mpr hor
  omega

theorem octave_of_le {value : Nat} (h : fineValues ≤ value) : octave value + 10 = value.log2 := by
  have hne : value ≠ 0 := by
    unfold fineValues at h
    omega
  have hlog : 11 ≤ value.log2 := (Nat.le_log2 hne).mpr h
  have hor : value ||| (fineValues - 1) < 2 ^ (value.log2 + 1) := by
    refine Nat.or_lt_two_pow Nat.lt_log2_self ?_
    exact Nat.lt_of_lt_of_le (by decide : fineValues - 1 < 2 ^ 11)
      (Nat.pow_le_pow_right (by decide) (by omega))
  have hle : value ≤ value ||| (fineValues - 1) := Nat.left_le_or
  have hne' : value ||| (fineValues - 1) ≠ 0 := by omega
  have hlow : value.log2 ≤ (value ||| (fineValues - 1)).log2 :=
    (Nat.le_log2 hne').mpr (Nat.le_trans (Nat.log2_self_le hne) hle)
  have hhigh : (value ||| (fineValues - 1)).log2 < value.log2 + 1 := (Nat.log2_lt hne').mpr hor
  unfold octave
  omega

/-- A value that is not fine has eleven bits before those that its slot ignores. -/
theorem div_octave_bounds {value : Nat} (h : fineValues ≤ value) :
    1 ≤ octave value ∧ slotsPerOctave ≤ value / Nat.pow 2 (octave value) ∧
      value / Nat.pow 2 (octave value) < fineValues := by
  have hlog := octave_of_le h
  have hne : value ≠ 0 := by
    unfold fineValues at h
    omega
  have hone : 11 ≤ value.log2 := (Nat.le_log2 hne).mpr h
  have hpos : 0 < Nat.pow 2 (octave value) := Nat.two_pow_pos _
  refine ⟨by omega, ?_, ?_⟩
  · rw [Nat.le_div_iff_mul_le hpos]
    calc slotsPerOctave * Nat.pow 2 (octave value) = 2 ^ (10 + octave value) :=
          (Nat.pow_add 2 10 _).symm
      _ = 2 ^ value.log2 := by rw [← hlog, Nat.add_comm]
      _ ≤ value := Nat.log2_self_le hne
  · rw [Nat.div_lt_iff_lt_mul hpos]
    calc value < 2 ^ (value.log2 + 1) := Nat.lt_log2_self
      _ = 2 ^ (11 + octave value) := by rw [← hlog]; congr 1; omega
      _ = fineValues * Nat.pow 2 (octave value) := Nat.pow_add 2 11 _

theorem slotOf_of_lt {value : Nat} (h : value < fineValues) : slotOf value = value := by
  unfold slotOf
  rw [octave_of_lt h]
  show 0 * slotsPerOctave + value / 1 = value
  omega

/-- The octave of a value is read off its slot. -/
theorem slotOf_div {value : Nat} (h : fineValues ≤ value) :
    slotOf value / slotsPerOctave = octave value + 1 ∧
      slotOf value % slotsPerOctave + slotsPerOctave = value / Nat.pow 2 (octave value) := by
  obtain ⟨-, hlow, hhigh⟩ := div_octave_bounds h
  unfold slotOf
  dsimp only
  generalize value / Nat.pow 2 (octave value) = q at hlow hhigh ⊢
  unfold slotsPerOctave at *
  unfold fineValues at hhigh
  omega

theorem fineValues_le_slotOf {value : Nat} (h : fineValues ≤ value) :
    fineValues ≤ slotOf value := by
  have hslot := (slotOf_div h).1
  have hone := (div_octave_bounds h).1
  unfold slotsPerOctave at hslot
  unfold fineValues
  omega

theorem slotEnd_slotOf {value : Nat} (h : fineValues ≤ value) :
    slotEnd (slotOf value) =
      (value / Nat.pow 2 (octave value) + 1) * Nat.pow 2 (octave value) - 1 := by
  have hfine := fineValues_le_slotOf h
  obtain ⟨hoctave, hrest⟩ := slotOf_div h
  unfold slotEnd
  rw [if_neg (by omega)]
  dsimp only
  rw [hoctave, hrest]
  rfl

/-- Fine values are the ends of their slots. -/
theorem slotEnd_slotOf_of_lt {value : Nat} (h : value < fineValues) :
    slotEnd (slotOf value) = value := by
  rw [slotOf_of_lt h, slotEnd, if_pos h]

/-- No value lies beyond the end of its slot. -/
theorem le_slotEnd (value : Nat) : value ≤ slotEnd (slotOf value) := by
  rcases Nat.lt_or_ge value fineValues with h | h
  · rw [slotEnd_slotOf_of_lt h]
  · have hpos : 0 < Nat.pow 2 (octave value) := Nat.two_pow_pos _
    have hlt := Nat.lt_mul_of_div_lt (Nat.lt_succ_self (value / Nat.pow 2 (octave value))) hpos
    rw [slotEnd_slotOf h]
    exact Nat.le_sub_one_of_lt hlt

/-- And none is further from it than a share of itself. -/
theorem slotEnd_le (value : Nat) : slotsPerOctave * (slotEnd (slotOf value) - value) ≤ value := by
  rcases Nat.lt_or_ge value fineValues with h | h
  · rw [slotEnd_slotOf_of_lt h, Nat.sub_self]
    exact Nat.zero_le _
  · have hlow := (div_octave_bounds h).2.1
    have hmul : slotsPerOctave * Nat.pow 2 (octave value) ≤ value :=
      Nat.le_trans (Nat.mul_le_mul_right _ hlow) (Nat.div_mul_le_self _ _)
    have hquot := Nat.div_mul_le_self value (Nat.pow 2 (octave value))
    rw [slotEnd_slotOf h, Nat.add_mul, Nat.one_mul]
    refine Nat.le_trans (Nat.mul_le_mul_left _ ?_) hmul
    omega

/-- Slots ascend with their values. -/
theorem slotOf_mono {v w : Nat} (h : v ≤ w) : slotOf v ≤ slotOf w := by
  rcases Nat.lt_or_ge w fineValues with hw | hw
  · rw [slotOf_of_lt hw, slotOf_of_lt (Nat.lt_of_le_of_lt h hw)]
    exact h
  · rcases Nat.lt_or_ge v fineValues with hv | hv
    · rw [slotOf_of_lt hv]
      exact Nat.le_trans (Nat.le_of_lt hv) (fineValues_le_slotOf hw)
    · have hlog : v.log2 ≤ w.log2 := by
        have hne : v ≠ 0 := by
          unfold fineValues at hv
          omega
        exact (Nat.le_log2 (by omega)).mpr (Nat.le_trans (Nat.log2_self_le hne) h)
      have hoctave : octave v ≤ octave w := by
        have := octave_of_le hv
        have := octave_of_le hw
        omega
      rcases Nat.eq_or_lt_of_le hoctave with heq | hlt
      · unfold slotOf
        rw [heq]
        exact Nat.add_le_add_left (Nat.div_le_div_right h) _
      · -- the last slot of an octave is before the first of the next
        have hv' := (slotOf_div hv).1
        have hw' := (slotOf_div hw).1
        unfold slotsPerOctave at hv' hw'
        omega

theorem slotInRange_of_le {value : Nat} (h : value ≤ greatest) :
    slotInRange value = slotOf value := by
  unfold slotInRange
  rw [if_pos]
  exact Nat.le_trans (slotOf_mono h) (by decide)

/-! ### Ranks -/

/-- Every slot as often as it was counted. -/
def expand (entries : List (Nat × Nat)) : List Nat :=
  entries.flatMap fun e => List.replicate e.2 e.1

/-- The walk finds the slot that has the rank among all those that are still to come. -/
theorem walk_eq {rank seen : Nat} (h : seen < rank) (entries : List (Nat × Nat)) :
    walk rank seen entries = ((expand entries)[rank - seen - 1]?).map slotEnd := by
  induction entries generalizing seen with
  | nil => rfl
  | cons e rest ih =>
    obtain ⟨slot, n⟩ := e
    have hexpand : expand ((slot, n) :: rest) = List.replicate n slot ++ expand rest := rfl
    rw [hexpand, walk]
    by_cases hrank : rank ≤ seen + n
    · rw [if_pos hrank, List.getElem?_append_left (by rw [List.length_replicate]; omega),
        List.getElem?_replicate_of_lt (by omega)]
      rfl
    · have hindex : rank - seen - 1 - n = rank - (seen + n) - 1 := by omega
      rw [if_neg hrank, ih (by omega),
        List.getElem?_append_right (by rw [List.length_replicate]; omega), List.length_replicate,
        hindex]

theorem count_expand {entries : List (Nat × Nat)} (hnodup : (entries.map Prod.fst).Nodup)
    (k : Nat) : (expand entries).count k = (Table.lookup k entries).getD 0 := by
  induction entries with
  | nil => rfl
  | cons e rest ih =>
    obtain ⟨slot, n⟩ := e
    rw [List.map_cons, List.nodup_cons] at hnodup
    have hexpand : expand ((slot, n) :: rest) = List.replicate n slot ++ expand rest := rfl
    rw [hexpand, List.count_append, List.count_replicate, ih hnodup.2, Table.lookup_cons]
    by_cases hk : slot = k
    · subst hk
      rw [Table.lookup_eq_none_iff.mpr hnodup.1]
      simp
    · simp [hk]

theorem pairwise_expand {entries : List (Nat × Nat)}
    (hsorted : entries.Pairwise fun a b => a.1 < b.1) : (expand entries).Pairwise (· ≤ ·) := by
  induction entries with
  | nil => exact List.Pairwise.nil
  | cons e rest ih =>
    obtain ⟨slot, n⟩ := e
    rw [List.pairwise_cons] at hsorted
    have hexpand : expand ((slot, n) :: rest) = List.replicate n slot ++ expand rest := rfl
    rw [hexpand, List.pairwise_append]
    refine ⟨List.pairwise_replicate.mpr (.inr (Nat.le_refl _)), ih hsorted.2, ?_⟩
    intro a ha b hb
    obtain ⟨e, he, hb⟩ := List.mem_flatMap.mp hb
    rw [List.eq_of_mem_replicate ha, List.eq_of_mem_replicate hb]
    exact Nat.le_of_lt (hsorted.1 e he)

/-- What a tally counts, in ascending order. -/
theorem expand_tally {ks : List Nat} (h : ks.Pairwise (· ≤ ·)) :
    expand (Table.tally ks).entries = ks := by
  have hsorted : (Table.tally ks).entries.Pairwise fun a b => a.1 < b.1 := by
    refine (Table.tally ks).sorted.imp fun hlt => ?_
    simpa [TableKey.lt] using hlt
  have hperm : (expand (Table.tally ks).entries).Perm ks := by
    rw [List.perm_iff_count]
    intro k
    have hget : Table.lookup k (Table.tally ks).entries = (Table.tally ks).get? k := rfl
    rw [count_expand (Table.tally ks).keys_nodup, hget, Table.get?_tally]
    split
    case isTrue hzero => rw [hzero]; rfl
    case isFalse => rfl
  exact hperm.eq_of_pairwise (fun a b _ _ => Nat.le_antisymm) (pairwise_expand hsorted) h

/-- **The value of a rank is the end of the slot** of the sorted value that has the rank. -/
theorem valueAtRank_ofValues {vs sorted : List Nat} (hperm : sorted.Perm vs)
    (hsorted : sorted.Pairwise (· ≤ ·)) (hrange : ∀ v ∈ vs, v ≤ greatest) {rank x : Nat}
    (hrank : 1 ≤ rank) (hx : sorted[rank - 1]? = some x) :
    (ofValues vs).valueAtRank rank = slotEnd (slotOf x) := by
  have hmem : ∀ v ∈ sorted, v ≤ greatest := fun v hv => hrange v (hperm.mem_iff.mp hv)
  have hslots : (sorted.map slotInRange).Pairwise (· ≤ ·) := by
    rw [List.pairwise_map]
    refine hsorted.imp_of_mem fun hv hw hle => ?_
    rw [slotInRange_of_le (hmem _ hv), slotInRange_of_le (hmem _ hw)]
    exact slotOf_mono hle
  unfold valueAtRank
  rw [← ofValues_perm hperm, walk_eq hrank]
  unfold ofValues
  rw [expand_tally hslots, Nat.sub_zero, List.getElem?_map, hx]
  rw [← slotInRange_of_le (hmem x (List.mem_of_getElem? hx))]
  rfl

end StagedLoad.Histogram
