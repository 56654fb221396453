import StagedLoad.Proofs.Metric.Tolerance
import StagedLoad.Proofs.Threshold.Grammar

/-!
# Percentiles in texts

A percentile is written as a number of percent, alone or in `p(…)` on the left of a comparison.
In both places the number has an exact value, however many digits it is written with, and this
value decides which percentile is read: with at most two decimals it is the number itself.  Finer
numbers are not read, except for those that are so fine that they pass for one of two decimals.

## Main definitions

* `Cut.AsksFor` — a text that compares a percentile, before the percentile is read.
* `PercentileReader` — the two places for a percentile.

## Main results

* `percentile_parse_eq_ok_iff` — in `p(…)` the same is read as alone.
* `percentiles_read_within_tolerance` — **which percentiles are read for a number in a text**.
-/

namespace StagedLoad

/-! ### Texts without blanks -/

namespace Blank

variable {cs : List Char}

/-- Nothing is trimmed off where nothing is blank. -/
theorem trim_ofList (h : ∀ c ∈ cs, isBlank c = false) :
    trim (String.ofList cs) = String.ofList cs := by
  have hbare : Bare cs :=
    ⟨fun c hc => h c (List.mem_of_mem_head? hc), fun c hc => h c (List.mem_of_getLast? hc)⟩
  rw [trim, String.toList_ofList, hbare.trim_eq]

end Blank

/-! ### Alone -/

namespace Percentile

variable {text : String} {l : Literal}

theorem parse_eq_ok_iff (h : Literal.ofChars? (Blank.trim text).toList = some l) {p : Percentile} :
    parse text = .ok p ↔ ofPercent? l.toFloat = some p := by
  have hchars : Binary64.ofChars? (Blank.trim text).toList = some l.toFloat := by
    rw [Binary64.ofChars?, h, Option.map_some]
  simp only [parse, hchars, ofPercent]
  cases ofPercent? l.toFloat with
  | none => simp
  | some q => simp

theorem ReadFor.congr {v : ℚ} {reads reads' : Percentile → Prop} (h : ReadFor v reads)
    (hreads : ∀ p, reads' p ↔ reads p) : ReadFor v reads' where
  near := fun p hp => h.near p ((hreads p).mp hp)
  of_near := fun p hp => (hreads p).mpr (h.of_near p hp)

theorem readFor_parse {negative : Bool} {m : Nat} {e : Int}
    (h : Literal.ofChars? (Blank.trim text).toList = some (.number negative m e)) :
    ReadFor (Literal.rational negative m e) fun p => parse text = .ok p :=
  (readFor_ofPercent? (Literal.rounds_toFloat negative m e)).congr fun _ => parse_eq_ok_iff h

end Percentile

namespace Threshold

/-! ### In a threshold -/

variable {c : Cut} {cs : List Char} {raw : String} {l : Literal} {p : Percentile}

/-- A text that compares what stands in `p(…)` with a limit. -/
structure Cut.AsksFor (c : Cut) (cs : List Char) : Prop where
  /-- The selector. -/
  selector : c.selector = ['p', '('] ++ cs ++ [')']
  /-- There is a number. -/
  number : ∃ x, NumberSpelled x c.number
  /-- There may be a unit. -/
  unit : ∃ u, UnitSpelled u c.unit

/-- The comparison is found where it is, whether or not a percentile is read. -/
theorem Cut.AsksFor.split (h : c.AsksFor cs) (hcs : Literal.ofChars? cs = some l) :
    splitComparison? c.text = some (c.comparison, c.selector, c.number ++ c.unit) := by
  obtain ⟨x, hnumber⟩ := h.number
  obtain ⟨u, hunit⟩ := h.unit
  have hread : readUnit "" c.unit = .ok u := readUnit_eq_ok_iff.mpr hunit
  refine c.split_text ?_ ?_
  · intro y hy
    have hforeign := foreign_of_mem_marks hy
    have hp : y ≠ 'p' := hforeign.ne (by decide)
    have hopen : y ≠ '(' := hforeign.ne (by decide)
    have hclose : y ≠ ')' := hforeign.ne (by decide)
    rw [h.selector]
    simp [hp, hopen, hclose, Literal.notMem_of_ofChars? hforeign hcs]
  · intro y hy
    have hforeign := foreign_of_mem_marks hy
    rw [List.mem_append, not_or]
    exact ⟨notMem_numberChars hforeign (all_isNumberChar hnumber), notMem_unit hforeign hread⟩

theorem Selector.spelled_percentile_iff :
    (Selector.percentile p).Spelled (['p', '('] ++ cs ++ [')']) ↔
      Percentile.parse (String.ofList cs) = .ok p := by
  constructor
  · generalize hall : ['p', '('] ++ cs ++ [')'] = all
    intro h
    cases h with
    | word mem => simp [selectorWords] at mem
    | percentile reads =>
      rw [List.append_cancel_left (List.append_cancel_right hall)]
      exact reads
  · exact .percentile

/-- **In `p(…)` the same is read as alone.** -/
theorem percentile_parse_eq_ok_iff (h : c.AsksFor cs) (hcs : Literal.ofChars? cs = some l)
    (htext : c.text = Blank.squeeze raw) :
    (∃ ex, Expr.parse raw = .ok ex ∧ ex.selector = .percentile p) ↔
      Percentile.parse (String.ofList cs) = .ok p := by
  constructor
  · rintro ⟨ex, hread, hselector⟩
    obtain ⟨left, right, hparts⟩ := Expr.parse_eq_ok_iff.mp hread
    have hsplit := hparts.split
    rw [← htext, h.split hcs, Option.some.injEq, Prod.mk.injEq, Prod.mk.injEq] at hsplit
    obtain ⟨-, hleft, -⟩ := hsplit
    have hspelled := readSelector_eq_ok_iff.mp hparts.selector
    rw [← hleft, h.selector, hselector] at hspelled
    exact Selector.spelled_percentile_iff.mp hspelled
  · intro hread
    obtain ⟨x, hnumber⟩ := h.number
    obtain ⟨u, hunit⟩ := h.unit
    have hselector : (Selector.percentile p).Spelled c.selector := by
      rw [h.selector]
      exact .percentile hread
    have hspells : c.Spells ⟨.percentile p, c.comparison, u.elim x fun u => u.scale x, u⟩ :=
      ⟨hselector, rfl, ⟨x, hnumber, counts_iff.mpr rfl⟩, hunit⟩
    exact ⟨_, Expr.parse_eq_ok_iff.mpr ⟨_, _, hspells.parts htext⟩, rfl⟩

/-! ### The two places -/

/-- Where a percentile is written with some characters, and which ones are read there. -/
inductive PercentileReader (cs : List Char) : (Percentile → Prop) → Prop
  /-- Alone, with blanks around it. -/
  | alone (text : String) (chars : (Blank.trim text).toList = cs) :
      PercentileReader cs fun p => Percentile.parse text = .ok p
  /-- In a threshold, with blanks anywhere. -/
  | threshold (raw : String) (c : Cut) (asks : c.AsksFor cs) (text : c.text = Blank.squeeze raw) :
      PercentileReader cs fun p => ∃ ex, Expr.parse raw = .ok ex ∧ ex.selector = .percentile p

theorem Cut.AsksFor.isBlank_eq_false (h : c.AsksFor cs) (htext : c.text = Blank.squeeze raw) :
    ∀ y ∈ cs, Blank.isBlank y = false := by
  intro y hy
  refine Blank.isBlank_of_mem_squeeze (s := raw) ?_
  rw [← htext, Cut.text, h.selector]
  simp [hy]

/-- **Which percentiles are read for a number in a text**, alone or in a threshold: the one that
the number is, and one that it is so near to that it passes for it.  No number that is finer than
two decimals is read if it is not that near to one of two decimals. -/
theorem percentiles_read_within_tolerance {negative : Bool} {m : Nat} {e : Int}
    {reads : Percentile → Prop} (h : Literal.ofChars? cs = some (.number negative m e))
    (hreads : PercentileReader cs reads) :
    Percentile.ReadFor (Literal.rational negative m e) reads ∧
      ((∀ n : Nat, 100 * Literal.rational negative m e ≠ n →
          Percentile.allowance + Percentile.blur < |100 * Literal.rational negative m e - n|) →
        ∀ p, reads p ↔ 100 * Literal.rational negative m e = p.hundredths) := by
  have hreadFor : Percentile.ReadFor (Literal.rational negative m e) reads := by
    cases hreads with
    | alone text chars =>
      rw [← chars] at h
      exact Percentile.readFor_parse h
    | threshold raw c asks text =>
      have hinner : Literal.ofChars? (Blank.trim (String.ofList cs)).toList =
          some (.number negative m e) := by
        rw [Blank.trim_ofList (asks.isBlank_eq_false text), String.toList_ofList, h]
      exact (Percentile.readFor_parse hinner).congr fun p => percentile_parse_eq_ok_iff asks h text
  exact ⟨hreadFor, hreadFor.reads_iff⟩

theorem percentiles_read_within_tolerance_ninetyNine :
    Literal.ofChars? "99.90".toList = some (.number false 9990 (-2)) ∧
      ∀ p, (∃ ex, Expr.parse "p( 99.90 ) < 1s" = .ok ex ∧ ex.selector = .percentile p) ↔
        100 * Literal.rational false 9990 (-2) = p.hundredths := by
  have hchars : Literal.ofChars? "99.90".toList = some (.number false 9990 (-2)) := by decide
  have hnumber : NumberSpelled (Literal.number false 1 0).toFloat "1".toList :=
    ⟨by decide, by simp, rfl, by decide +kernel⟩
  have hasks : (Cut.mk "p(99.90)".toList .lt "1".toList "s".toList).AsksFor "99.90".toList :=
    ⟨by decide, ⟨_, hnumber⟩, ⟨_, .symbol .seconds⟩⟩
  have hplace := PercentileReader.threshold "p( 99.90 ) < 1s" _ hasks (by decide)
  have hwhole : 100 * Literal.rational false 9990 (-2) = (9990 : Int) := by
    change 100 * (((9990 : Nat) : ℚ) * 10 ^ (-2 : Int)) = _
    norm_num
  exact ⟨hchars,
    (percentiles_read_within_tolerance hchars hplace).2 (Percentile.far_of_whole hwhole)⟩

/-- A number with nine decimals that passes for one without any. -/
theorem finer_percentile_is_read :
    Percentile.parse "95.000000001" = .ok ⟨9500, by decide, by decide⟩ ∧
      Literal.ofChars? "95.000000001".toList = some (.number false 95000000001 (-9)) ∧
      ∀ n : Int, 100 * Literal.rational false 95000000001 (-9) ≠ n := by
  refine ⟨by decide +kernel, by decide +kernel, ?_⟩
  intro n hn
  have hscaled : (95000000001 : ℚ) = (n * 10 ^ 7 : Int) := by
    change 100 * (((95000000001 : Nat) : ℚ) * 10 ^ (-9 : Int)) = _ at hn
    push_cast
    rw [← hn]
    norm_num
  have : (95000000001 : Int) = n * 10 ^ 7 := by exact_mod_cast hscaled
  omega

end Threshold

end StagedLoad
