import Mathlib.Data.List.Basic
import StagedLoad.Json.Path

/-!
# Where paths lead

A path is written as its steps with points between them.  It is trimmed and stripped of `$.` before
it is split again, and a step is a name in an object and an index in an array, so not every
sequence of steps can be written.  Those that can lead where the steps lead one after the other.

## Main definitions

* `Json.IndexText` — what an index may be written like.
* `Json.StepsTo`, `Json.Leads` — where a step and a sequence of steps lead, said without reading.
* `Json.Writable` — a sequence of steps that can be written as a path.

## Main results

* `Json.index?_eq_some_iff`, `Json.indexText_repr` — the texts of indices.
* `Json.stepsTo_iff`, `Json.leads_iff` — steps lead where they are looked up.
* `Json.Writable.steps_root_append` — a path that is written has the steps that it is written from.
* `Json.lookups_reach_every_position` — **every position has a path**.
-/

namespace StagedLoad

namespace Json

variable {ν : Type} {v w : Json ν}

/-! ### Steps -/

/-- An index is written as digits, after a plus sign if there is one, and is a 64-bit word. -/
def IndexText (text : List Char) (i : Nat) : Prop :=
  ∃ digits : List Char, (text = digits ∨ text = '+' :: digits) ∧ digits ≠ [] ∧
    (∀ c ∈ digits, c.isDigit = true) ∧ Nat.ofDigitChars 10 digits 0 = i ∧ i ≤ Binary64.maxWord

/-- A step leads from an object to its member of that name, of which the last one counts, and from
an array to its element at the index that the step is written for. -/
inductive StepsTo : Json ν → String → Json ν → Prop
  /-- To a member of an object. -/
  | member {before after : List (String × Json ν)} {name : String} {v : Json ν}
      (hlast : ∀ m ∈ after, m.1 ≠ name) :
      StepsTo (object (before ++ (name, v) :: after)) name v
  /-- To an element of an array. -/
  | element {elements : List (Json ν)} {text : String} {i : Nat} {v : Json ν}
      (htext : IndexText text.toList i) (helement : elements[i]? = some v) :
      StepsTo (array elements) text v

/-- Steps lead from a value to another one. -/
inductive Leads : Json ν → List String → Json ν → Prop
  /-- No step leads anywhere else. -/
  | here (v : Json ν) : Leads v [] v
  /-- One step leads on to where the others begin. -/
  | onward {v u w : Json ν} {step : String} {path : List String} (hstep : StepsTo v step u)
      (hpath : Leads u path w) : Leads v (step :: path) w

/-- Digits are read as the index that they are written for, with and without a plus sign. -/
theorem index?_of_digits {digits : List Char} (hne : digits ≠ [])
    (hdigit : ∀ c ∈ digits, c.isDigit = true) {text : List Char}
    (htext : text = digits ∨ text = '+' :: digits) :
    index? text = if Nat.ofDigitChars 10 digits 0 ≤ Binary64.maxWord
      then some (Nat.ofDigitChars 10 digits 0) else none := by
  have hall : digits.all Char.isDigit = true := List.all_eq_true.mpr hdigit
  have hvalue : digits.foldl (fun acc c => acc * 10 + (c.toNat - 48)) 0 =
      Nat.ofDigitChars 10 digits 0 := by
    simp only [Nat.mul_comm _ 10]
    rfl
  obtain ⟨c, cs, rfl⟩ := List.exists_cons_of_ne_nil hne
  rw [← hvalue]
  rcases htext with rfl | rfl
  · have hc : c ≠ '+' := by
      rintro rfl
      exact absurd (hdigit '+' List.mem_cons_self) (by decide)
    simp [index?, hc, hall]
  · simp [index?, hall]

theorem exists_digits_of_index? {text : List Char} {i : Nat} (h : index? text = some i) :
    ∃ digits : List Char, (text = digits ∨ text = '+' :: digits) ∧ digits ≠ [] ∧
      ∀ c ∈ digits, c.isDigit = true := by
  have hread : ∃ digits : List Char, (text = digits ∨ text = '+' :: digits) ∧
      (digits.isEmpty || !digits.all Char.isDigit) = false := by
    unfold index? at h
    split at h
    case h_1 rest =>
      refine ⟨rest, .inr rfl, Bool.eq_false_iff.mpr fun hbad => ?_⟩
      simp [hbad] at h
    case h_2 =>
      refine ⟨_, .inl rfl, Bool.eq_false_iff.mpr fun hbad => ?_⟩
      simp [hbad] at h
  obtain ⟨digits, htext, hdigits⟩ := hread
  rw [Bool.or_eq_false_iff, List.isEmpty_eq_false_iff, Bool.not_eq_false', List.all_eq_true]
    at hdigits
  exact ⟨digits, htext, hdigits⟩

theorem index?_eq_some_iff {text : List Char} {i : Nat} :
    index? text = some i ↔ IndexText text i := by
  constructor
  · intro h
    obtain ⟨digits, htext, hne, hdigit⟩ := exists_digits_of_index? h
    rw [index?_of_digits hne hdigit htext, Option.ite_none_right_eq_some] at h
    exact ⟨digits, htext, hne, hdigit, Option.some.inj h.2, Option.some.inj h.2 ▸ h.1⟩
  · rintro ⟨digits, htext, hne, hdigit, rfl, hle⟩
    rw [index?_of_digits hne hdigit htext, if_pos hle]

/-- The decimal digits of an index are a text for it. -/
theorem indexText_repr {i : Nat} (h : i ≤ Binary64.maxWord) : IndexText i.repr.toList i := by
  rw [Nat.toList_repr]
  refine ⟨Nat.toDigits 10 i, .inl rfl, Nat.toDigits_ne_nil, ?_, Nat.ofDigitChars_ten_toDigits, h⟩
  intro c hc
  exact Nat.isDigit_of_mem_toDigits (by decide) (by decide) hc

theorem lastNamed?_eq_lookup (name : String) (ms : List (String × Json ν)) :
    lastNamed? name ms = Table.lookup name ms.reverse := by
  induction ms with
  | nil => rfl
  | cons m ms ih =>
    rw [List.reverse_cons, Table.lookup_append, ← ih, lastNamed?, Table.lookup_cons,
      Table.lookup_nil]

/-- A step leads where it is looked up. -/
theorem stepsTo_iff {step : String} : StepsTo v step w ↔ v.step? step.toList = some w := by
  constructor
  · rintro (hlast | ⟨htext, helement⟩)
    · rw [step?, String.ofList_toList, member?, lastNamed?_eq_lookup,
        Table.lookup_reverse_eq_some_iff]
      exact ⟨_, _, rfl, hlast⟩
    · rw [step?, index?_eq_some_iff.mpr htext]
      exact helement
  · intro h
    cases v with
    | object members =>
      rw [step?, String.ofList_toList, member?, lastNamed?_eq_lookup,
        Table.lookup_reverse_eq_some_iff] at h
      obtain ⟨before, after, rfl, hlast⟩ := h
      exact .member hlast
    | array elements =>
      obtain ⟨i, htext, helement⟩ := Option.bind_eq_some_iff.mp h
      exact .element (index?_eq_some_iff.mp htext) helement
    | _ => cases h

/-- Steps lead where they are looked up one after the other. -/
theorem leads_iff {path : List String} :
    Leads v path w ↔ (path.map String.toList).foldlM step? v = some w := by
  induction path generalizing v with
  | nil =>
    refine ⟨?_, fun h => ?_⟩
    · rintro ⟨⟩
      rfl
    · obtain rfl : v = w := Option.some.inj h
      exact .here v
  | cons step path ih =>
    rw [List.map_cons, List.foldlM_cons, Option.bind_eq_bind, Option.bind_eq_some_iff]
    constructor
    · rintro (_ | ⟨hstep, hpath⟩)
      exact ⟨_, stepsTo_iff.mp hstep, ih.mp hpath⟩
    · rintro ⟨u, hstep, hpath⟩
      exact .onward (stepsTo_iff.mpr hstep) (ih.mpr hpath)

/-- One more step leads on from where the others lead. -/
theorem leads_concat_iff {path : List String} {step : String} {x : Json ν}
    (hlead : Leads v path w) : Leads v (path ++ [step]) x ↔ StepsTo w step x := by
  rw [leads_iff, List.map_append, List.foldlM_append, leads_iff.mp hlead, stepsTo_iff]
  simp

/-! ### Paths as texts -/

/-- A sequence of steps can be written as a path. -/
structure Writable (path : List String) : Prop where
  /-- There is something to be written. -/
  nonempty : ".".intercalate path ≠ ""
  /-- There is nothing blank at its two ends. -/
  bare : Blank.Bare (".".intercalate path).toList
  /-- No step has a point in it. -/
  pointless : ∀ step ∈ path, '.' ∉ step.toList
  /-- The first step is not written like the value itself. -/
  rootless : path.head? ≠ some "$"

theorem splitPoints_eq (cs : List Char) : splitPoints cs = cs.splitOn '.' := by
  induction cs with
  | nil => rfl
  | cons c cs ih =>
    rw [List.splitOn_cons_eq_if_modifyHead]
    by_cases h : c = '.'
    · subst h
      rw [splitPoints, ih, if_pos (by rfl)]
    · rw [splitPoints, ih, if_neg (h ∘ beq_iff_eq.mp)]
      · cases hpieces : cs.splitOn '.' with
        | nil => exact absurd hpieces (List.splitOn_ne_nil '.' cs)
        | cons l more => rfl
      · exact h

theorem intercalate_concat {sep l : List Char} {ls : List (List Char)} (hne : ls ≠ []) :
    sep.intercalate (ls ++ [l]) = sep.intercalate ls ++ sep ++ l := by
  induction ls with
  | nil => exact absurd rfl hne
  | cons a ls ih =>
    cases ls with
    | nil =>
      rw [List.singleton_append, List.intercalate_cons_cons, List.intercalate_singleton,
        List.intercalate_singleton]
    | cons b ls =>
      rw [List.cons_append, List.intercalate_cons_of_ne_nil (by simp), ih (List.cons_ne_nil b ls),
        List.intercalate_cons_of_ne_nil (List.cons_ne_nil b ls)]
      simp only [List.append_assoc]

/-- A path that goes on is written with a point in between. -/
theorem intercalate_step {path : List String} (hne : path ≠ []) (step : String) :
    ".".intercalate (path ++ [step]) = ".".intercalate path ++ "." ++ step := by
  apply String.ext
  rw [String.toList_append, String.toList_append, String.toList_intercalate,
    String.toList_intercalate, List.map_append, List.map_cons, List.map_nil]
  exact intercalate_concat fun hnil => hne (List.map_eq_nil_iff.mp hnil)

namespace Writable

variable {path : List String}

theorem ne_nil (h : Writable path) : path ≠ [] := by
  rintro rfl
  exact h.nonempty rfl

theorem toList_ne_nil (h : Writable path) : (".".intercalate path).toList ≠ [] := fun hnil =>
  h.nonempty (String.toList_eq_nil_iff.mp hnil)

/-- A path is split where it was joined. -/
theorem splitPoints_intercalate (h : Writable path) :
    splitPoints (".".intercalate path).toList = path.map String.toList := by
  have hpieces : ∀ l ∈ path.map String.toList, '.' ∉ l := by
    intro l hl
    obtain ⟨step, hstep, rfl⟩ := List.mem_map.mp hl
    exact h.pointless step hstep
  have hne : path.map String.toList ≠ [] := fun hnil => h.ne_nil (List.map_eq_nil_iff.mp hnil)
  rw [splitPoints_eq, String.toList_intercalate]
  exact List.splitOn_intercalate '.' hpieces hne

/-- The first step is not written like the value itself. -/
theorem map_toList_ne (h : Writable path) (more : List (List Char)) :
    path.map String.toList ≠ ['$'] :: more := by
  intro hmap
  obtain ⟨step, rest, rfl, hstep, -⟩ := List.map_eq_cons_iff.mp hmap
  have hdollar : step = "$" := String.ext hstep
  exact h.rootless (congrArg some hdollar)

/-- Nothing is stripped off a path, for its first step is not `$`. -/
theorem stripRoot_intercalate (h : Writable path) :
    stripRoot (".".intercalate path).toList = (".".intercalate path).toList := by
  have hsplit := h.splitPoints_intercalate
  generalize (".".intercalate path).toList = cs at hsplit ⊢
  unfold stripRoot
  split
  case h_1 rest => exact absurd hsplit.symm (h.map_toList_ne (splitPoints rest))
  case h_2 => rfl

/-- A path has the steps that it is written from, also if it starts with `$.`. -/
theorem steps_root_append (h : Writable path) {root : List Char}
    (hroot : root = [] ∨ root = ['$', '.']) :
    steps (root ++ (".".intercalate path).toList) = path.map String.toList := by
  have hsplit := h.splitPoints_intercalate
  have hstrip : stripRoot (root ++ (".".intercalate path).toList) =
      (".".intercalate path).toList := by
    rcases hroot with rfl | rfl
    · exact h.stripRoot_intercalate
    · exact h.stripRoot_intercalate
  have hbare : Blank.Bare (root ++ (".".intercalate path).toList) := by
    rcases hroot with rfl | rfl
    · exact h.bare
    · refine ⟨fun c hc => ?_, fun c hc => h.bare.last c ?_⟩
      · cases hc
        decide
      · rwa [List.getLast?_append_of_ne_nil _ h.toList_ne_nil] at hc
  have hsomewhere :
      ¬((".".intercalate path).toList = [] ∨ (".".intercalate path).toList = ['$']) := by
    rintro (hnil | hdollar)
    · exact h.toList_ne_nil hnil
    · rw [hdollar] at hsplit
      exact h.map_toList_ne [] hsplit.symm
  rw [steps, hbare.trim_eq, hstrip, if_neg hsomewhere, hsplit]

/-- A path can go on in any step without points that does not end in a blank. -/
theorem concat (h : Writable path) {step : String} (hne : step ≠ "") (hstep : '.' ∉ step.toList)
    (hbare : Blank.Bare step.toList) : Writable (path ++ [step]) := by
  have htext := intercalate_step h.ne_nil step
  have hchars : (".".intercalate (path ++ [step])).toList =
      (".".intercalate path).toList ++ ".".toList ++ step.toList := by
    rw [htext, String.toList_append, String.toList_append]
  obtain ⟨c, cs, hcs⟩ := List.exists_cons_of_ne_nil h.toList_ne_nil
  have hlast : step.toList ≠ [] := fun hnil => hne (String.toList_eq_nil_iff.mp hnil)
  refine ⟨?_, ⟨?_, ?_⟩, ?_, ?_⟩
  · intro hempty
    rw [hempty, hcs] at hchars
    cases hchars
  · rw [hchars, hcs]
    intro d hd
    exact h.bare.head d (by rw [hcs]; exact hd)
  · rw [hchars, List.getLast?_append_of_ne_nil _ hlast]
    exact hbare.last
  · intro l hl
    rcases List.mem_append.mp hl with hl | hl
    · exact h.pointless l hl
    · rwa [List.mem_singleton.mp hl]
  · rw [List.head?_append_of_ne_nil _ h.ne_nil]
    exact h.rootless

/-- What the steps of a path lead to is found at it. -/
theorem lookup?_eq_some_iff (h : Writable path) :
    v.lookup? (".".intercalate path) = some w ↔ Leads v path w := by
  rw [leads_iff, ← h.steps_root_append (.inl rfl)]
  rfl

/-- It is also found at the path that starts with `$.`. -/
theorem lookup?_root_eq_some_iff (h : Writable path) :
    v.lookup? ("$." ++ ".".intercalate path) = some w ↔ Leads v path w := by
  rw [leads_iff, ← h.steps_root_append (.inr rfl), lookup?, String.toList_append]
  rfl

end Writable

/-- **Every position has a path.**  If steps lead from a value to another one and can be written as
a path, this is what is found at the path, also if it starts with `$.`.  If the path goes on in one
more step, without points and without blanks at its ends, then what is found is where this step
leads, and nothing if it leads nowhere. -/
theorem lookups_reach_every_position {path : List String} (hlead : Leads v path w)
    (hpath : Writable path) :
    v.lookup? (".".intercalate path) = some w ∧
    v.lookup? ("$." ++ ".".intercalate path) = some w ∧
    ∀ step : String, step ≠ "" → '.' ∉ step.toList → Blank.Bare step.toList → ∀ x,
      v.lookup? (".".intercalate path ++ "." ++ step) = some x ↔ StepsTo w step x := by
  refine ⟨hpath.lookup?_eq_some_iff.mpr hlead, hpath.lookup?_root_eq_some_iff.mpr hlead, ?_⟩
  intro step hne hpoint hbare x
  rw [← intercalate_step hpath.ne_nil, (hpath.concat hne hpoint hbare).lookup?_eq_some_iff]
  exact leads_concat_iff hlead

/-- A value with a member that has no name. -/
def nested : Json Nat :=
  object [("a", object [("", array [object [("id", number 1)], object [("id", number 2)]])])]

/-- Of its two elements the second one has a path, and so has what is in it.  There is no third
one. -/
theorem nested_is_reached :
    Leads nested ["a", "", "1"] (object [("id", number 2)]) ∧ Writable ["a", "", "1"] ∧
    nested.lookup? "a..1" = some (object [("id", number 2)]) ∧
    nested.lookup? "$.a..1" = some (object [("id", number 2)]) ∧
    nested.lookup? "a..1.id" = some (number 2) ∧ ∀ x, nested.lookup? "a..1.0" ≠ some x := by
  have hindex : IndexText "1".toList 1 := indexText_repr (i := 1) (by decide)
  have hlead : Leads nested ["a", "", "1"] (object [("id", number 2)]) :=
    .onward (stepsTo_iff.mpr rfl) <| .onward (stepsTo_iff.mpr rfl) <|
      .onward (.element hindex rfl) (.here _)
  have hpath : Writable ["a", "", "1"] := ⟨by decide, by decide, by decide, by decide⟩
  obtain ⟨hfound, hroot, hsteps⟩ := lookups_reach_every_position hlead hpath
  have hid := hsteps "id" (by decide) (by decide) (by decide) (number 2)
  have hzero := hsteps "0" (by decide) (by decide) (by decide)
  refine ⟨hlead, hpath, hfound, hroot, hid.mpr (stepsTo_iff.mpr rfl), ?_⟩
  intro x hx
  have hnone : (object [("id", number 2)] : Json Nat).step? "0".toList = none := rfl
  cases hnone.symm.trans (stepsTo_iff.mp ((hzero x).mp hx))

end Json

end StagedLoad
