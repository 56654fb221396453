import StagedLoad.Threshold.Parser

/-!
# What the reader of threshold expressions accepts

A text that can be read splits into the four parts of an expression, and only the
characters other than blanks matter.  No part can hold a colon, so no text that can be
read does; and only the comparison can hold the characters that symbols are made of.

## Main results

* `Threshold.Expr.parse_eq_ok_iff` — a text is read as an expression exactly when its parts
  are read.
* `Threshold.Expr.parse_trim` — blanks around a text do not matter.
* `Threshold.Expr.colon_notMem_of_parse` — there is no colon in what is read.
-/

namespace StagedLoad

/-! ### Blanks -/

namespace Blank

theorem filter_trimStart (cs : List Char) :
    (trimStart cs).filter (fun c => !isBlank c) = cs.filter fun c => !isBlank c := by
  unfold trimStart
  induction cs with
  | nil => rfl
  | cons c cs ih =>
    rw [List.dropWhile_cons]
    split
    · rename_i hc
      rw [ih, List.filter_cons_of_neg (by simp [hc])]
    · rfl

theorem filter_trimEnd (cs : List Char) :
    (trimEnd cs).filter (fun c => !isBlank c) = cs.filter fun c => !isBlank c := by
  have h := filter_trimStart cs.reverse
  unfold trimStart at h
  unfold trimEnd
  rw [List.filter_reverse, h, List.filter_reverse, List.reverse_reverse]

/-- Trimming takes only blanks away. -/
theorem squeeze_trim (s : String) : squeeze (trim s) = squeeze s := by
  unfold squeeze trim
  rw [String.toList_ofList, filter_trimEnd, filter_trimStart]

theorem mem_squeeze {s : String} {c : Char} (hc : isBlank c = false) :
    c ∈ squeeze s ↔ c ∈ s.toList := by
  simp [squeeze, hc]

/-- A character that is not blank stays when a text is trimmed. -/
theorem mem_trim {s : String} {c : Char} (hc : isBlank c = false) :
    c ∈ (trim s).toList ↔ c ∈ s.toList := by
  rw [← mem_squeeze hc, squeeze_trim, mem_squeeze hc]

end Blank

/-! ### Characters that only separate -/

/-- The characters other than digits that selectors, numbers and units are written with, in
lower case. -/
def Threshold.tokens : List Char := "+-.()%µacdefghimnoprstuvxy".toList

/-- A character that neither a selector nor a number nor a unit can have. -/
structure Threshold.Foreign (x : Char) : Prop where
  /-- It is not blank. -/
  visible : Blank.isBlank x = false
  /-- It is no digit. -/
  notDigit : x.isDigit = false
  /-- It is none of the others, in any letter case. -/
  notToken : x.toLower ∉ tokens

namespace Threshold.Foreign

theorem colon : Foreign ':' := ⟨by decide, by decide, by decide⟩
theorem less : Foreign '<' := ⟨by decide, by decide, by decide⟩
theorem greater : Foreign '>' := ⟨by decide, by decide, by decide⟩
theorem equals : Foreign '=' := ⟨by decide, by decide, by decide⟩

variable {x : Char}

theorem ne (hx : Foreign x) {c : Char} (hc : c.toLower ∈ tokens) : x ≠ c :=
  fun h => hx.notToken (h ▸ hc)

/-- A word of such characters does not have it, in whatever letter case it is written. -/
theorem notMem_of_map_toLower (hx : Foreign x) {cs word : List Char}
    (hcs : cs.map Char.toLower = word) (hword : word.all (· ∈ tokens) = true) : x ∉ cs := by
  intro hmem
  have hlower : x.toLower ∈ word := hcs ▸ List.mem_map_of_mem hmem
  exact hx.notToken (of_decide_eq_true (List.all_eq_true.1 hword _ hlower))

end Threshold.Foreign

/-! ### Numbers -/

namespace Literal

open Threshold (Foreign)

variable {x : Char} {cs : List Char}

theorem notMem_splitSign (hx : Foreign x) (h : x ∉ (splitSign cs).2) : x ∉ cs := by
  unfold splitSign at h
  split at h
  · simpa [hx.ne (c := '-') (by decide)] using h
  · simpa [hx.ne (c := '+') (by decide)] using h
  · exact h

theorem notMem_of_all_isDigit (hx : Foreign x) (h : cs.all Char.isDigit = true) : x ∉ cs := by
  intro hmem
  have hdigit : x.isDigit = true := List.all_eq_true.mp h x hmem
  rw [hx.notDigit] at hdigit
  cases hdigit

theorem notMem_exponent (hx : Foreign x) {e : Int} (h : exponent? cs = some e) : x ∉ cs := by
  unfold exponent? at h
  split at h
  · exact List.not_mem_nil
  · rename_i c rest
    split at h
    · rename_i hc
      simp only at h
      split at h
      · cases h
      · rename_i hdigits
        have hall : (splitSign rest).2.all Char.isDigit = true := by
          simp only [Bool.or_eq_true, Bool.not_eq_true', not_or, Bool.not_eq_false] at hdigits
          exact hdigits.2
        have hrest : x ∉ rest := notMem_splitSign hx (notMem_of_all_isDigit hx hall)
        have hmark : x ≠ c := by rcases hc with rfl | rfl <;> exact hx.ne (by decide)
        simp [hrest, hmark]
    · cases h

theorem notMem_of_dropWhile (hx : Foreign x) (h : x ∉ cs.dropWhile Char.isDigit) : x ∉ cs := by
  rw [← List.takeWhile_append_dropWhile (p := Char.isDigit) (l := cs), List.mem_append, not_or]
  exact ⟨notMem_of_all_isDigit hx List.all_takeWhile, h⟩

theorem notMem_unsigned (hx : Foreign x) {negative : Bool} {l : Literal}
    (h : unsigned? negative cs = some l) : x ∉ cs := by
  unfold unsigned? at h
  simp only at h
  apply notMem_of_dropWhile hx
  -- behind the whole part there is a point and more digits, or the exponent at once
  split at h
  · rename_i more hrest
    rw [hrest]
    split at h
    · cases h
    · obtain ⟨e, he, -⟩ := Option.map_eq_some_iff.mp h
      have hmore : x ∉ more := notMem_of_dropWhile hx (notMem_exponent hx he)
      have hpoint : x ≠ '.' := hx.ne (by decide)
      simp [hmore, hpoint]
  · split at h
    · cases h
    · obtain ⟨e, he, -⟩ := Option.map_eq_some_iff.mp h
      exact notMem_exponent hx he

/-- There is no such character in a number. -/
theorem notMem_of_ofChars? (hx : Foreign x) {l : Literal} (h : ofChars? cs = some l) :
    x ∉ cs := by
  unfold ofChars? at h
  simp only at h
  apply notMem_splitSign hx
  split at h
  · rename_i hnan
    exact hx.notMem_of_map_toLower hnan (by decide)
  · split at h
    · rename_i hinf
      rcases hinf with hinf | hinf
      · exact hx.notMem_of_map_toLower hinf (by decide)
      · exact hx.notMem_of_map_toLower hinf (by decide)
    · exact notMem_unsigned hx h

end Literal

theorem Percentile.notMem_of_parse {x : Char} (hx : Threshold.Foreign x) {text : String}
    {p : Percentile} (h : Percentile.parse text = .ok p) : x ∉ text.toList := by
  unfold Percentile.parse at h
  split at h
  · rename_i y hy
    obtain ⟨l, hl, -⟩ := Option.map_eq_some_iff.mp hy
    rw [← Blank.mem_trim hx.visible]
    exact Literal.notMem_of_ofChars? hx hl
  · cases h

namespace Threshold

/-! ### The parts of an expression -/

theorem eq_append_of_splitAt? {symbol : List Char} :
    ∀ {cs before behind : List Char}, splitAt? symbol cs = some (before, behind) →
      cs = before ++ symbol ++ behind := by
  intro cs
  induction cs with
  | nil =>
    intro before behind h
    unfold splitAt? at h
    split at h
    · rename_i hempty
      rw [List.isEmpty_iff] at hempty
      cases h
      rw [hempty]
      rfl
    · cases h
  | cons c cs ih =>
    intro before behind h
    unfold splitAt? at h
    split at h
    · rename_i hpre
      obtain ⟨rest, hrest⟩ := List.isPrefixOf_iff_prefix.mp hpre
      cases h
      rw [← hrest]
      simp
    · obtain ⟨⟨before', behind'⟩, h', heq⟩ := Option.map_eq_some_iff.mp h
      cases heq
      rw [ih h']
      rfl

theorem eq_append_of_splitComparison? {cs left right : List Char} {op : Comparison}
    (h : splitComparison? cs = some (op, left, right)) :
    cs = left ++ op.symbol.toList ++ right := by
  unfold splitComparison? at h
  obtain ⟨op', -, h⟩ := List.exists_of_findSome?_eq_some h
  obtain ⟨⟨left', right'⟩, h, heq⟩ := Option.map_eq_some_iff.mp h
  cases heq
  exact eq_append_of_splitAt? h

/-- Whether a selector can be read does not depend on the text that is shown if it cannot. -/
theorem readSelector_congr {raw raw' : String} {cs : List Char} {s : Selector}
    (h : readSelector raw cs = .ok s) : readSelector raw' cs = .ok s := by
  unfold readSelector at h ⊢
  split at h
  · exact h
  · split at h
    · cases h
    · split at h
      · exact h
      · cases h

theorem readNumber_congr {raw raw' : String} {cs : List Char} {x : Float}
    (h : readNumber raw cs = .ok x) : readNumber raw' cs = .ok x := by
  unfold readNumber at h ⊢
  split at h
  · split at h
    · rename_i hfin
      rw [if_pos hfin]
      exact h
    · cases h
  · cases h

theorem readUnit_congr {raw raw' : String} {cs : List Char} {u : Option Unit}
    (h : readUnit raw cs = .ok u) : readUnit raw' cs = .ok u := by
  unfold readUnit at h ⊢
  split at h
  · rename_i hempty
    rw [if_pos hempty]
    exact h
  · rename_i hempty
    rw [if_neg hempty]
    split at h
    · exact h
    · cases h

/-- The parts of a text that is read as an expression. -/
structure Parts (raw : String) (e : Expr) (left right : List Char) : Prop where
  /-- The comparison stands between two sides. -/
  split : splitComparison? (Blank.squeeze raw) = some (e.comparison, left, right)
  /-- There is something before it. -/
  left_ne : left ≠ []
  /-- There is something behind it. -/
  right_ne : right ≠ []
  /-- The selector stands before it. -/
  selector : readSelector raw left = .ok e.selector
  /-- A number and a unit stand behind it and give the limit. -/
  limit : ∃ x, readNumber raw (right.takeWhile isNumberChar) = .ok x ∧
    e.limit = e.unit.elim x fun u => u.scale x
  /-- The unit is what the number leaves. -/
  unit : readUnit raw (right.dropWhile isNumberChar) = .ok e.unit

/-- **A text is read as an expression exactly when its parts are read.** -/
theorem Expr.parse_eq_ok_iff {raw : String} {e : Expr} :
    Expr.parse raw = .ok e ↔ ∃ left right, Parts raw e left right := by
  unfold Expr.parse
  constructor
  · intro h
    simp only [bind, Except.bind, throw, throwThe, MonadExceptOf.throw, pure, Except.pure] at h
    split at h
    · cases h
    · split at h
      · rename_i op left right hsplit
        split at h
        · cases h
        · rename_i hne
          simp only [Bool.or_eq_true, List.isEmpty_iff, not_or] at hne
          cases hsel : readSelector raw left with
          | error f => rw [hsel] at h; cases h
          | ok sel =>
            cases hnum : readNumber raw (right.takeWhile isNumberChar) with
            | error f => rw [hsel, hnum] at h; cases h
            | ok x =>
              cases hunit : readUnit raw (right.dropWhile isNumberChar) with
              | error f => rw [hsel, hnum, hunit] at h; cases h
              | ok u =>
                rw [hsel, hnum, hunit] at h
                cases h
                exact ⟨left, right, hsplit, hne.1, hne.2, hsel, ⟨x, hnum, rfl⟩, hunit⟩
      · cases h
  · rintro ⟨left, right, hparts⟩
    obtain ⟨x, hnum, hlimit⟩ := hparts.limit
    have hne : Blank.squeeze raw ≠ [] := by
      rw [eq_append_of_splitComparison? hparts.split]
      simp [hparts.left_ne]
    have hempty : (Blank.squeeze raw).isEmpty = false := by simp [hne]
    have hsides : (left.isEmpty || right.isEmpty) = false := by
      simp [hparts.left_ne, hparts.right_ne]
    simp only [hempty, hparts.split, hsides, hparts.selector, hnum, hparts.unit, bind,
      Except.bind, pure, Except.pure, ← hlimit]
    rfl

/-- Only the characters other than blanks decide what is read. -/
theorem Expr.parse_congr {raw raw' : String} {e : Expr}
    (hraw : Blank.squeeze raw' = Blank.squeeze raw) (h : Expr.parse raw = .ok e) :
    Expr.parse raw' = .ok e := by
  rw [Expr.parse_eq_ok_iff] at h ⊢
  obtain ⟨left, right, hparts⟩ := h
  obtain ⟨x, hnum, hlimit⟩ := hparts.limit
  exact ⟨left, right, hraw ▸ hparts.split, hparts.left_ne, hparts.right_ne,
    readSelector_congr hparts.selector, ⟨x, readNumber_congr hnum, hlimit⟩,
    readUnit_congr hparts.unit⟩

/-- Blanks around a text do not matter. -/
theorem Expr.parse_trim {raw : String} {e : Expr} (h : Expr.parse raw = .ok e) :
    Expr.parse (Blank.trim raw) = .ok e :=
  Expr.parse_congr (Blank.squeeze_trim raw) h

/-! ### What the parts do not have -/

section Foreign

variable {x : Char} {raw : String} {cs : List Char}

theorem notMem_percentileText? (hx : Foreign x) {inner : List Char}
    (h : percentileText? cs = some inner) (hinner : x ∉ inner) : x ∉ cs := by
  unfold percentileText? at h
  split at h
  case h_1 =>
    split at h
    case isTrue hlast =>
      cases h
      obtain ⟨init, hrest⟩ := List.getLast?_eq_some_iff.mp hlast
      subst hrest
      rw [List.dropLast_concat] at hinner
      have hp : x ≠ 'p' := hx.ne (by decide)
      have hopen : x ≠ '(' := hx.ne (by decide)
      have hclose : x ≠ ')' := hx.ne (by decide)
      simp [hinner, hp, hopen, hclose]
    case isFalse => cases h
  case h_2 => cases h

theorem notMem_selector (hx : Foreign x) {s : Selector} (h : readSelector raw cs = .ok s) :
    x ∉ cs := by
  unfold readSelector at h
  split at h
  · rename_i w hw
    have hname : w.name.toList = cs.map Char.toLower := by
      simpa using List.find?_some hw
    have htokens : ∀ w ∈ Selector.words, w.name.toList.all (· ∈ tokens) = true := by decide
    exact hx.notMem_of_map_toLower hname.symm (htokens w (List.mem_of_find?_eq_some hw))
  · split at h
    · cases h
    · rename_i inner hinner
      split at h
      · rename_i p hp
        have hnone : x ∉ inner := by simpa using Percentile.notMem_of_parse hx hp
        exact notMem_percentileText? hx hinner hnone
      · cases h

theorem notMem_unit (hx : Foreign x) {u : Option Unit} (h : readUnit raw cs = .ok u) : x ∉ cs := by
  unfold readUnit at h
  split at h
  · rename_i hempty
    rw [List.isEmpty_iff.mp hempty]
    exact List.not_mem_nil
  · split at h
    · rename_i spelling _ hfind
      have hspelling : spelling.toList = cs := by simpa using List.find?_some hfind
      have htokens : ∀ e ∈ unitSpellings,
          (e.1.toList.map Char.toLower).all (· ∈ tokens) = true := by decide
      exact hx.notMem_of_map_toLower (congrArg _ hspelling.symm)
        (htokens _ (List.mem_of_find?_eq_some hfind))
    · cases h

theorem notMem_numberChars (hx : Foreign x) (h : cs.all isNumberChar = true) : x ∉ cs := by
  intro hmem
  have hnumber : isNumberChar x = true := List.all_eq_true.mp h x hmem
  have hpoint : x ≠ '.' := hx.ne (by decide)
  have hminus : x ≠ '-' := hx.ne (by decide)
  have hplus : x ≠ '+' := hx.ne (by decide)
  simp [isNumberChar, hx.notDigit, hpoint, hminus, hplus] at hnumber

end Foreign

theorem colon_notMem_symbol (op : Comparison) : ':' ∉ op.symbol.toList := by
  cases op <;> decide

/-- **There is no colon in what is read.** -/
theorem Expr.colon_notMem_of_parse {raw : String} {e : Expr} (h : Expr.parse raw = .ok e) :
    ':' ∉ raw.toList := by
  obtain ⟨left, right, hparts⟩ := Expr.parse_eq_ok_iff.mp h
  have hright : ':' ∉ right := by
    rw [← List.takeWhile_append_dropWhile (p := isNumberChar) (l := right), List.mem_append, not_or]
    exact ⟨notMem_numberChars .colon List.all_takeWhile, notMem_unit .colon hparts.unit⟩
  rw [← Blank.mem_squeeze Foreign.colon.visible, eq_append_of_splitComparison? hparts.split]
  simp [notMem_selector .colon hparts.selector, colon_notMem_symbol, hright]

end Threshold

end StagedLoad
