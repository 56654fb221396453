import StagedLoad.Proofs.Threshold.Parser

/-!
# The grammar of threshold expressions

What an expression is written like is said here without the reader: a selector, a comparison, a
number and a unit, each with its own spellings.  The reader looks for the comparison in the whole
text, symbol by symbol, and still accepts exactly these texts: no part but the comparison can
hold a character of a symbol, so there is nothing else to be found.

## Main definitions

* `Selector.Spelled`, `Comparison.spelling`, `NumberSpelled`, `UnitSpelled` — how the parts are
  written.
* `Counts` — what a unit makes of a number.
* `Cut`, `Cut.Cuts`, `Cut.Spells` — a text cut into its parts, and the expression that they spell.

## Main results

* `splitComparison?_eq_some` — where the comparison is found.
* `parse_exactly_spelled` — the reader accepts what is spelled, and nothing else; there is one
  way only to cut it.
-/

namespace StagedLoad.Threshold

/-! ### Spellings -/

/-- The code points with the Unicode property `White_Space`. -/
def whiteSpace : List Nat :=
  [0x9, 0xA, 0xB, 0xC, 0xD, 0x20, 0x85, 0xA0, 0x1680, 0x2000, 0x2001, 0x2002, 0x2003, 0x2004,
    0x2005, 0x2006, 0x2007, 0x2008, 0x2009, 0x200A, 0x2028, 0x2029, 0x202F, 0x205F, 0x3000]

/-- The selectors that are plain words. -/
def selectorWords : List (Selector × String) :=
  [(.avg, "avg"), (.min, "min"), (.max, "max"), (.med, "med"), (.count, "count"), (.rate, "rate")]

/-- How a selector is written: a word in any letter case, or a percentile in `p(…)`. -/
inductive Selector.Spelled : Selector → List Char → Prop
  | word {w : Selector} {name : String} {cs : List Char} (mem : (w, name) ∈ selectorWords)
      (letters : cs.map Char.toLower = name.toList) : Spelled w cs
  | percentile {p : Percentile} {inner : List Char}
      (reads : Percentile.parse (String.ofList inner) = .ok p) :
      Spelled (.percentile p) (['p', '('] ++ inner ++ [')'])

/-- How a comparison is written. -/
def Comparison.spelling : Comparison → List Char
  | lt => ['<']
  | le => ['<', '=']
  | gt => ['>']
  | ge => ['>', '=']
  | eq => ['=', '=']

/-- How a finite double is written: with digits, points and signs. -/
structure NumberSpelled (x : Float) (cs : List Char) : Prop where
  /-- There is something. -/
  ne : cs ≠ []
  /-- The characters. -/
  chars : ∀ c ∈ cs, c.isDigit = true ∨ c ∈ ['.', '+', '-']
  /-- The double. -/
  reads : Binary64.ofChars? cs = some x
  /-- It is finite. -/
  finite : Binary64.isFinite x = true

/-- How a unit is written: not at all, by its symbol, or, for microseconds, with a `µ`. -/
inductive UnitSpelled : Option Unit → List Char → Prop
  | none : UnitSpelled none []
  | symbol (u : Unit) : UnitSpelled (some u) u.symbol.toList
  | micro : UnitSpelled (some .microseconds) ['\u00b5', 's']

/-- What a unit makes of a number: a time becomes a number of milliseconds, and a number of
hundredths becomes a fraction. -/
inductive Counts : Option Unit → (number limit : Float) → Prop
  | plain (x : Float) : Counts none x x
  | percent (x : Float) : Counts (some .percent) x (x / 100)
  | nanoseconds (x : Float) : Counts (some .nanoseconds) x (x / 1000000)
  | microseconds (x : Float) : Counts (some .microseconds) x (x / 1000)
  | milliseconds (x : Float) : Counts (some .milliseconds) x x
  | seconds (x : Float) : Counts (some .seconds) x (x * 1000)
  | minutes (x : Float) : Counts (some .minutes) x (x * 60000)
  | hours (x : Float) : Counts (some .hours) x (x * 3600000)

/-- A text that is cut into four parts. -/
structure Cut where
  /-- The selector. -/
  selector : List Char
  /-- The comparison. -/
  comparison : Comparison
  /-- The number. -/
  number : List Char
  /-- The unit. -/
  unit : List Char

namespace Cut

/-- The text of the parts. -/
def text (c : Cut) : List Char :=
  c.selector ++ c.comparison.spelling ++ (c.number ++ c.unit)

/-- The parts are those of a text without white space. -/
def Cuts (c : Cut) (raw : String) : Prop :=
  c.text = raw.toList.filter fun x => x.toNat ∉ whiteSpace

/-- The parts spell an expression. -/
structure Spells (c : Cut) (e : Expr) : Prop where
  /-- The selector. -/
  selector : e.selector.Spelled c.selector
  /-- The comparison. -/
  comparison : e.comparison = c.comparison
  /-- The limit is what the number counts in the unit. -/
  limit : ∃ x, NumberSpelled x c.number ∧ Counts e.unit x e.limit
  /-- The unit. -/
  unit : UnitSpelled e.unit c.unit

end Cut

/-! ### The tables of the reader -/

theorem mem_selectorWords {w : Selector} {name : String} :
    (w, name) ∈ selectorWords ↔ w ∈ Selector.words ∧ w.name = name := by
  have htable : selectorWords = Selector.words.map fun w => (w, w.name) := rfl
  rw [htable, List.mem_map]
  constructor
  · rintro ⟨w', hw', heq⟩
    cases heq
    exact ⟨hw', rfl⟩
  · rintro ⟨hw, rfl⟩
    exact ⟨w, hw, rfl⟩

theorem Comparison.spelling_eq (op : Comparison) : op.spelling = op.symbol.toList := by
  cases op <;> rfl

theorem counts_iff {u : Option Unit} {x limit : Float} :
    Counts u x limit ↔ limit = u.elim x fun u => u.scale x := by
  constructor
  · intro h
    cases h <;> rfl
  · rintro rfl
    rcases u with _ | u
    · exact .plain x
    · cases u with
      | nanoseconds => exact .nanoseconds x
      | microseconds => exact .microseconds x
      | milliseconds => exact .milliseconds x
      | seconds => exact .seconds x
      | minutes => exact .minutes x
      | hours => exact .hours x
      | percent => exact .percent x

theorem isBlank_eq (x : Char) : Blank.isBlank x = decide (x.toNat ∈ whiteSpace) := by
  rw [Bool.eq_iff_iff, decide_eq_true_eq]
  simp only [Blank.isBlank, whiteSpace, List.mem_cons, List.not_mem_nil, or_false,
    Bool.or_eq_true, Bool.and_eq_true, decide_eq_true_eq, beq_iff_eq]
  omega

theorem Cut.cuts_iff {c : Cut} {raw : String} : c.Cuts raw ↔ c.text = Blank.squeeze raw := by
  have hfilter : Blank.squeeze raw = raw.toList.filter fun x => x.toNat ∉ whiteSpace :=
    List.filter_congr fun x _ => by rw [isBlank_eq, decide_not]
  rw [hfilter, Cuts]

/-! ### The readers of the parts -/

section Readers

variable {raw : String} {cs : List Char}

theorem percentileText?_eq_some_iff {inner : List Char} :
    percentileText? cs = some inner ↔ cs = ['p', '('] ++ inner ++ [')'] := by
  constructor
  · intro h
    unfold percentileText? at h
    split at h
    case h_1 rest =>
      split at h
      case isTrue hlast =>
        obtain ⟨init, hrest⟩ := List.getLast?_eq_some_iff.mp hlast
        cases h
        simp [hrest]
      case isFalse => cases h
    case h_2 => cases h
  · rintro rfl
    simp [percentileText?]

/-- A word in any letter case is found, since no two words have the same letters. -/
theorem find?_words_of_letters {w : Selector} (mem : w ∈ Selector.words)
    (letters : cs.map Char.toLower = w.name.toList) :
    (Selector.words.find? fun w => w.name.toList == cs.map Char.toLower) = some w := by
  have hnames : ∀ w ∈ Selector.words, ∀ w' ∈ Selector.words,
      w.name.toList = w'.name.toList → w = w' := by decide
  cases hfind : Selector.words.find? fun w => w.name.toList == cs.map Char.toLower with
  | none =>
    have hnone := List.find?_eq_none.1 hfind w mem
    exact absurd letters.symm (by simpa using hnone)
  | some w' =>
    have hname : w'.name.toList = cs.map Char.toLower := by simpa using List.find?_some hfind
    rw [hnames w' (List.mem_of_find?_eq_some hfind) w mem (hname.trans letters)]

/-- No word is found where there is a bracket. -/
theorem find?_words_of_bracket (h : '(' ∈ cs) :
    (Selector.words.find? fun w => w.name.toList == cs.map Char.toLower) = none := by
  have hbracket : ∀ w ∈ Selector.words, '(' ∉ w.name.toList := by decide
  rw [List.find?_eq_none]
  intro w hw hname
  refine hbracket w hw ?_
  rw [eq_of_beq hname]
  exact List.mem_map.mpr ⟨'(', h, rfl⟩

/-- A selector is read exactly if it is spelled. -/
theorem readSelector_eq_ok_iff {s : Selector} : readSelector raw cs = .ok s ↔ s.Spelled cs := by
  constructor
  · intro h
    unfold readSelector at h
    split at h
    case h_1 w hw =>
      cases h
      have hname : s.name.toList = cs.map Char.toLower := by simpa using List.find?_some hw
      exact .word (mem_selectorWords.2 ⟨List.mem_of_find?_eq_some hw, rfl⟩) hname.symm
    case h_2 =>
      split at h
      case h_1 => cases h
      case h_2 inner hinner =>
        split at h
        case h_1 p hp =>
          cases h
          rw [percentileText?_eq_some_iff.1 hinner]
          exact .percentile hp
        case h_2 => cases h
  · intro h
    unfold readSelector
    cases h with
    | word mem letters =>
      obtain ⟨hmem, rfl⟩ := mem_selectorWords.1 mem
      rw [find?_words_of_letters hmem letters]
    | @percentile p inner reads =>
      rw [find?_words_of_bracket (by simp), percentileText?_eq_some_iff.2 rfl]
      simp only [reads]

theorem isNumberChar_iff {c : Char} :
    isNumberChar c = true ↔ c.isDigit = true ∨ c ∈ ['.', '+', '-'] := by
  simp [isNumberChar, or_assoc, or_comm, or_left_comm]

/-- A text of such characters is read as a number exactly if it is spelled. -/
theorem readNumber_eq_ok_iff {x : Float} (hcs : cs.all isNumberChar = true) :
    readNumber raw cs = .ok x ↔ NumberSpelled x cs := by
  constructor
  · intro h
    unfold readNumber at h
    split at h
    case h_1 y hy =>
      split at h
      case isTrue hfinite =>
        cases h
        refine ⟨?_, ?_, hy, hfinite⟩
        · rintro rfl
          cases hy
        · intro c hc
          exact isNumberChar_iff.1 (List.all_eq_true.1 hcs c hc)
      case isFalse => cases h
    case h_2 => cases h
  · intro h
    simp [readNumber, h.reads, h.finite]

theorem all_isNumberChar {x : Float} (h : NumberSpelled x cs) : cs.all isNumberChar = true :=
  List.all_eq_true.2 fun c hc => isNumberChar_iff.2 (h.chars c hc)

/-- A unit is read exactly if it is spelled. -/
theorem readUnit_eq_ok_iff {u : Option Unit} : readUnit raw cs = .ok u ↔ UnitSpelled u cs := by
  constructor
  · intro h
    unfold readUnit at h
    split at h
    case isTrue hempty =>
      cases h
      rw [List.isEmpty_iff.1 hempty]
      exact .none
    case isFalse =>
      split at h
      case h_1 spelling u hfind =>
        cases h
        have hspelling : spelling.toList = cs := by simpa using List.find?_some hfind
        have hmem := List.mem_of_find?_eq_some hfind
        rw [← hspelling]
        simp only [unitSpellings, List.mem_cons, Prod.mk.injEq, List.not_mem_nil, or_false] at hmem
        rcases hmem with ⟨rfl, rfl⟩ | ⟨rfl, rfl⟩ | ⟨rfl, rfl⟩ | ⟨rfl, rfl⟩ | ⟨rfl, rfl⟩ |
          ⟨rfl, rfl⟩ | ⟨rfl, rfl⟩ | ⟨rfl, rfl⟩
        · exact .symbol .percent
        · exact .symbol .nanoseconds
        · exact .symbol .microseconds
        · exact .micro
        · exact .symbol .milliseconds
        · exact .symbol .seconds
        · exact .symbol .minutes
        · exact .symbol .hours
      case h_2 => cases h
  · intro h
    cases h with
    | none => rfl
    | symbol u => cases u <;> rfl
    | micro => rfl

theorem Selector.Spelled.ne_nil {s : Selector} (h : s.Spelled cs) : cs ≠ [] := by
  cases h with
  | word mem letters =>
    obtain ⟨hmem, rfl⟩ := mem_selectorWords.1 mem
    have hnames : ∀ w ∈ Selector.words, w.name.toList ≠ [] := by decide
    rintro rfl
    exact hnames s hmem letters.symm
  | percentile => simp

/-- No unit begins like a number. -/
theorem UnitSpelled.span {u : Option Unit} (h : UnitSpelled u cs) :
    cs.takeWhile isNumberChar = [] ∧ cs.dropWhile isNumberChar = cs := by
  cases h with
  | none => exact ⟨rfl, rfl⟩
  | symbol u => cases u <;> exact ⟨rfl, rfl⟩
  | micro => exact ⟨rfl, rfl⟩

end Readers

/-! ### Where the comparison is found -/

/-- The characters that symbols of comparisons are made of. -/
def marks : List Char := ['<', '>', '=']

theorem foreign_of_mem_marks {x : Char} (hx : x ∈ marks) : Foreign x := by
  simp only [marks, List.mem_cons, List.not_mem_nil, or_false] at hx
  rcases hx with rfl | rfl | rfl
  · exact .less
  · exact .greater
  · exact .equals

/-- A symbol is not found where one of its characters is missing. -/
theorem splitAt?_eq_none {symbol cs : List Char} {x : Char} (hx : x ∈ symbol) (hcs : x ∉ cs) :
    splitAt? symbol cs = none := by
  cases h : splitAt? symbol cs with
  | none => rfl
  | some sides =>
    rw [eq_append_of_splitAt? h] at hcs
    simp [hx] at hcs

/-- A symbol is found at once, or behind characters that it does not have. -/
theorem splitAt?_eq_some {symbol left right : List Char} (hsymbol : symbol ≠ [])
    (hleft : ∀ x ∈ symbol, x ∉ left) :
    splitAt? symbol (left ++ symbol ++ right) = some (left, right) := by
  induction left with
  | nil =>
    cases symbol with
    | nil => exact absurd rfl hsymbol
    | cons x rest => simp [splitAt?]
  | cons c left ih =>
    have hrest := ih fun x hx hmem => hleft x hx (List.mem_cons_of_mem c hmem)
    have hpre : symbol.isPrefixOf (c :: (left ++ symbol ++ right)) = false := by
      cases symbol with
      | nil => exact absurd rfl hsymbol
      | cons x rest =>
        have hne : x ≠ c := fun h => hleft x List.mem_cons_self (h ▸ List.mem_cons_self)
        simp [List.isPrefixOf, hne]
    rw [List.cons_append, List.cons_append, splitAt?, hpre, hrest]
    rfl

/-- Whatever is looked for before a symbol has a character that the symbol does not have. -/
theorem searchOrder_eq (op : Comparison) : ∃ earlier later,
    Comparison.searchOrder = earlier ++ op :: later ∧
      ∀ op' ∈ earlier, ∃ x ∈ op'.symbol.toList, x ∉ op.symbol.toList := by
  cases op with
  | le => exact ⟨[], _, rfl, by simp [Comparison.symbol]⟩
  | ge => exact ⟨[.le], _, rfl, by simp [Comparison.symbol]⟩
  | eq => exact ⟨[.le, .ge], _, rfl, by simp [Comparison.symbol]⟩
  | lt => exact ⟨[.le, .ge, .eq], _, rfl, by simp [Comparison.symbol]⟩
  | gt => exact ⟨[.le, .ge, .eq, .lt], _, rfl, by simp [Comparison.symbol]⟩

theorem mem_marks_of_mem_symbol {op : Comparison} {x : Char} (hx : x ∈ op.symbol.toList) :
    x ∈ marks := by
  have hall : op.symbol.toList.all (· ∈ marks) = true := by cases op <;> decide
  exact of_decide_eq_true (List.all_eq_true.1 hall x hx)

/-- If there are no marks on either side, the comparison is found between the sides, and none
that is longer or shorter. -/
theorem splitComparison?_eq_some {op : Comparison} {left right : List Char}
    (hleft : ∀ x ∈ marks, x ∉ left) (hright : ∀ x ∈ marks, x ∉ right) :
    splitComparison? (left ++ op.symbol.toList ++ right) = some (op, left, right) := by
  obtain ⟨earlier, later, horder, hearlier⟩ := searchOrder_eq op
  have hfound : splitAt? op.symbol.toList (left ++ op.symbol.toList ++ right) =
      some (left, right) :=
    splitAt?_eq_some (by cases op <;> decide) fun x hx => hleft x (mem_marks_of_mem_symbol hx)
  rw [splitComparison?, List.findSome?_eq_some_iff]
  refine ⟨earlier, op, later, horder, by rw [hfound]; rfl, ?_⟩
  intro op' hop'
  obtain ⟨x, hx, hnot⟩ := hearlier op' hop'
  have hmark := mem_marks_of_mem_symbol hx
  have hnone : x ∉ left ++ op.symbol.toList ++ right := by
    simp [hleft x hmark, hnot, hright x hmark]
  rw [splitAt?_eq_none hx hnone]
  rfl

/-! ### Cutting a text -/

namespace Cut

variable {c c' : Cut} {e e' : Expr} {raw : String}

/-- The comparison of a text is found where it is if there are no marks but its own. -/
theorem split_text (hselector : ∀ x ∈ marks, x ∉ c.selector)
    (hright : ∀ x ∈ marks, x ∉ c.number ++ c.unit) :
    splitComparison? c.text = some (c.comparison, c.selector, c.number ++ c.unit) := by
  rw [text, Comparison.spelling_eq]
  exact splitComparison?_eq_some hselector hright

theorem Spells.marks_notMem (h : c.Spells e) {x : Char} (hx : x ∈ marks) :
    x ∉ c.selector ∧ x ∉ c.number ++ c.unit := by
  have hforeign := foreign_of_mem_marks hx
  have hselector : readSelector "" c.selector = .ok e.selector :=
    readSelector_eq_ok_iff.2 h.selector
  obtain ⟨y, hnumber, -⟩ := h.limit
  have hunit : readUnit "" c.unit = .ok e.unit := readUnit_eq_ok_iff.2 h.unit
  refine ⟨notMem_selector hforeign hselector, ?_⟩
  rw [List.mem_append, not_or]
  exact ⟨notMem_numberChars hforeign (all_isNumberChar hnumber), notMem_unit hforeign hunit⟩

/-- The comparison of a spelled expression is found where it is. -/
theorem Spells.split (h : c.Spells e) :
    splitComparison? c.text = some (c.comparison, c.selector, c.number ++ c.unit) :=
  split_text (fun _ hx => (h.marks_notMem hx).1) fun _ hx => (h.marks_notMem hx).2

/-- So the number ends where the unit begins. -/
theorem Spells.span (h : c.Spells e) :
    (c.number ++ c.unit).takeWhile isNumberChar = c.number ∧
      (c.number ++ c.unit).dropWhile isNumberChar = c.unit := by
  obtain ⟨x, hnumber, -⟩ := h.limit
  have hchars : ∀ y ∈ c.number, isNumberChar y = true :=
    List.all_eq_true.1 (all_isNumberChar hnumber)
  rw [List.takeWhile_append_of_pos hchars, List.dropWhile_append_of_pos hchars, h.unit.span.1,
    h.unit.span.2, List.append_nil]
  exact ⟨rfl, rfl⟩

/-- A text can be cut in one way only. -/
theorem Spells.unique (h : c.Spells e) (h' : c'.Spells e') (htext : c.text = c'.text) :
    c = c' := by
  have hsplit := h.split
  rw [htext, h'.split, Option.some.injEq, Prod.mk.injEq, Prod.mk.injEq] at hsplit
  obtain ⟨hcomparison, hselector, hright⟩ := hsplit
  have hnumber : c.number = c'.number := by rw [← h.span.1, ← h'.span.1, hright]
  have hunit : c.unit = c'.unit := by rw [← h.span.2, ← h'.span.2, hright]
  cases c
  cases c'
  simp_all

/-- The parts of a text that the reader finds are those that spell the expression. -/
theorem Spells.parts (h : c.Spells e) (htext : c.text = Blank.squeeze raw) :
    Parts raw e c.selector (c.number ++ c.unit) := by
  obtain ⟨x, hnumber, hlimit⟩ := h.limit
  refine ⟨?_, h.selector.ne_nil, ?_, readSelector_eq_ok_iff.2 h.selector,
    ⟨x, ?_, counts_iff.1 hlimit⟩, ?_⟩
  · rw [← htext, h.split, h.comparison]
  · simp [hnumber.ne]
  · rw [h.span.1, readNumber_eq_ok_iff (all_isNumberChar hnumber)]
    exact hnumber
  · rw [h.span.2, readUnit_eq_ok_iff]
    exact h.unit

end Cut

/-- The parts that the reader finds spell what it reads. -/
theorem Parts.spells {raw : String} {e : Expr} {left right : List Char}
    (h : Parts raw e left right) : ∃ c : Cut, c.text = Blank.squeeze raw ∧ c.Spells e := by
  obtain ⟨x, hnumber, hlimit⟩ := h.limit
  refine ⟨⟨left, e.comparison, right.takeWhile isNumberChar, right.dropWhile isNumberChar⟩, ?_, ?_⟩
  · rw [eq_append_of_splitComparison? h.split, Cut.text, Comparison.spelling_eq,
      List.takeWhile_append_dropWhile]
  · exact ⟨readSelector_eq_ok_iff.1 h.selector, rfl,
      ⟨x, (readNumber_eq_ok_iff List.all_takeWhile).1 hnumber, counts_iff.2 hlimit⟩,
      readUnit_eq_ok_iff.1 h.unit⟩

/-- **The reader accepts exactly what is spelled.**  A text is read as an expression if and only
if, without its white space, it can be cut into a selector, a comparison, a number and a unit that
spell this expression; and there is one way only to cut it into such parts. -/
theorem parse_exactly_spelled (raw : String) :
    (∀ e, Expr.parse raw = .ok e ↔ ∃ c : Cut, c.Cuts raw ∧ c.Spells e) ∧
      ∀ c c' : Cut, c.Cuts raw → c'.Cuts raw →
        ∀ e e', c.Spells e → c'.Spells e' → c = c' ∧ e = e' := by
  have hreads : ∀ e, Expr.parse raw = .ok e ↔ ∃ c : Cut, c.Cuts raw ∧ c.Spells e := by
    intro e
    simp only [Cut.cuts_iff]
    rw [Expr.parse_eq_ok_iff]
    constructor
    · rintro ⟨left, right, hparts⟩
      exact hparts.spells
    · rintro ⟨c, htext, hspells⟩
      exact ⟨c.selector, c.number ++ c.unit, hspells.parts htext⟩
  refine ⟨hreads, ?_⟩
  intro c c' hcuts hcuts' e e' hspells hspells'
  refine ⟨hspells.unique hspells' (hcuts.trans hcuts'.symm), ?_⟩
  -- both are what is read
  have hread := (hreads e).2 ⟨c, hcuts, hspells⟩
  rw [(hreads e').2 ⟨c', hcuts', hspells'⟩] at hread
  cases hread
  rfl

/-- A share in percent, with blanks in it: the only way to cut it is before the comparison, behind
it and before the sign. -/
theorem rate_in_percent_is_spelled :
    (∃ e, Expr.parse " Rate\t<= .5 %" = .ok e ∧ e.selector = .rate ∧ e.comparison = .le ∧
      e.unit = some .percent ∧ ∃ x, Binary64.ofChars? ['.', '5'] = some x ∧ e.limit = x / 100) ∧
    ∀ (c : Cut) (e : Expr), c.Cuts " Rate\t<= .5 %" → c.Spells e →
      c = ⟨['R', 'a', 't', 'e'], .le, ['.', '5'], ['%']⟩ := by
  have hnumber : NumberSpelled (Literal.number false 5 (-1)).toFloat ['.', '5'] :=
    ⟨by decide, by simp, rfl, by decide +kernel⟩
  have hcuts : (Cut.mk ['R', 'a', 't', 'e'] .le ['.', '5'] ['%']).Cuts " Rate\t<= .5 %" := by
    rw [Cut.cuts_iff]
    decide
  have hspells : (Cut.mk ['R', 'a', 't', 'e'] .le ['.', '5'] ['%']).Spells
      ⟨.rate, .le, (Literal.number false 5 (-1)).toFloat / 100, some .percent⟩ :=
    ⟨.word (show (_, "rate") ∈ selectorWords by decide) rfl, rfl, ⟨_, hnumber, .percent _⟩,
      .symbol .percent⟩
  obtain ⟨hreads, hunique⟩ := parse_exactly_spelled " Rate\t<= .5 %"
  refine ⟨⟨_, (hreads _).2 ⟨_, hcuts, hspells⟩, rfl, rfl, rfl, _, hnumber.reads, rfl⟩, ?_⟩
  intro c e hc he
  exact (hunique c _ hc hcuts e _ he hspells).1

end StagedLoad.Threshold
