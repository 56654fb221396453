/-!
# Blank characters

The characters that Unicode calls white space, and the text operations that skip
them: `trim` drops them from both ends, `squeeze` drops them everywhere.

## Main definitions

* `Blank.isBlank` — the Unicode property `White_Space`.
* `Blank.trim`, `Blank.squeeze` — the operations on text.
* `Blank.Bare` — nothing to trim.
-/

namespace StagedLoad.Blank

/-- The Unicode property `White_Space`. -/
def isBlank (c : Char) : Bool :=
  let n := c.toNat
  (9 ≤ n && n ≤ 13) || n == 0x20 || n == 0x85 || n == 0xA0 || n == 0x1680 ||
    (0x2000 ≤ n && n ≤ 0x200A) || n == 0x2028 || n == 0x2029 || n == 0x202F ||
    n == 0x205F || n == 0x3000

/-- Drops the blanks at the start of a character list. -/
def trimStart (cs : List Char) : List Char := cs.dropWhile isBlank

/-- Drops the blanks at the end of a character list. -/
def trimEnd (cs : List Char) : List Char := (cs.reverse.dropWhile isBlank).reverse

/-- A text without the blanks at its two ends. -/
def trim (s : String) : String := String.ofList (trimEnd (trimStart s.toList))

/-- There is nothing blank at the two ends of a character list. -/
structure Bare (cs : List Char) : Prop where
  /-- The first character is not blank. -/
  head : ∀ c ∈ cs.head?, isBlank c = false
  /-- The last one is not, either. -/
  last : ∀ c ∈ cs.getLast?, isBlank c = false

instance (cs : List Char) : Decidable (Bare cs) :=
  decidable_of_iff (cs.head?.any isBlank = false ∧ cs.getLast?.any isBlank = false) <| by
    rw [Option.any_eq_false, Option.any_eq_false]
    exact ⟨fun h => ⟨h.1, h.2⟩, fun h => ⟨h.head, h.last⟩⟩

theorem dropWhile_isBlank {cs : List Char} (h : ∀ c ∈ cs.head?, isBlank c = false) :
    cs.dropWhile isBlank = cs := by
  cases cs with
  | nil => rfl
  | cons c cs => rw [List.dropWhile_cons, h c rfl, if_neg Bool.false_ne_true]

/-- Nothing is trimmed off where nothing at the ends is blank. -/
theorem Bare.trim_eq {cs : List Char} (h : Bare cs) : trimEnd (trimStart cs) = cs := by
  have hlast : cs.reverse.dropWhile isBlank = cs.reverse :=
    dropWhile_isBlank (by rw [List.head?_reverse]; exact h.last)
  rw [trimStart, dropWhile_isBlank h.head, trimEnd, hlast, List.reverse_reverse]

/-- A text without any blank. -/
def squeeze (s : String) : List Char := s.toList.filter fun c => !isBlank c

/-- Nothing blank is left after `squeeze`. -/
theorem isBlank_of_mem_squeeze {s : String} {c : Char} (h : c ∈ squeeze s) : isBlank c = false := by
  simpa using (List.mem_filter.mp h).2

end StagedLoad.Blank
