/-!
# Places in a YAML text

The indentation of a YAML text is part of its grammar, so that reading goes on at a place
that knows its line and its column.  Line breaks are brought to one form before.

## Main definitions

* `Yaml.isAllowed`, `Yaml.isBreak`, `Yaml.isSpace` — the classes of characters.
* `Yaml.unifyBreaks` — one form for all line breaks.
* `Yaml.Cursor` — a place in a text, and how it moves.

## Main statements

* `Yaml.Cursor.length_step_lt` — a step over a character leaves less to read.
-/

namespace StagedLoad.Yaml

/-- Whether a character may stand in a text. -/
def isAllowed (c : Char) : Bool :=
  let n := c.toNat
  n == 0x09 || n == 0x0A || n == 0x0D || (0x20 ≤ n && n ≤ 0x7E) || n == 0x85 ||
    (0xA0 ≤ n && n ≤ 0xFFFD) || 0x10000 ≤ n

/-- The line feed and the two separators. -/
def isBreak (c : Char) : Bool := c == '\n' || c == '\u2028' || c == '\u2029'

/-- The blank and the tabulator. -/
def isSpace (c : Char) : Bool := c == ' ' || c == '\t'

/-- Whether a character may stand in the name of an anchor. -/
def isNameChar (c : Char) : Bool := c.isAlphanum || c == '_' || c == '-'

/-- Brings carriage returns, alone or before a line feed, and next-line characters to line
feeds. -/
def unifyBreaks : List Char → List Char
  | [] => []
  | '\r' :: '\n' :: rest => '\n' :: unifyBreaks rest
  | '\r' :: rest => '\n' :: unifyBreaks rest
  | '\u0085' :: rest => '\n' :: unifyBreaks rest
  | c :: rest => c :: unifyBreaks rest

/-- The first character of a list satisfies a predicate, or there is none. -/
def endsOr (p : Char → Bool) (cs : List Char) : Bool := cs.head?.all p

/-- Whether a list has ended or goes on with a break. -/
def atBreak (cs : List Char) : Bool := endsOr isBreak cs

/-- Whether a list has ended or goes on with a blank, a tabulator or a break. -/
def atGap (cs : List Char) : Bool := endsOr (fun c => isSpace c || isBreak c) cs

/-- A place in a text. -/
structure Cursor where
  /-- What is still to be read. -/
  rest : List Char
  /-- The number of line breaks before it. -/
  line : Nat := 0
  /-- The number of characters before it on its line. -/
  column : Nat := 0
  /-- The number of characters before it. -/
  index : Nat := 0
  deriving Repr, Inhabited

namespace Cursor

/-- The next character. -/
def head? (c : Cursor) : Option Char := c.rest.head?

/-- Whether the next character is a certain one. -/
def at? (c : Cursor) (x : Char) : Bool := c.rest.head? == some x

/-- Moves over one character. -/
def step (c : Cursor) : Cursor :=
  match c.rest with
  | [] => c
  | x :: rest =>
    if isBreak x then ⟨rest, c.line + 1, 0, c.index + 1⟩
    else ⟨rest, c.line, c.column + 1, c.index + 1⟩

theorem rest_step (c : Cursor) : c.step.rest = c.rest.tail := by
  unfold step
  split
  · rename_i h
    rw [h]
    rfl
  · rename_i h
    rw [h]
    split <;> rfl

theorem length_step_lt {c : Cursor} (h : c.rest ≠ []) : c.step.rest.length < c.rest.length := by
  rw [rest_step, List.length_tail]
  have := List.length_pos_iff.mpr h
  omega

/-- Moves over some characters. -/
def skip : Nat → Cursor → Cursor
  | 0, c => c
  | n + 1, c => skip n c.step

theorem rest_skip (n : Nat) (c : Cursor) : (c.skip n).rest = c.rest.drop n := by
  induction n generalizing c with
  | zero => rfl
  | succ n ih => rw [skip, ih, rest_step, List.drop_tail]

/-- Moves to where a tail of what is to be read starts. -/
def moveTo (c : Cursor) (tail : List Char) : Cursor := c.skip (c.rest.length - tail.length)

/-- Moves over the characters that satisfy a predicate. -/
def skipWhile (p : Char → Bool) (c : Cursor) : Cursor := c.skip (c.rest.takeWhile p).length

theorem length_skipWhile_le (p : Char → Bool) (c : Cursor) :
    (c.skipWhile p).rest.length ≤ c.rest.length := by
  rw [skipWhile, rest_skip, List.length_drop]
  exact Nat.sub_le _ _

/-- Moves to the end of the line. -/
def skipLine (c : Cursor) : Cursor := c.skipWhile fun x => !isBreak x

/-- Moves over a comment, if there is one. -/
def skipComment (c : Cursor) : Cursor := if c.at? '#' then c.skipLine else c

theorem length_skipComment_le (c : Cursor) : c.skipComment.rest.length ≤ c.rest.length := by
  unfold skipComment
  split
  · exact c.length_skipWhile_le _
  · exact Nat.le_refl _

/-- Whether a line starts here with three characters `x` that stand alone. -/
def isMark (x : Char) (c : Cursor) : Bool :=
  c.column == 0 && c.rest.take 3 == [x, x, x] && atGap (c.rest.drop 3)

/-- Whether a line starts here that separates documents. -/
def atMark (c : Cursor) : Bool := c.isMark '-' || c.isMark '.'

end Cursor

end StagedLoad.Yaml
