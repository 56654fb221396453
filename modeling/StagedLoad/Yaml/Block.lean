import StagedLoad.Yaml.Scalar

/-!
# Block scalars

A block scalar is a run of lines at one column.  Its head tells whether lines are joined,
what becomes of the breaks at its end, and possibly the column.

## Main definitions

* `Yaml.Ending`, `Yaml.BlockHead` — what the head tells.
* `Yaml.emptyLines?` — the empty lines before the next line of text.
* `Yaml.block?` — the scalar.
-/

namespace StagedLoad.Yaml

/-- What becomes of the breaks at the end of a block. -/
inductive Ending
  /-- They are dropped. -/
  | strip
  /-- One is kept. -/
  | clip
  /-- All are kept. -/
  | keep
  deriving DecidableEq, Repr, Inhabited

/-- What the head of a block tells. -/
structure BlockHead where
  /-- What becomes of the breaks at the end. -/
  ending : Ending
  /-- By how much the lines are indented, if it tells. -/
  indent : Option Nat
  deriving Repr, Inhabited

/-- The ending that a sign stands for. -/
def Ending.ofSign? : Char → Option Ending
  | '+' => some keep
  | '-' => some strip
  | _ => none

/-- Reads a sign, if there is one. -/
def ending (c : Cursor) : Option Ending × Cursor :=
  match c.head?.bind Ending.ofSign? with
  | some e => (some e, c.step)
  | none => (none, c)

/-- Reads a digit, if there is one, which must not be zero. -/
def indent? (c : Cursor) : Option (Option Nat × Cursor) :=
  match c.head? with
  | none => some (none, c)
  | some x =>
    if x == '0' then none
    else if x.isDigit then some (some (x.toNat - 48), c.step)
    else some (none, c)

/-- Reads the sign and the digit of a head, in any order. -/
def blockHead? (c : Cursor) : Option (BlockHead × Cursor) :=
  match ending c with
  | (some e, c) => (indent? c).map fun (n, c) => (⟨e, n⟩, c)
  | (none, c) =>
    match indent? c with
    | none => none
    | some (none, c) => some (⟨.clip, none⟩, c)
    | some (some n, c) =>
      let (e, c) := ending c
      some (⟨e.getD .clip, some n⟩, c)

/-- What was found before the next line of text. -/
structure EmptyLines where
  /-- The breaks of the empty lines. -/
  breaks : List Char
  /-- The greatest column at which one of them, or the next line, starts. -/
  column : Nat
  /-- The next line of text. -/
  next : Cursor
  deriving Inhabited

/-- Moves over the blanks before a column, or over all of them if it is not known. -/
def skipIndent (column : Option Nat) (c : Cursor) : Cursor :=
  let blanks := (c.rest.takeWhile (· == ' ')).length
  c.skip (column.elim blanks fun n => Nat.min blanks (n - c.column))

theorem length_skipIndent_le (column : Option Nat) (c : Cursor) :
    (skipIndent column c).rest.length ≤ c.rest.length := by
  rw [skipIndent, Cursor.rest_skip, List.length_drop]
  exact Nat.sub_le _ _

/-- Reads the empty lines before the next line of text.  No tabulator may stand before its
column. -/
def emptyLines? (column : Option Nat) (found : EmptyLines) : Option EmptyLines :=
  let c := skipIndent column found.next
  let found := { found with column := Nat.max found.column c.column }
  match _h : c.rest with
  | [] => some { found with next := c }
  | x :: _ =>
    if x == '\t' && column.all (c.column < ·) then none
    else if isBreak x then
      emptyLines? column { found with breaks := found.breaks ++ [x], next := c.step }
    else some { found with next := c }
  termination_by found.next.rest.length
  decreasing_by
    exact Nat.lt_of_lt_of_le (Cursor.length_step_lt (c := c) (by simp [_h]))
      (length_skipIndent_le column found.next)

/-- What lies between the line before and the one to be read. -/
structure Seam where
  /-- The break that ended the line before. -/
  last : Option Char := none
  /-- Whether the line before starts with a blank. -/
  indented : Bool := false
  /-- The breaks of the empty lines since then. -/
  breaks : List Char
  deriving Inhabited

/-- What a seam becomes before a line. -/
def Seam.text (folded indented : Bool) (s : Seam) : List Char :=
  if folded && s.last == some '\n' && !s.indented && !indented then
    Gap.joinBreaks s.last s.breaks
  else s.last.toList ++ s.breaks

/-- Reads the lines that start at a column. -/
def blockLines? (folded : Bool) (column : Nat) :
    (fuel : Nat) → (text : List Char) → Seam → Cursor → Option (List Char × Seam × Cursor)
  | 0, _, _, _ => none
  | fuel + 1, text, seam, c =>
    if c.column != column || c.rest.isEmpty then some (text, seam, c)
    else
      let indented := c.head?.any isSpace
      let line := c.rest.takeWhile fun x => !isBreak x
      let text := text ++ seam.text folded indented ++ line
      let c := c.skipLine
      match emptyLines? (some column) ⟨[], 0, c.step⟩ with
      | none => none
      | some found =>
        blockLines? folded column fuel text ⟨c.head?, indented, found.breaks⟩ found.next

/-- What is left of a seam at the end of a block. -/
def Ending.text (e : Ending) (s : Seam) : List Char :=
  match e with
  | strip => []
  | clip => s.last.toList
  | keep => s.last.toList ++ s.breaks

/-- Reads a block behind its first character.  Its lines stand behind the column of the
blocks around it, of which there may be none. -/
def block? (folded : Bool) (around : Option Nat) (c : Cursor) : Option (List Char × Cursor) :=
  match blockHead? c with
  | none => none
  | some (head, c) =>
    let c := (c.skipWhile isSpace).skipComment
    if !atBreak c.rest then none
    else
      let column := head.indent.map fun n => around.getD 0 + n
      match emptyLines? column ⟨[], 0, c.step⟩ with
      | none => none
      | some found =>
        -- if the head does not tell the column, the deepest of the first lines does
      let least := around.elim 1 fun n => n + 1
        let column := column.getD (Nat.max (Nat.max found.column least) 1)
        (blockLines? folded column (c.rest.length + 1) [] { breaks := found.breaks }
          found.next).map fun (text, seam, c) => (text ++ head.ending.text seam, c)

end StagedLoad.Yaml
