import StagedLoad.Json.Reader
import StagedLoad.Yaml.Cursor

/-!
# Scalars on one or more lines

A scalar without quotes or between quotes is a sequence of words.  Between two words on one
line its blanks are kept; a line break between two words becomes a blank, and of several
breaks all but the first are kept.

## Main definitions

* `Yaml.Gap`, `Yaml.gap?` — what stands between two words, and what it becomes.
* `Yaml.plainText?` — scalars without quotes.
* `Yaml.singleQuoted?`, `Yaml.doubleQuoted?` — scalars between quotes.
-/

namespace StagedLoad.Yaml

/-! ### Gaps -/

/-- What stands between two words. -/
structure Gap where
  /-- The blanks before any break. -/
  blanks : List Char := []
  /-- Whether there is a break. -/
  broken : Bool := false
  /-- The first break, unless it is escaped. -/
  first : Option Char := none
  /-- The breaks after the first. -/
  more : List Char := []
  deriving Repr, Inhabited

namespace Gap

/-- Breaks of which the first is a line feed become a blank if there is one only; other
breaks are kept. -/
def joinBreaks (first : Option Char) (more : List Char) : List Char :=
  match first with
  | some '\n' => if more.isEmpty then [' '] else more
  | some b => b :: more
  | none => more

/-- What a gap becomes. -/
def text (g : Gap) : List Char := if g.broken then joinBreaks g.first g.more else g.blanks

/-- The gap with one more character. -/
def push (g : Gap) (x : Char) : Gap :=
  if isBreak x then
    if g.broken then { g with more := g.more ++ [x] }
    else { g with blanks := [], broken := true, first := some x }
  else if g.broken then g
  else { g with blanks := g.blanks ++ [x] }

end Gap

/-- Reads the blanks and breaks at a place.  After a break no tabulator may stand before a
certain column. -/
def gap? (column : Nat) (g : Gap) (c : Cursor) : Option (Gap × Cursor) :=
  match _h : c.rest with
  | [] => some (g, c)
  | x :: _ =>
    if isSpace x || isBreak x then
      if x == '\t' && g.broken && c.column < column then none
      else gap? column (g.push x) c.step
    else some (g, c)
  termination_by c.rest.length
  decreasing_by exact Cursor.length_step_lt (by simp [_h])

/-! ### Scalars without quotes -/

/-- Whether a character ends a word between brackets. -/
def isFlowMark (x : Char) : Bool :=
  x == ',' || x == '[' || x == ']' || x == '\x7b' || x == '\x7d'

/-- The word at the start of a list.  A colon ends it before a gap; between brackets it has
to, before a mark. -/
def plainWord? (flow : Bool) : List Char → Option (List Char)
  | [] => some []
  | x :: rest =>
    if isSpace x || isBreak x || (flow && isFlowMark x) then some []
    else if x == ':' && atGap rest then some []
    else if x == ':' && flow && rest.head?.any (fun y => isFlowMark y || y == '?') then none
    else (plainWord? flow rest).map (x :: ·)

/-- A scalar without quotes. -/
structure PlainText where
  /-- Its text. -/
  text : List Char
  /-- Whether a break was read behind it. -/
  broken : Bool
  /-- What follows it. -/
  next : Cursor
  deriving Inhabited

/-- Reads words from a place on, which a gap may precede; those on further lines have to
stand at a column or behind it, unless they are between brackets. -/
def plainWords? (flow : Bool) (column : Nat) :
    (fuel : Nat) → (text : List Char) → (g : Gap) → Cursor → Option PlainText
  | 0, _, _, _ => none
  | fuel + 1, text, g, c =>
    if c.atMark || c.at? '#' then some ⟨text, g.broken, c⟩
    else
      match plainWord? flow c.rest with
      | none => none
      | some [] => some ⟨text, g.broken, c⟩
      | some word =>
        let text := text ++ g.text ++ word
        match gap? column {} (c.skip word.length) with
        | none => none
        | some (g, next) =>
          if !flow && next.column < column then some ⟨text, g.broken, next⟩
          else plainWords? flow column fuel text g next

/-- Reads a scalar without quotes. -/
def plainText? (flow : Bool) (column : Nat) (c : Cursor) : Option PlainText :=
  plainWords? flow column (c.rest.length + 1) [] {} c

/-! ### Scalars between quotes -/

/-- A word between quotes. -/
structure Word where
  /-- Its characters. -/
  text : List Char
  /-- What follows it. -/
  rest : List Char
  /-- Whether it ends in an escaped break. -/
  continued : Bool := false
  deriving Inhabited

/-- Puts a character in front of a word. -/
def Word.cons (x : Char) (w : Word) : Word := { w with text := x :: w.text }

/-- The word at the start of a list that a single quote ends; two of them are one that
does not. -/
def singleWord : List Char → Word
  | '\'' :: '\'' :: rest => (singleWord rest).cons '\''
  | '\'' :: rest => ⟨[], '\'' :: rest, false⟩
  | x :: rest =>
    if isSpace x || isBreak x then ⟨[], x :: rest, false⟩ else (singleWord rest).cons x
  | [] => ⟨[], [], false⟩

/-- The number that some hexadecimal digits at the start of a list are written for. -/
def hexNumber? : (digits : Nat) → (acc : Nat) → List Char → Option Nat
  | 0, acc, _ => some acc
  | _ + 1, _, [] => none
  | n + 1, acc, c :: cs => (Json.hexValue? c).bind fun v => hexNumber? n (acc * 16 + v) cs

/-- The character with a number, if it is one. -/
def charOf? (n : Nat) : Option Char := if n.isValidChar then some (Char.ofNat n) else none

/-- The character of an escape with one letter. -/
def letterEscape? : Char → Option Char
  | '0' => some '\x00'
  | 'a' => some '\x07'
  | 'b' => some '\x08'
  | 't' => some '\t'
  | '\t' => some '\t'
  | 'n' => some '\n'
  | 'v' => some '\x0b'
  | 'f' => some '\x0c'
  | 'r' => some '\r'
  | 'e' => some '\x1b'
  | ' ' => some ' '
  | '"' => some '"'
  | '/' => some '/'
  | '\\' => some '\\'
  | 'N' => some '\u0085'
  | '_' => some '\u00a0'
  | 'L' => some '\u2028'
  | 'P' => some '\u2029'
  | _ => none

/-- How many digits follow the letter of an escape. -/
def escapeDigits : Char → Nat
  | 'x' => 2
  | 'u' => 4
  | 'U' => 8
  | _ => 0

/-- The character of an escape whose letter is followed by a list. -/
def escape? (letter : Char) (rest : List Char) : Option Char :=
  match escapeDigits letter with
  | 0 => letterEscape? letter
  | n => (hexNumber? n 0 rest).bind charOf?

/-- The word at the start of a list that a double quote ends, escapes resolved. -/
def doubleWord? : List Char → Option Word
  | [] => some ⟨[], [], false⟩
  | '\\' :: x :: rest =>
    if isBreak x then some ⟨[], rest, true⟩
    else
      match escape? x rest with
      | none => none
      | some e => (doubleWord? (rest.drop (escapeDigits x))).map (Word.cons e)
  | x :: rest =>
    if x == '\\' then none
    else if isSpace x || isBreak x || x == '"' then some ⟨[], x :: rest, false⟩
    else (doubleWord? rest).map (Word.cons x)
  termination_by cs => cs.length
  decreasing_by
    · rw [List.length_drop, List.length_cons, List.length_cons]
      omega
    · exact Nat.lt_succ_self _

/-- Reads words and gaps up to the closing quote. -/
def quotedWords? (quote : Char) (word? : List Char → Option Word) :
    (fuel : Nat) → (text : List Char) → Cursor → Option (List Char × Cursor)
  | 0, _, _ => none
  | fuel + 1, text, c =>
    if c.atMark || c.rest.isEmpty then none
    else
      match word? c.rest with
      | none => none
      | some w =>
        let text := text ++ w.text
        let next := c.moveTo w.rest
        if next.at? quote then some (text, next.step)
        else
          match gap? 0 { broken := w.continued } next with
          | none => none
          | some (g, next) => quotedWords? quote word? fuel (text ++ g.text) next

/-- Reads a scalar behind its opening single quote. -/
def singleQuoted? (c : Cursor) : Option (List Char × Cursor) :=
  quotedWords? '\'' (fun cs => some (singleWord cs)) (c.rest.length + 1) [] c

/-- Reads a scalar behind its opening double quote. -/
def doubleQuoted? (c : Cursor) : Option (List Char × Cursor) :=
  quotedWords? '"' doubleWord? (c.rest.length + 1) [] c

end StagedLoad.Yaml
