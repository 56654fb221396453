import StagedLoad.Yaml.Block
import StagedLoad.Yaml.Tag

/-!
# Reading tokens

The tokens of a YAML text.  A key of a mapping need not be marked: that something was a key
shows when a colon follows it on the same line, and then tokens are put in front of it.  So
tokens are settled only when no key can have begun before them.

A text that breaks off or cannot be read on still has the tokens that were settled before.

## Main definitions

* `Yaml.KeyStart` — where a key may have begun.
* `Yaml.Lexer` — the tokens so far and what the next ones depend on.
* `Yaml.Lexer.next?` — one token more, with what stands before it.
* `Yaml.tokens` — the settled tokens of a text; the last one of a complete text is its end.
-/

namespace StagedLoad.Yaml

/-- Where a key may have begun. -/
structure KeyStart where
  /-- How many tokens there were before it. -/
  number : Nat
  /-- Whether nothing else can stand there. -/
  required : Bool
  /-- Where it stands. -/
  place : Cursor
  deriving Inhabited

/-- The greatest number of characters between the start of a key and its colon. -/
def greatestKey : Nat := 1024

/-- Whether it is too late at a place for a key to end. -/
def KeyStart.isLate (k : KeyStart) (c : Cursor) : Bool :=
  k.place.line < c.line || k.place.index + greatestKey < c.index

/-- The state of reading tokens. -/
structure Lexer where
  /-- What is to be read. -/
  next : Cursor
  /-- The tokens. -/
  tokens : Array Token := #[]
  /-- How many of them are settled. -/
  settled : Nat := 0
  /-- The columns of the open blocks, the innermost one first. -/
  blocks : List Nat := []
  /-- Whether a key without mark may begin. -/
  keyAllowed : Bool := true
  /-- Where the last key may have begun. -/
  key : Option KeyStart := none
  /-- The same outside of each open bracket and brace, the innermost one first. -/
  outerKeys : List (Option KeyStart) := []
  /-- Whether the end of the text is among the tokens. -/
  isDone : Bool := false
  deriving Inhabited

namespace Lexer

/-- Whether a bracket or a brace is open. -/
def flow (s : Lexer) : Bool := !s.outerKeys.isEmpty

/-- Adds a token, behind which reading goes on at a place. -/
def push (s : Lexer) (t : Token) (next : Cursor) : Lexer :=
  { s with tokens := s.tokens.push t, next }

/-! ### Keys -/

/-- Gives up the last place where a key may have begun, unless nothing else can stand
there. -/
def dropKey? (s : Lexer) : Option Lexer :=
  if s.key.any KeyStart.required then none else some { s with key := none }

/-- Notes that a key may begin here. -/
def noteKey? (s : Lexer) : Option Lexer :=
  if s.keyAllowed then
    s.dropKey?.map fun s => { s with key := some {
      number := s.tokens.size
      required := !s.flow && s.blocks.head? == some s.next.column
      place := s.next } }
  else some s

/-- Gives up the places where it is too late for a key. -/
def expire? (s : Lexer) : Option Lexer :=
  let late (k : KeyStart) : Bool := k.isLate s.next
  if (s.key :: s.outerKeys).any (Option.any fun k => k.required && late k) then none
  else some { s with
    key := s.key.filter fun k => !late k
    outerKeys := s.outerKeys.map fun k => k.filter fun k => !late k }

/-- Settles the tokens before every place where a key may have begun. -/
def settle (s : Lexer) : Lexer :=
  let numbers := (s.key :: s.outerKeys).filterMap (Option.map KeyStart.number)
  { s with settled := numbers.foldl Nat.min s.tokens.size }

/-! ### Blocks -/

/-- Closes the blocks at columns behind a limit, or all of them. -/
def closeBlocks (limit : Option Nat) (s : Lexer) : Lexer :=
  if s.flow then s
  else
    let closed := s.blocks.takeWhile fun n => limit.all (· < n)
    { s with
      tokens := s.tokens ++ Array.replicate closed.length .blockEnd
      blocks := s.blocks.drop closed.length }

/-- Opens a block at a column, unless there is one; its token is put at a number. -/
def openBlock (t : Token) (column number : Nat) (s : Lexer) : Lexer :=
  if s.flow || !s.blocks.head?.all (· < column) then s
  else { s with
    tokens := s.tokens.insertIdxIfInBounds number t
    blocks := column :: s.blocks }

/-- Opens a block at a mark that stands where a key might begin. -/
def openMarked? (t : Token) (s : Lexer) : Option Lexer :=
  if s.flow then some s
  else if s.keyAllowed then some (s.openBlock t s.next.column s.tokens.size)
  else none

/-! ### Single tokens -/

/-- The mark of an item. -/
def item? (s : Lexer) : Option Lexer := do
  let s ← s.openMarked? .blockSequence
  let s ← s.dropKey?
  return { s with keyAllowed := true }.push .item s.next.step

/-- The mark of a key. -/
def key? (s : Lexer) : Option Lexer := do
  let s ← s.openMarked? .blockMapping
  let s ← s.dropKey?
  return { s with keyAllowed := !s.flow }.push .key s.next.step

/-- The mark of a value, which may show that something was a key. -/
def value? (s : Lexer) : Option Lexer :=
  match s.key with
  | some k =>
    let s := { s with tokens := s.tokens.insertIdxIfInBounds k.number .key }
    let s := s.openBlock .blockMapping k.place.column k.number
    some ({ s with key := none, keyAllowed := false }.push .value s.next.step)
  | none => do
    let s ← s.openMarked? .blockMapping
    return { s with keyAllowed := !s.flow }.push .value s.next.step

/-- An opening bracket or brace. -/
def open? (t : Token) (s : Lexer) : Option Lexer := do
  let s ← s.noteKey?
  return { s with outerKeys := s.key :: s.outerKeys, key := none, keyAllowed := true }.push t
    s.next.step

/-- A closing bracket or brace. -/
def close? (t : Token) (s : Lexer) : Option Lexer := do
  let s ← s.dropKey?
  return { s with
    key := s.outerKeys.head?.getD none
    outerKeys := s.outerKeys.tail
    keyAllowed := false }.push t s.next.step

/-- A comma. -/
def comma? (s : Lexer) : Option Lexer := do
  let s ← s.dropKey?
  return { s with keyAllowed := true }.push .comma s.next.step

/-- What stands outside of all documents. -/
def outside? (read : Cursor → Option (Token × Cursor)) (s : Lexer) : Option Lexer := do
  let s ← (s.closeBlocks none).dropKey?
  let (t, next) ← read s.next
  return { s with keyAllowed := false }.push t next

/-- The end of the text. -/
def finish? (s : Lexer) : Option Lexer := do
  let c := s.next
  let last := if c.column = 0 then c else { c with line := c.line + 1, column := 0 }
  let s ← s.outside? fun _ => some (.streamEnd, last)
  return { s with isDone := true }

/-- What may be a key, or belong to one. -/
def content? (read : Cursor → Option (Token × Cursor)) (s : Lexer) : Option Lexer := do
  let s ← s.noteKey?
  let (t, next) ← read s.next
  return { s with keyAllowed := false }.push t next

/-- A scalar without quotes; a key may begin behind it if a line has ended. -/
def plainScalar? (s : Lexer) : Option Lexer := do
  let s ← s.noteKey?
  let p ← plainText? s.flow (s.blocks.head?.elim 0 (· + 1)) s.next
  return { s with keyAllowed := p.broken }.push (.scalar .plain (String.ofList p.text)) p.next

/-- A block scalar. -/
def blockScalar? (folded : Bool) (s : Lexer) : Option Lexer := do
  let s ← s.dropKey?
  let (text, next) ← block? folded s.blocks.head? s.next.step
  let style := if folded then Style.folded else Style.literal
  return { s with keyAllowed := true }.push (.scalar style (String.ofList text)) next

/-- A scalar between quotes, as a token. -/
def quotedToken (style : Style) (read : Cursor → Option (List Char × Cursor)) (c : Cursor) :
    Option (Token × Cursor) :=
  (read c.step).map fun (text, next) => (.scalar style (String.ofList text), next)

/-- A name, as a token. -/
def nameToken (t : String → Token) (c : Cursor) : Option (Token × Cursor) :=
  (name? c.step).map fun (name, next) => (t name, next)

/-- A tag, as a token. -/
def tagToken (flow : Bool) (c : Cursor) : Option (Token × Cursor) :=
  (tag? flow c.step).map fun (name, next) => (.tag name, next)

/-- Whether a scalar without quotes starts with a list. -/
def startsPlain (flow : Bool) : List Char → Bool
  | [] => false
  | '-' :: rest => !rest.head?.any isSpace
  | x :: rest =>
    if isSpace x then false
    else if x == '?' || x == ':' then !flow && !atGap rest
    else !(['-', '?', ':', ',', '[', ']', '#', '&', '*', '!', '|', '>', '%', '@', '\'', '"',
      '\x7b', '\x7d', '\x60'].contains x)

/-! ### The next token -/

/-- Moves to the next token; a key may begin on a new line, unless a bracket or brace is
open. -/
def skipGap (s : Lexer) : Lexer :=
  let tabs := s.flow || !s.keyAllowed
  let c := (s.next.skipWhile fun x => x == ' ' || (tabs && x == '\t')).skipComment
  match _h : c.rest with
  | [] => { s with next := c }
  | x :: _ =>
    if isBreak x then skipGap { s with next := c.step, keyAllowed := s.keyAllowed || !s.flow }
    else { s with next := c }
  termination_by s.next.rest.length
  decreasing_by
    exact Nat.lt_of_lt_of_le (Cursor.length_step_lt (c := c) (by simp [_h]))
      (Nat.le_trans (Cursor.length_skipComment_le _) (Cursor.length_skipWhile_le _ _))

/-- The token at a character. -/
def tokenAt? (x : Char) (rest : List Char) (s : Lexer) : Option Lexer :=
  let c := s.next
  let alone := atGap rest
  -- what separates documents stands in the first column, whatever is open
  if x == '%' && c.column == 0 then s.outside? fun c => directive? c.step
  else if c.isMark '-' then s.outside? fun c => some (.documentStart, c.skip 3)
  else if c.isMark '.' then s.outside? fun c => some (.documentEnd, c.skip 3)
  -- brackets, braces and commas are marks wherever they stand
  else if x == '[' then s.open? .openSequence
  else if x == '\x7b' then s.open? .openMapping
  else if x == ']' then s.close? .closeSequence
  else if x == '\x7d' then s.close? .closeMapping
  else if x == ',' then s.comma?
  -- a dash, a question mark and a colon are marks if a gap follows
  else if x == '-' && alone then s.item?
  else if x == '?' && (s.flow || alone) then s.key?
  else if x == ':' && (s.flow || alone) then s.value?
  else if x == '*' then s.content? (nameToken .alias)
  else if x == '&' then s.content? (nameToken .anchor)
  else if x == '!' then s.content? (tagToken s.flow)
  else if x == '|' && !s.flow then s.blockScalar? false
  else if x == '>' && !s.flow then s.blockScalar? true
  else if x == '\'' then s.content? (quotedToken .single singleQuoted?)
  else if x == '"' then s.content? (quotedToken .double doubleQuoted?)
  -- all that is left can only be a scalar without quotes
  else if startsPlain s.flow (x :: rest) then s.plainScalar?
  else none

/-- Reads one token more. -/
def next? (s : Lexer) : Option Lexer := do
  let s ← s.skipGap.expire?
  -- a token that stands before the column of a block ends the block
  let s := s.closeBlocks (some s.next.column)
  let s ← match s.next.rest with
    | [] => s.finish?
    | x :: rest => s.tokenAt? x rest
  let s ← s.expire?
  return s.settle

/-- Reads tokens up to the end of the text, or for as long as there are any. -/
def run : (fuel : Nat) → Lexer → Lexer
  | 0, s => s
  | fuel + 1, s =>
    if s.isDone then s
    else
      match s.next? with
      | none => s
      | some s => run fuel s

/-- The mark of the order of bytes, which may stand before a text. -/
def orderMark : Char := '\uFEFF'

/-- Where a text starts: behind a mark of the order of bytes, of which a second one counts
as a column. -/
def start (cs : List Char) : Cursor :=
  let c : Cursor := ⟨if cs.head? == some orderMark then cs.tail else cs, 0, 0, 0⟩
  if c.at? orderMark then c.step else c

end Lexer

/-- The settled tokens of a text. -/
def tokens (cs : List Char) : List Token :=
  if !cs.all isAllowed then []
  else
    let c := Lexer.start (unifyBreaks cs)
    let s := Lexer.run (c.rest.length + 2) { next := c }
    s.tokens.toList.take s.settled

end StagedLoad.Yaml
