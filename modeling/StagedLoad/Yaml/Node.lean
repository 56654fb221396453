import StagedLoad.Table
import StagedLoad.Yaml.Lexer

/-!
# Documents of YAML

The tree that the tokens of a document make up.  Where the tokens break off, or are none of
the grammar, the tree has a node that cannot be read, and nothing behind it.

An alias leads to a number that its name stood for where it was read; what the number leads
to is known only at the end of the document, so that aliases are followed afterwards.

## Main definitions

* `Yaml.Node` — the trees.
* `Yaml.Document` — a tree, what aliases lead to, and whether the text ends behind it.
* `Yaml.Document.ofTokens`, `Yaml.Document.ofText` — reading a document.
* `Yaml.Document.follow` — where an alias leads.
-/

namespace StagedLoad.Yaml

/-- A node. -/
inductive Node
  /-- A scalar. -/
  | scalar (tag : Option String) (style : Style) (text : String)
  /-- A sequence. -/
  | sequence (tag : Option String) (items : List Node)
  /-- A mapping. -/
  | mapping (tag : Option String) (entries : List (Node × Node))
  /-- What a number leads to. -/
  | alias (target : Nat)
  /-- A place where the text cannot be read. -/
  | unreadable
  deriving Inhabited

namespace Node

/-- The node that is left out. -/
def empty : Node := scalar none .plain ""

/-- An entry that cannot be read. -/
def unreadableEntry : Node × Node := (unreadable, unreadable)

end Node

/-- What stands before a node. -/
structure Properties where
  /-- Its name. -/
  anchor : Option String := none
  /-- Its type. -/
  tag : Option TagName := none
  deriving Inhabited

/-- The properties at the start of some tokens. -/
def properties : List Token → Properties × List Token
  | .anchor a :: .tag t :: rest => (⟨some a, some t⟩, rest)
  | .tag t :: .anchor a :: rest => (⟨some a, some t⟩, rest)
  | .anchor a :: rest => (⟨some a, none⟩, rest)
  | .tag t :: rest => (⟨none, some t⟩, rest)
  | rest => ({}, rest)

/-- What the handles of tags stand for in every document. -/
def standardHandles : List (String × String) := [("!", "!"), ("!!", "tag:yaml.org,2002:")]

/-- The state of reading nodes. -/
structure NodeReader where
  /-- What is to be read; nothing, once something could not be read. -/
  tokens : List Token
  /-- What the handles of tags stand for. -/
  handles : List (String × String) := standardHandles
  /-- How many scalars, aliases and ends of collections there were, both ends counting. -/
  events : Nat := 0
  /-- The numbers of the names so far. -/
  names : Table String Nat := Table.empty
  /-- What the numbers lead to, and how many events came before it. -/
  targets : Table Nat (Nat × Node) := Table.empty
  deriving Inhabited

/-- A node and what follows it. -/
abbrev NodeRead := Node × NodeReader

namespace NodeReader

/-- Goes on behind some tokens. -/
def behind (s : NodeReader) (rest : List Token) : NodeReader := { s with tokens := rest }

/-- Counts an event. -/
def count (s : NodeReader) : NodeReader := { s with events := s.events + 1 }

/-- Nothing more can be read. -/
def broken (s : NodeReader) : NodeReader := s.behind []

/-- A node that cannot be read. -/
def fail (s : NodeReader) : NodeRead := (.unreadable, s.broken)

/-- A node that is left out. -/
def leaveOut (s : NodeReader) : NodeRead := (.empty, s.count)

/-- The tag that is meant by one that is written. -/
def tag? (s : NodeReader) (t : TagName) : Option String :=
  if t.handle.isEmpty then some t.suffix
  else (Table.lookup t.handle s.handles).map fun stem => stem ++ t.suffix

/-- Takes a number for a name.  The number is how many names there are, so that it is that
of another name too if the name had one before. -/
def declare (s : NodeReader) (anchor : Option String) : NodeReader :=
  anchor.elim s fun name =>
    { s with names := s.names.insert name s.names.entries.length }

/-- Notes what the number of a name leads to, which came behind some events.  Of two nodes
with one number the one that starts later counts. -/
def note (before : NodeReader) (anchor : Option String) (read : NodeRead) : NodeRead :=
  anchor.elim read fun _ =>
    let start := before.events
    let (n, s) := read
    (n, { s with targets := s.targets.update before.names.entries.length fun old =>
      match old with
      | some (later, other) => if start < later then (later, other) else (start, n)
      | none => (start, n) })

/-! ### The grammar -/

/-- Whether a token ends a key or a value in a block. -/
def endsBlockEntry : Token → Bool
  | .key | .value | .blockEnd => true
  | _ => false

/-- Whether a token ends an item of a block with indentation of its own. -/
def endsBlockItem : Token → Bool
  | .item | .blockEnd => true
  | _ => false

/-- Whether a token ends an item of a block without indentation of its own. -/
def endsLooseItem (t : Token) : Bool := t == .item || endsBlockEntry t

/-- Whether a token ends a value between braces. -/
def endsFlowValue : Token → Bool
  | .comma | .closeMapping => true
  | _ => false

/-- Whether a token ends a key between braces. -/
def endsFlowKey (t : Token) : Bool := t == .value || endsFlowValue t

/-- Whether a token ends a value of a pair between brackets. -/
def endsPairValue : Token → Bool
  | .comma | .closeSequence => true
  | _ => false

/-- Skips the comma between two items; there is none before the first. -/
def behindComma? (first : Bool) (s : NodeReader) : Option NodeReader :=
  if first then some s
  else
    match s.tokens with
    | .comma :: rest => some (s.behind rest)
    | _ => none

mutual

/-- Reads a node.  Items without indentation of their own and blocks may stand in some
places only. -/
def node (fuel : Nat) (block loose : Bool) (s : NodeReader) : NodeRead :=
  match fuel with
  | 0 => s.fail
  | fuel + 1 =>
    match s.tokens with
    | .alias name :: rest =>
      match s.names.get? name with
      | none => s.fail
      | some n => (.alias n, (s.behind rest).count)
    | ts =>
      let (p, rest) := properties ts
      match p.tag, p.tag.bind s.tag? with
      | some _, none => s.fail
      | _, tag =>
        note s p.anchor (content fuel block loose p tag ((s.declare p.anchor).behind rest))

/-- Reads a node behind its properties. -/
def content (fuel : Nat) (block loose : Bool) (p : Properties) (tag : Option String)
    (s : NodeReader) : NodeRead :=
  match fuel with
  | 0 => s.fail
  | fuel + 1 =>
    match s.tokens with
    | .scalar style text :: rest =>
      (.scalar (if tag == some "!" then none else tag) style text, (s.behind rest).count)
    | .openSequence :: rest =>
      let (items, s) := flowItems fuel true (s.behind rest).count
      (.sequence tag items, s)
    | .openMapping :: rest =>
      let (entries, s) := flowEntries fuel true (s.behind rest).count
      (.mapping tag entries, s)
    | [] => s.fail
    | t :: rest =>
      if t == .item && loose then
        let (items, s) := looseItems fuel s.count
        (.sequence tag items, s)
      else if t == .blockSequence && block then
        let (items, s) := blockItems fuel (s.behind rest).count
        (.sequence tag items, s)
      else if t == .blockMapping && block then
        let (entries, s) := blockEntries fuel (s.behind rest).count
        (.mapping tag entries, s)
      -- a name or a tag with nothing behind it belongs to a node that is left out
      else if p.anchor.isSome || p.tag.isSome then (.scalar tag .plain "", s.count)
      else s.fail

/-- Reads a node, unless it is left out before a token. -/
def nodeBefore (fuel : Nat) (stop : Token → Bool) (block loose : Bool) (s : NodeReader) :
    NodeRead :=
  match fuel with
  | 0 => s.fail
  | fuel + 1 =>
    match s.tokens with
    | [] => s.fail
    | t :: _ => if stop t then s.leaveOut else node fuel block loose s

/-- Reads a value behind its colon; without a colon it is left out. -/
def valueBefore (fuel : Nat) (stop : Token → Bool) (block : Bool) (s : NodeReader) : NodeRead :=
  match fuel with
  | 0 => s.fail
  | fuel + 1 =>
    match s.tokens with
    | [] => s.fail
    | .value :: rest => nodeBefore fuel stop block block (s.behind rest)
    | _ => s.leaveOut

/-- Reads the items of a block with indentation of its own. -/
def blockItems (fuel : Nat) (s : NodeReader) : List Node × NodeReader :=
  match fuel with
  | 0 => ([.unreadable], s.broken)
  | fuel + 1 =>
    match s.tokens with
    | .item :: rest =>
      let (n, s) := nodeBefore fuel endsBlockItem true false (s.behind rest)
      let (ns, s) := blockItems fuel s
      (n :: ns, s)
    | .blockEnd :: rest => ([], (s.behind rest).count)
    | _ => ([.unreadable], s.broken)

/-- Reads the items of a block without indentation of its own. -/
def looseItems (fuel : Nat) (s : NodeReader) : List Node × NodeReader :=
  match fuel with
  | 0 => ([.unreadable], s.broken)
  | fuel + 1 =>
    match s.tokens with
    | .item :: rest =>
      let (n, s) := nodeBefore fuel endsLooseItem true false (s.behind rest)
      let (ns, s) := looseItems fuel s
      (n :: ns, s)
    | [] => ([.unreadable], s.broken)
    | _ => ([], s.count)

/-- Reads the entries of a block. -/
def blockEntries (fuel : Nat) (s : NodeReader) : List (Node × Node) × NodeReader :=
  match fuel with
  | 0 => ([Node.unreadableEntry], s.broken)
  | fuel + 1 =>
    match s.tokens with
    | .key :: rest =>
      let (k, s) := nodeBefore fuel endsBlockEntry true true (s.behind rest)
      let (v, s) := valueBefore fuel endsBlockEntry true s
      let (entries, s) := blockEntries fuel s
      ((k, v) :: entries, s)
    | .blockEnd :: rest => ([], (s.behind rest).count)
    | _ => ([Node.unreadableEntry], s.broken)

/-- Reads items up to the closing bracket. -/
def flowItems (fuel : Nat) (first : Bool) (s : NodeReader) : List Node × NodeReader :=
  match fuel with
  | 0 => ([.unreadable], s.broken)
  | fuel + 1 =>
    match s.tokens with
    | .closeSequence :: rest => ([], (s.behind rest).count)
    | _ =>
      match behindComma? first s with
      | none => ([.unreadable], s.broken)
      | some s =>
        match s.tokens with
        | .closeSequence :: rest => ([], (s.behind rest).count)
        | .key :: rest =>
          let (n, s) := pair fuel (s.behind rest).count
          let (ns, s) := flowItems fuel false s
          (n :: ns, s)
        | _ =>
          let (n, s) := node fuel false false s
          let (ns, s) := flowItems fuel false s
          (n :: ns, s)

/-- Reads a pair between brackets, which is a mapping with one entry.  Where its key is left
out, the token that follows is skipped. -/
def pair (fuel : Nat) (s : NodeReader) : NodeRead :=
  match fuel with
  | 0 => s.fail
  | fuel + 1 =>
    let (k, s) := match s.tokens with
      | [] => s.fail
      | t :: rest =>
        if t == .value || endsPairValue t then (s.behind rest).leaveOut else node fuel false false s
    let (v, s) := valueBefore fuel endsPairValue false s
    (.mapping none [(k, v)], s.count)

/-- Reads entries up to the closing brace. -/
def flowEntries (fuel : Nat) (first : Bool) (s : NodeReader) : List (Node × Node) × NodeReader :=
  match fuel with
  | 0 => ([Node.unreadableEntry], s.broken)
  | fuel + 1 =>
    match s.tokens with
    | .closeMapping :: rest => ([], (s.behind rest).count)
    | _ =>
      match behindComma? first s with
      | none => ([Node.unreadableEntry], s.broken)
      | some s =>
        match s.tokens with
        | .closeMapping :: rest => ([], (s.behind rest).count)
        | .key :: rest =>
          let (k, s) := nodeBefore fuel endsFlowKey false false (s.behind rest)
          let (v, s) := valueBefore fuel endsFlowValue false s
          let (entries, s) := flowEntries fuel false s
          ((k, v) :: entries, s)
        | _ =>
          -- a key without its mark has no value
          let (k, s) := node fuel false false s
          let (v, s) := match s.tokens with
            | [] => s.fail
            | _ => s.leaveOut
          let (entries, s) := flowEntries fuel false s
          ((k, v) :: entries, s)

end

end NodeReader

/-! ### Documents -/

/-- A document. -/
structure Document where
  /-- Its tree. -/
  root : Node
  /-- What aliases lead to. -/
  targets : Table Nat Node
  /-- How many events it has. -/
  events : Nat
  /-- Whether nothing but the end of the text follows it. -/
  isLast : Bool

namespace Document

/-- Reads the declarations before a document, each of which may occur once. -/
def declarations? (versioned : Bool) (handles : List (String × String)) :
    List Token → Option (List (String × String) × List Token)
  | .version major minor :: rest =>
    if versioned || major != 1 || !(minor == 1 || minor == 2) then none
    else declarations? true handles rest
  | .declareHandle handle stem :: rest =>
    if (Table.lookup handle handles).isSome then none
    else declarations? versioned (handles ++ [(handle, stem)]) rest
  | rest => some (handles, rest)

/-- Whether a token belongs to no document. -/
def isOutside : Token → Bool
  | .version .. | .declareHandle .. | .documentStart | .documentEnd | .streamEnd => true
  | _ => false

/-- Reads the tree of a document behind its start. -/
def body (s : NodeReader) : NodeRead :=
  s.nodeBefore (4 * s.tokens.length + 8) isOutside true false

/-- Reads a tree with the declarations before it.  An empty text is an empty document. -/
def tree (ts : List Token) : NodeRead :=
  match ts with
  | .version .. :: _ | .declareHandle .. :: _ | .documentStart :: _ =>
    match declarations? false [] ts with
    | some (handles, .documentStart :: rest) =>
      body { tokens := rest, handles := handles ++ standardHandles }
    | _ => NodeReader.fail { tokens := ts }
  | .streamEnd :: _ => (.empty, { tokens := ts })
  | .documentEnd :: _ => NodeReader.fail { tokens := ts }
  | ts => body { tokens := ts }

/-- The first document in some tokens. -/
def ofTokens (ts : List Token) : Document :=
  let (root, s) := tree ts
  { root
    targets := s.targets.map Prod.snd
    events := s.events
    isLast := s.tokens.dropWhile (· == .documentEnd) == [.streamEnd] }

/-- The first document of a text. -/
def ofText (text : String) : Document := ofTokens (tokens text.toList)

/-- Where a node leads: aliases lead to what they stand for, all other nodes to
themselves. -/
def follow (d : Document) : Node → Node
  | .alias n => (d.targets.get? n).getD .unreadable
  | n => n

end Document

end StagedLoad.Yaml
