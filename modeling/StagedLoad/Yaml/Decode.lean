import StagedLoad.Yaml.Node
import StagedLoad.Yaml.Schema

/-!
# Reading values off documents

Functions that read values of given types off the nodes of a document, in the order in
which they are written: the first thing that is wrong ends the reading.

How deep collections may lie inside each other is limited, and so is how often aliases may
be followed, so that a short text does not stand for a value without bounds.

## Main definitions

* `Yaml.Fault`, `Yaml.Decode` — readings that may fail.
* `Yaml.Place` — a node and where it lies.
* `Yaml.Place.text`, `Yaml.Place.natural`, `Yaml.Place.truth`, `Yaml.Place.double` — scalars.
* `Yaml.Place.optional`, `Yaml.Place.list`, `Yaml.Place.table`, `Yaml.Place.record` — the rest.
* `Yaml.decode` — reading a text that holds one document.
-/

namespace StagedLoad.Yaml

/-- Why nothing is read. -/
inductive Fault (ε : Type)
  /-- The text is not YAML, or has nodes of other types than expected. -/
  | malformed
  /-- What was read is refused. -/
  | refused (reason : ε)
  deriving DecidableEq, Repr

/-- A reading; its state is how many aliases were followed. -/
abbrev Decode (ε α : Type) := StateT Nat (Except (Fault ε)) α

/-- A reading that fails because of the text. -/
def malformed {ε α : Type} : Decode ε α := throw .malformed

/-- A reading that fails if there is no value. -/
def expect {ε α : Type} : Option α → Decode ε α
  | some a => pure a
  | none => malformed

/-- How deep collections may lie inside each other. -/
def greatestDepth : Nat := 128

/-- How often aliases may be followed for each event of a document. -/
def greatestRepetition : Nat := 100

/-- A node and where it lies. -/
structure Place where
  /-- The document. -/
  document : Document
  /-- How many collections may lie inside each other here. -/
  depth : Nat
  /-- The node. -/
  node : Node

namespace Place

variable {ε α : Type}

/-- A node inside of a collection at a place. -/
def inside (p : Place) (n : Node) : Place := { p with node := n, depth := p.depth - 1 }

/-- The place that an alias leads to; other nodes stay where they are. -/
def enter (p : Place) : Decode ε Place := do
  match p.node with
  | .alias _ =>
    let followed ← get
    if greatestRepetition * p.document.events ≤ followed then malformed
    set (followed + 1)
    return { p with node := p.document.follow p.node }
  | _ => return p

/-! ### Scalars -/

/-- Whether a scalar may be other than text: without quotes, or as a literal block with the
tag of what is expected. -/
def isBare (expected : String) (style : Style) (tag : Option String) : Bool :=
  style == .plain || (style == .literal && tag == some expected)

/-- The tag of a type of the core schema. -/
def coreTag (name : String) : String := "tag:yaml.org,2002:" ++ name

/-- Any scalar as a text. -/
def text (p : Place) : Decode ε String := do
  match (← p.enter).node with
  | .scalar _ _ s => return s
  | _ => malformed

/-- A scalar without quotes that is written for a value. -/
def bare (name : String) (read : String → Option α) (p : Place) : Decode ε α := do
  match (← p.enter).node with
  | .scalar tag style s => if isBare (coreTag name) style tag then expect (read s) else malformed
  | _ => malformed

/-- A natural number up to a limit. -/
def natural (limit : Nat) (p : Place) : Decode ε Nat := p.bare "int" (unsigned? limit)

/-- A truth value. -/
def truth (p : Place) : Decode ε Bool := p.bare "bool" bool?

/-- A double. -/
def double (p : Place) : Decode ε Float := p.bare "float" double?

/-- Whether a node is left out. -/
def isEmpty : Node → Bool
  | .scalar _ .plain "" => true
  | _ => false

/-- Whether there is a value at a node; the absent value has a tag of its own. -/
def isPresent : Node → Decode ε Bool
  | .scalar none .plain s => return !(s.isEmpty || isNull s)
  | .scalar (some tag) .plain s =>
    if tag = coreTag "null" then (if isNull s then return false else malformed) else return true
  | .scalar .. => return true
  | .sequence .. => return true
  | .mapping .. => return true
  | _ => malformed

/-- A value that may be absent. -/
def optional (read : Place → Decode ε α) (p : Place) : Decode ε (Option α) := do
  let p ← p.enter
  if ← isPresent p.node then return some (← read p) else return none

/-! ### Collections -/

/-- The places of the items of a sequence. -/
def items (p : Place) : Decode ε (List Place) := do
  let p ← p.enter
  match p.node with
  | .sequence _ ns => if p.depth = 0 then malformed else return ns.map p.inside
  | n => if isEmpty n then return [] else malformed

/-- The places of the entries of a mapping. -/
def entries (p : Place) : Decode ε (List (Place × Place)) := do
  let p ← p.enter
  match p.node with
  | .mapping _ es =>
    if p.depth = 0 then malformed else return es.map fun (k, v) => (p.inside k, p.inside v)
  | n => if isEmpty n then return [] else malformed

/-- A sequence. -/
def list (read : Place → Decode ε α) (p : Place) : Decode ε (List α) := do
  (← p.items).mapM read

/-- Reads entries into a table; the last one under each name counts. -/
def fill (read : Place → Decode ε α) :
    Table String α → List (Place × Place) → Decode ε (Table String α)
  | t, [] => pure t
  | t, (k, v) :: rest => do
    let name ← k.text
    fill read (t.insert name (← read v)) rest

/-- A mapping from names to values. -/
def table (read : Place → Decode ε α) (p : Place) : Decode ε (Table String α) := do
  fill read Table.empty (← p.entries)

/-- How the fields of a record are read: what becomes of a record when a field with a name
is read off a place, if there is a field with that name. -/
abbrev Fields (ε α : Type) := String → Option (Place → α → Decode ε α)

/-- Reads entries as fields, each at most once; also answers which ones there were. -/
def fillFields (fields : Fields ε α) :
    List String → α → List (Place × Place) → Decode ε (List String × α)
  | seen, a, [] => pure (seen, a)
  | seen, a, (k, v) :: rest => do
    let name ← k.text
    -- a repeated field is at fault before its value is read
    if seen.contains name then malformed
    let read ← expect (fields name)
    fillFields fields (name :: seen) (← read v a) rest

/-- A mapping from the names of fields to their values, some of which are required. -/
def record (required : List String) (initial : α) (fields : Fields ε α) (p : Place) :
    Decode ε α := do
  let (seen, a) ← fillFields fields [] initial (← p.entries)
  if required.all seen.contains then return a else malformed

end Place

/-- The value of a text that holds one document. -/
def decode {ε α : Type} (read : Place → Decode ε α) (text : String) : Except (Fault ε) α := do
  let d := Document.ofText text
  let (a, _) ← (read ⟨d, greatestDepth, d.root⟩).run 0
  -- what follows the document counts only once the document has been read
  if d.isLast then return a else throw .malformed

end StagedLoad.Yaml
