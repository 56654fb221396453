/-!
# Tokens of YAML

What a YAML text is made of once blanks, comments and indentation are gone.

## Main definitions

* `Yaml.Style` — how a scalar is written.
* `Yaml.TagName` — a tag as it is written.
* `Yaml.Token` — the tokens.
-/

namespace StagedLoad.Yaml

/-- How a scalar is written. -/
inductive Style
  /-- Without quotes. -/
  | plain
  /-- Between single quotes. -/
  | single
  /-- Between double quotes. -/
  | double
  /-- As a block whose lines are kept. -/
  | literal
  /-- As a block whose lines are joined. -/
  | folded
  deriving DecidableEq, Repr, Inhabited

/-- A tag as it is written. -/
structure TagName where
  /-- What is declared elsewhere; empty for a tag that is written in full. -/
  handle : String
  /-- What follows it. -/
  suffix : String
  deriving DecidableEq, Repr, Inhabited

/-- A token. -/
inductive Token
  /-- The version of YAML that a document is written in. -/
  | version (major minor : Nat)
  /-- What a handle stands for in a document. -/
  | declareHandle (handle stem : String)
  /-- Three dashes. -/
  | documentStart
  /-- Three dots. -/
  | documentEnd
  /-- The end of the text. -/
  | streamEnd
  /-- Indentation that opens a block sequence. -/
  | blockSequence
  /-- Indentation that opens a block mapping. -/
  | blockMapping
  /-- The end of the indentation of a block. -/
  | blockEnd
  /-- An opening bracket. -/
  | openSequence
  /-- A closing bracket. -/
  | closeSequence
  /-- An opening brace. -/
  | openMapping
  /-- A closing brace. -/
  | closeMapping
  /-- A dash before an item. -/
  | item
  /-- A comma. -/
  | comma
  /-- What stands before a key, which may be nothing. -/
  | key
  /-- A colon before a value. -/
  | value
  /-- A reference to a node. -/
  | alias (name : String)
  /-- The name of a node. -/
  | anchor (name : String)
  /-- The type of a node. -/
  | tag (name : TagName)
  /-- A scalar. -/
  | scalar (style : Style) (text : String)
  deriving DecidableEq, Repr, Inhabited

end StagedLoad.Yaml
