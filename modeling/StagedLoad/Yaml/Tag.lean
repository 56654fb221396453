import StagedLoad.Json.Reader
import StagedLoad.Yaml.Cursor
import StagedLoad.Yaml.Token

/-!
# Names, tags and directives

Anchors and aliases have names, tags are written in full or by a handle, and lines that
start with a percent sign declare a version or a handle.

## Main definitions

* `Yaml.name?` — the name of an anchor or an alias.
* `Yaml.tag?` — a tag.
* `Yaml.directive?` — a declaration.
-/

namespace StagedLoad.Yaml

/-- Whether a character may follow a name. -/
def followsName (x : Char) : Bool :=
  isSpace x || isBreak x || x == '?' || x == ':' || x == ',' || x == ']' || x == '\x7d' ||
    x == '%' || x == '@' || x == '\x60'

/-- A name at the start of a list. -/
def nameOf (cs : List Char) : List Char := cs.takeWhile isNameChar

/-- What follows the name at the start of a list. -/
def behindName (cs : List Char) : List Char := cs.dropWhile isNameChar

/-- Reads the name of an anchor or an alias behind its first character. -/
def name? (c : Cursor) : Option (String × Cursor) :=
  let name := nameOf c.rest
  let next := c.skip name.length
  if name.isEmpty || !endsOr followsName next.rest then none
  else some (String.ofList name, next)

/-- Whether a character may stand in a tag; some may in tags that are written in full
only. -/
def isTagChar (full : Bool) (x : Char) : Bool :=
  isNameChar x ||
    [';', '/', '?', ':', '@', '&', '=', '+', '$', '.', '%', '!', '~', '*', '\'', '(',
      ')'].contains x ||
    (full && [',', '[', ']'].contains x)

/-- The bytes that a part of a tag is written for. -/
def tagBytes? : List Char → Option Bytes
  | [] => some []
  | '%' :: a :: b :: rest =>
    match Json.hexValue? a, Json.hexValue? b with
    | some x, some y => (tagBytes? rest).map (UInt8.ofNat (x * 16 + y) :: ·)
    | _, _ => none
  | c :: rest => if c == '%' then none else (tagBytes? rest).map (Bytes.ofString c.toString ++ ·)

/-- A part of a tag at the start of a list, and what follows it. -/
def tagPart? (full : Bool) (cs : List Char) : Option (String × List Char) := do
  let bytes ← tagBytes? (cs.takeWhile (isTagChar full))
  let text ← bytes.toString?
  return (text, cs.dropWhile (isTagChar full))

/-- The same, but it must not be empty. -/
def tagPart1? (full : Bool) (cs : List Char) : Option (String × List Char) :=
  (tagPart? full cs).filter fun p => !p.1.isEmpty

/-- The tag at the start of a list, behind its exclamation mark. -/
def tagName? : List Char → Option (TagName × List Char)
  | '<' :: cs =>
    match tagPart1? true cs with
    | some (suffix, '>' :: rest) => some (⟨"", suffix⟩, rest)
    | _ => none
  | cs =>
    let name := String.ofList (nameOf cs)
    match behindName cs with
    | '!' :: cs => (tagPart1? false cs).map fun (suffix, rest) =>
      (⟨"!" ++ name ++ "!", suffix⟩, rest)
    | cs => (tagPart? false cs).map fun (suffix, rest) =>
      let suffix := name ++ suffix
      (if suffix.isEmpty then ⟨"", "!"⟩ else ⟨"!", suffix⟩, rest)

/-- Reads a tag behind its exclamation mark. -/
def tag? (flow : Bool) (c : Cursor) : Option (TagName × Cursor) :=
  match tagName? c.rest with
  | none => none
  | some (name, rest) =>
    if atGap rest || (flow && rest.head? == some ',') then some (name, c.moveTo rest) else none

/-! ### Declarations -/

/-- The greatest number of digits in a version. -/
def greatestVersion : Nat := 9

/-- The number at the start of a list. -/
def versionNumber? (cs : List Char) : Option (Nat × List Char) :=
  match Json.digits? cs with
  | some (ds, rest) =>
    if ds.length ≤ greatestVersion then some (StagedLoad.Literal.natOfDigits 0 ds, rest) else none
  | none => none

/-- A version at the start of a list. -/
def version? (cs : List Char) : Option (Token × List Char) :=
  match versionNumber? cs with
  | some (major, '.' :: rest) =>
    (versionNumber? rest).map fun (minor, rest) => (.version major minor, rest)
  | _ => none

/-- The handle at the start of a list: an exclamation mark, or a name between two. -/
def handle? : List Char → Option (String × List Char)
  | '!' :: cs =>
    let name := nameOf cs
    match behindName cs with
    | '!' :: rest => some ("!" ++ String.ofList name ++ "!", rest)
    | rest => if name.isEmpty then some ("!", rest) else none
  | _ => none

/-- A handle and what it stands for at the start of a list. -/
def declaredHandle? (cs : List Char) : Option (Token × List Char) :=
  match handle? cs with
  | some (handle, x :: rest) =>
    if isSpace x then
      match tagPart1? true (rest.dropWhile isSpace) with
      | some (stem, rest) => if atGap rest then some (.declareHandle handle stem, rest) else none
      | none => none
    else none
  | _ => none

/-- The declaration at the start of a list, behind its percent sign. -/
def declaration? (cs : List Char) : Option (Token × List Char) :=
  let rest := behindName cs
  if !atGap rest then none
  else
    let rest := rest.dropWhile isSpace
    match String.ofList (nameOf cs) with
    | "YAML" => version? rest
    | "TAG" => declaredHandle? rest
    | _ => none

/-- Reads a declaration behind its percent sign, up to the end of the line. -/
def directive? (c : Cursor) : Option (Token × Cursor) :=
  match declaration? c.rest with
  | none => none
  | some (t, rest) =>
    let next := ((c.moveTo rest).skipWhile isSpace).skipComment
    if atBreak next.rest then some (t, next.step) else none

end StagedLoad.Yaml
