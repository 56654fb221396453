import StagedLoad.Json.Writer
import StagedLoad.Yaml.Decode

/-!
# Values of YAML

Values of any type, as they are read where no type is expected, and as JSON.

## Main definitions

* `Yaml.Value` — the values.
* `Yaml.Place.value` — reading a value of any type.
* `Yaml.Value.hasRepeatedKey` — whether a mapping in a value has a key twice.
* `Yaml.Value.json?` — the same value in JSON.
-/

namespace StagedLoad.Yaml

/-- A value. -/
inductive Value
  /-- The absent value. -/
  | null
  /-- A truth value. -/
  | bool (b : Bool)
  /-- An integer of 64 bits, with or without a sign. -/
  | integer (n : Int)
  /-- A double. -/
  | double (x : Float)
  /-- A text. -/
  | string (s : String)
  /-- A sequence. -/
  | sequence (items : List Value)
  /-- A mapping. -/
  | mapping (entries : List (Value × Value))
  /-- A value with a tag of its own. -/
  | tagged (tag : String) (value : Value)
  deriving Inhabited

namespace Value

/-! ### Scalars -/

/-- The greatest number of 64 bits, `2 ^ 64 - 1`. -/
def greatestWord : Nat := 18446744073709551615

/-- The greatest number of 128 bits, `2 ^ 128 - 1`. -/
def greatestLong : Nat := 340282366920938463463374607431768211455

/-- The greatest absolute value of a negative number of 64 bits, `2 ^ 63`. -/
def greatestNegativeWord : Nat := 9223372036854775808

/-- The greatest absolute value of a negative number of 128 bits, `2 ^ 127`. -/
def greatestNegativeLong : Nat := 170141183460469231731687303715884105728

/-- Whether a text is written for an integer of 128 bits. -/
def isLong (s : String) : Bool :=
  (unsigned? greatestLong s).isSome || (negative? greatestNegativeLong s).isSome

/-- The integer of 64 bits that a text is written for. -/
def integer? (s : String) : Option Value :=
  match unsigned? greatestWord s, negative? greatestNegativeWord s with
  | some n, _ => some (integer n)
  | none, some n => some (integer (-(n : Int)))
  | none, none => none

/-- Whether a text has digits after a leading zero, and nothing else but a sign. -/
def isPadded (s : String) : Bool :=
  let cs := s.toList
  hasLeadingZero (if startsWithSign cs then cs.tail else cs)

/-- What a plain scalar stands for; integers beyond 64 bits stand for nothing. -/
def ofPlain? (s : String) : Option Value :=
  if s.isEmpty || isNull s then some null
  else if let some b := bool? s then some (bool b)
  else if let some v := integer? s then some v
  else if isLong s then none
  else if let some x := (if isPadded s then none else double? s) then some (double x)
  else some (string s)

/-- What a scalar stands for whose tag is not its own. -/
def ofStyle? (style : Style) (s : String) : Option Value :=
  if style == .plain then ofPlain? s else some (string s)

/-- Whether a tag is none of a standard. -/
def isOwnTag (tag : String) : Bool := tag.toList.head? == some '!'

/-- What follows an exclamation mark, unless nothing does. -/
def dropMark : List Char → List Char
  | '!' :: c :: cs => c :: cs
  | cs => cs

/-- A value with an own tag, which is shown behind one exclamation mark. -/
def own (tag : String) (v : Value) : Value :=
  tagged ("!" ++ String.ofList (dropMark (dropMark tag.toList))) v

/-- What a scalar stands for. -/
def ofScalar? (tag : Option String) (style : Style) (s : String) : Option Value :=
  match tag with
  | none => ofStyle? style s
  | some t =>
    if isOwnTag t then (ofStyle? style s).map (own t)
    else if t = Place.coreTag "bool" then (bool? s).map bool
    else if t = Place.coreTag "int" then integer? s
    else if t = Place.coreTag "float" then (double? s).map double
    else if t = Place.coreTag "null" then (if isNull s then some null else none)
    else some (string s)

/-- Puts the own tag of a collection on it. -/
def ofCollection (tag : Option String) (v : Value) : Value :=
  match tag with
  | none => v
  | some t => if isOwnTag t then own t v else v

end Value

/-! ### Any node -/

/-- Reads a value of any type, in which collections may lie inside each other up to a
depth. -/
def Place.valueUpTo {ε : Type} : (depth : Nat) → Place → Decode ε Value
  | depth, p => do
    let p ← p.enter
    match depth, p.node with
    | _, .scalar tag style s => expect (Value.ofScalar? tag style s)
    | depth + 1, .sequence tag ns =>
      let vs ← ns.mapM fun n => valueUpTo depth (p.inside n)
      return Value.ofCollection tag (.sequence vs)
    | depth + 1, .mapping tag es =>
      let es ← es.mapM fun (k, v) => do
        return (← valueUpTo depth (p.inside k), ← valueUpTo depth (p.inside v))
      return Value.ofCollection tag (.mapping es)
    | _, _ => malformed

/-- Reads a value of any type. -/
def Place.value {ε : Type} (p : Place) : Decode ε Value := p.valueUpTo p.depth

namespace Value

/-! ### Repeated keys and own tags -/

mutual

/-- Whether two values are the same. -/
def same : Value → Value → Bool
  | null, null => true
  | bool a, bool b => a == b
  | integer a, integer b => a == b
  | double x, double y => x == y || (x.isNaN && y.isNaN)
  | string a, string b => a == b
  | sequence a, sequence b => sameItems a b
  | mapping a, mapping b => a.length == b.length && sameEntries a b
  | tagged s a, tagged t b => s == t && same a b
  | _, _ => false

/-- Whether two lists of items are the same. -/
def sameItems : List Value → List Value → Bool
  | [], [] => true
  | a :: as, b :: bs => same a b && sameItems as bs
  | _, _ => false

/-- Whether every entry of a list is among those of another. -/
def sameEntries : List (Value × Value) → List (Value × Value) → Bool
  | [], _ => true
  | (k, v) :: rest, es => hasEntry k v es && sameEntries rest es

/-- Whether an entry is in a list. -/
def hasEntry (k v : Value) : List (Value × Value) → Bool
  | [] => false
  | (k', v') :: rest => (same k k' && same v v') || hasEntry k v rest

end

/-- Whether a key is in a list. -/
def hasKey (k : Value) (es : List (Value × Value)) : Bool := es.any fun e => same k e.1

mutual

/-- Whether a mapping in a value has a key twice. -/
def hasRepeatedKey : Value → Bool
  | sequence items => repeatsInItems items
  | mapping entries => repeatsInEntries entries
  | tagged _ v => hasRepeatedKey v
  | _ => false

/-- Whether a mapping in some items has a key twice. -/
def repeatsInItems : List Value → Bool
  | [] => false
  | v :: rest => hasRepeatedKey v || repeatsInItems rest

/-- Whether some entries, or a mapping in them, have a key twice. -/
def repeatsInEntries : List (Value × Value) → Bool
  | [] => false
  | (k, v) :: rest =>
    hasKey k rest || hasRepeatedKey k || hasRepeatedKey v || repeatsInEntries rest

end

mutual

/-- Whether there is an own tag in a value. -/
def hasOwnTag : Value → Bool
  | sequence items => tagsInItems items
  | mapping entries => tagsInEntries entries
  | tagged _ _ => true
  | _ => false

/-- Whether there is an own tag in some items. -/
def tagsInItems : List Value → Bool
  | [] => false
  | v :: rest => hasOwnTag v || tagsInItems rest

/-- Whether there is an own tag in some entries. -/
def tagsInEntries : List (Value × Value) → Bool
  | [] => false
  | (k, v) :: rest => hasOwnTag k || hasOwnTag v || tagsInEntries rest

end

/-! ### JSON -/

/-- Why a value cannot be written in JSON. -/
inductive KeyFault
  /-- A key is none that can be written as a text. -/
  | notText
  /-- A key is a double that is not finite. -/
  | notFinite
  deriving DecidableEq, Repr

/-- The wording of a fault. -/
def KeyFault.message : KeyFault → String
  | notText => "key must be a string"
  | notFinite => "float key must be finite (got NaN or +/-inf)"

/-- A value as the name of a member. -/
def name? : Value → Except KeyFault String
  | string s => .ok s
  | bool b => .ok (if b then "true" else "false")
  | integer n => .ok (String.ofList (Json.integerChars n))
  | double x =>
    if Binary64.isFinite x then .ok (Json.render (.number (.double x))) else .error .notFinite
  | _ => .error .notText

mutual

/-- The same value in JSON.  An own tag becomes the only member of an object. -/
def json? : Value → Except KeyFault (Json Json.Number)
  | null => .ok .null
  | bool b => .ok (.bool b)
  | integer n => .ok (.number (.integer n))
  | double x => .ok (if Binary64.isFinite x then .number (.double x) else .null)
  | string s => .ok (.string s)
  | sequence items => (jsonItems? items).map .array
  | mapping entries => (jsonEntries? entries).map .object
  | tagged tag v => (json? v).map fun j => .object [(tag, j)]

/-- The same items in JSON. -/
def jsonItems? : List Value → Except KeyFault (List (Json Json.Number))
  | [] => .ok []
  | v :: rest => do
    let j ← json? v
    let js ← jsonItems? rest
    return j :: js

/-- The same entries in JSON. -/
def jsonEntries? : List (Value × Value) → Except KeyFault (List (String × Json Json.Number))
  | [] => .ok []
  | (k, v) :: rest => do
    let name ← name? k
    let j ← json? v
    let js ← jsonEntries? rest
    return (name, j) :: js

end

end Value

end StagedLoad.Yaml
