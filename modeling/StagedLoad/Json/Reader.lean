import StagedLoad.Json.Basic
import StagedLoad.Json.Number
import StagedLoad.Text.Bytes

/-!
# Reading JSON

The reader follows the grammar of JSON.  A text is one value with blanks around it; at most
127 arrays and objects are open at once; escapes have to make up characters.

What a number becomes is left to the caller: the literal itself, or what it stands for.

## Main definitions

* `Json.literal?`, `Json.text?` — reading a number and a text.
* `Json.value?` — reading a value off the start of a text.
* `Json.ofChars?` — reading a whole text.
* `Json.ofBytes?` — reading the bytes of a text, with numbers for literals.
-/

namespace StagedLoad.Json

variable {ν : Type}

/-! ### Blanks and numbers -/

/-- The blanks of JSON. -/
def isBlank (c : Char) : Bool := c == ' ' || c == '\n' || c == '\r' || c == '\t'

/-- What follows the blanks at the start. -/
def skipBlanks (cs : List Char) : List Char := cs.dropWhile isBlank

/-- The digits at the start, of which there has to be one, and the rest. -/
def digits? (cs : List Char) : Option (List Char × List Char) :=
  if (cs.takeWhile Char.isDigit).isEmpty then none
  else some (cs.takeWhile Char.isDigit, cs.dropWhile Char.isDigit)

/-- The digits before the point: none follows a leading zero. -/
def whole? (cs : List Char) : Option (List Char × List Char) :=
  match digits? cs with
  | some ('0' :: _ :: _, _) => none
  | other => other

/-- The digits after the point, if there is one. -/
def fraction? : List Char → Option (Option (List Char) × List Char)
  | '.' :: cs => (digits? cs).map fun (ds, rest) => (some ds, rest)
  | cs => some (none, cs)

/-- The exponent, if there is one. -/
def exponent? : List Char → Option (Option Int × List Char)
  | [] => some (none, [])
  | c :: cs =>
    if c = 'e' ∨ c = 'E' then
      let (negative, ds) := StagedLoad.Literal.splitSign cs
      (digits? ds).map fun (ds, rest) =>
        let n : Int := StagedLoad.Literal.natOfDigits 0 ds
        (some (if negative then -n else n), rest)
    else some (none, c :: cs)

/-- Splits a leading minus off. -/
def splitMinus : List Char → Bool × List Char
  | '-' :: cs => (true, cs)
  | cs => (false, cs)

/-- A number at the start of a text. -/
def literal? (cs : List Char) : Option (Literal × List Char) := do
  let (negative, cs) := splitMinus cs
  let (whole, cs) ← whole? cs
  let (fraction, cs) ← fraction? cs
  let (exponent, cs) ← exponent? cs
  return (⟨negative, whole, fraction, exponent⟩, cs)

/-! ### Texts -/

/-- The value of a hexadecimal digit. -/
def hexValue? (c : Char) : Option Nat :=
  if c.isDigit then some (c.toNat - 48)
  else if 'a' ≤ c ∧ c ≤ 'f' then some (c.toNat - 87)
  else if 'A' ≤ c ∧ c ≤ 'F' then some (c.toNat - 55)
  else none

/-- The value of four hexadecimal digits. -/
def hexWord? (a b c d : Char) : Option Nat := do
  let a ← hexValue? a
  let b ← hexValue? b
  let c ← hexValue? c
  let d ← hexValue? d
  return ((a * 16 + b) * 16 + c) * 16 + d

/-- The character of an escape with one letter. -/
def escaped? : Char → Option Char
  | '"' => some '"'
  | '\\' => some '\\'
  | '/' => some '/'
  | 'b' => some '\x08'
  | 'f' => some '\x0c'
  | 'n' => some '\n'
  | 'r' => some '\r'
  | 't' => some '\t'
  | _ => none

/-- Whether a 16-bit word is the first half of a pair. -/
def isHighHalf (n : Nat) : Bool := 0xD800 ≤ n && n < 0xDC00

/-- Whether a 16-bit word is the second half of a pair. -/
def isLowHalf (n : Nat) : Bool := 0xDC00 ≤ n && n < 0xE000

/-- The character of the two halves of a pair. -/
def joinHalves (high low : Nat) : Char :=
  Char.ofNat (0x10000 + (high - 0xD800) * 0x400 + (low - 0xDC00))

/-- Puts a character in front of what was read. -/
def prepend (c : Char) : List Char × List Char → List Char × List Char
  | (s, rest) => (c :: s, rest)

/-- The characters up to the closing quote, escapes resolved, and what follows the quote. -/
def text? : List Char → Option (List Char × List Char)
  | [] => none
  | '"' :: rest => some ([], rest)
  | '\\' :: 'u' :: a :: b :: c :: d :: rest =>
    match hexWord? a b c d with
    | none => none
    | some n =>
      if isLowHalf n then none
      else if isHighHalf n then
        match rest with
        | '\\' :: 'u' :: a :: b :: c :: d :: rest' =>
          match hexWord? a b c d with
          | none => none
          | some m =>
            if isLowHalf m then (text? rest').map (prepend (joinHalves n m)) else none
        | _ => none
      else (text? rest).map (prepend (Char.ofNat n))
  | '\\' :: c :: rest =>
    match escaped? c with
    | none => none
    | some e => (text? rest).map (prepend e)
  | c :: rest => if c.toNat < 0x20 ∨ c = '\\' then none else (text? rest).map (prepend c)

/-! ### Values -/

mutual

/-- A value at the start of a text, which may open `depth` more arrays and objects. -/
def value? (number : Literal → Option ν) :
    (fuel depth : Nat) → List Char → Option (Json ν × List Char)
  | 0, _, _ => none
  | fuel + 1, depth, cs =>
    match cs with
    | 'n' :: 'u' :: 'l' :: 'l' :: rest => some (null, rest)
    | 't' :: 'r' :: 'u' :: 'e' :: rest => some (bool true, rest)
    | 'f' :: 'a' :: 'l' :: 's' :: 'e' :: rest => some (bool false, rest)
    | '"' :: rest => (text? rest).map fun (s, rest) => (string (String.ofList s), rest)
    | '[' :: rest =>
      match depth with
      | 0 => none
      | depth + 1 =>
        match skipBlanks rest with
        | ']' :: rest => some (array [], rest)
        | cs => (elements? number fuel depth cs).map fun (vs, rest) => (array vs, rest)
    | '\x7b' :: rest =>
      match depth with
      | 0 => none
      | depth + 1 =>
        match skipBlanks rest with
        | '\x7d' :: rest => some (object [], rest)
        | cs => (members? number fuel depth cs).map fun (ms, rest) => (object ms, rest)
    | cs =>
      match literal? cs with
      | none => none
      | some (l, rest) => (number l).map fun n => (.number n, rest)

/-- The elements of an array up to its closing bracket. -/
def elements? (number : Literal → Option ν) :
    (fuel depth : Nat) → List Char → Option (List (Json ν) × List Char)
  | 0, _, _ => none
  | fuel + 1, depth, cs =>
    match value? number fuel depth cs with
    | none => none
    | some (v, rest) =>
      match skipBlanks rest with
      | ']' :: rest => some ([v], rest)
      | ',' :: rest =>
        (elements? number fuel depth (skipBlanks rest)).map fun (vs, rest) => (v :: vs, rest)
      | _ => none

/-- The members of an object up to its closing brace. -/
def members? (number : Literal → Option ν) :
    (fuel depth : Nat) → List Char → Option (List (String × Json ν) × List Char)
  | 0, _, _ => none
  | fuel + 1, depth, cs =>
    match cs with
    | '"' :: rest =>
      match text? rest with
      | none => none
      | some (name, rest) =>
        match skipBlanks rest with
        | ':' :: rest =>
          match value? number fuel depth (skipBlanks rest) with
          | none => none
          | some (v, rest) =>
            let member := (String.ofList name, v)
            match skipBlanks rest with
            | '\x7d' :: rest => some ([member], rest)
            | ',' :: rest =>
              (members? number fuel depth (skipBlanks rest)).map fun (ms, rest) =>
                (member :: ms, rest)
            | _ => none
        | _ => none
    | _ => none

end

/-- How many arrays and objects may be open at once. -/
def greatestDepth : Nat := 127

/-- The value of a whole text. -/
def ofChars? (number : Literal → Option ν) (cs : List Char) : Option (Json ν) :=
  match value? number (2 * cs.length + 1) greatestDepth (skipBlanks cs) with
  | none => none
  | some (v, rest) => if (skipBlanks rest).isEmpty then some v else none

/-- The value of a text given by its bytes. -/
def ofBytes? (bytes : Bytes) : Option (Json Number) := do
  let s ← bytes.toString?
  ofChars? Literal.value? s.toList

end StagedLoad.Json
