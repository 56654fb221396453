import StagedLoad.Json.Basic
import StagedLoad.Json.Number
import StagedLoad.Decimal.Printer

/-!
# Writing JSON

Values are written without blanks, members in the order of the value.  Quotes, backslashes
and control characters are escaped; what is not a finite number is written as the absent
value.

## Main definitions

* `Json.quoted` — a text in quotes.
* `Json.render` — a value.
-/

namespace StagedLoad.Json

/-- Doubles in JSON: positional from `0.00001` to below `10 ^ 16`, always with a point or an
exponent, and nothing for what is not a finite number. -/
def layout : Layout where
  positional := some (-5, 15)
  pointZero := true
  plus := true
  nan := "null"
  infinity := "null"
  negativeInfinity := "null"

/-- An integer. -/
def integerChars (n : Int) : List Char :=
  Binary64.sign (n < 0) ++ Decimal.digitChars n.natAbs

/-- A number. -/
def Number.chars : Number → List Char
  | integer n => integerChars n
  | double x => Binary64.renderChars x layout

/-- A hexadecimal digit. -/
def hexDigit (n : Nat) : Char := if n < 10 then Char.ofNat (48 + n) else Char.ofNat (87 + n)

/-- A character inside quotes. -/
def escape (c : Char) : List Char :=
  if c = '"' then ['\\', '"']
  else if c = '\\' then ['\\', '\\']
  else if c = '\n' then ['\\', 'n']
  else if c = '\r' then ['\\', 'r']
  else if c = '\t' then ['\\', 't']
  else if c = '\x08' then ['\\', 'b']
  else if c = '\x0c' then ['\\', 'f']
  else if c.toNat < 0x20 then
    ['\\', 'u', '0', '0', hexDigit (c.toNat / 16), hexDigit (c.toNat % 16)]
  else [c]

/-- A text in quotes. -/
def quoted (s : String) : List Char := '"' :: (s.toList.flatMap escape ++ ['"'])

mutual

/-- The characters of a value. -/
def chars : Json Number → List Char
  | null => ['n', 'u', 'l', 'l']
  | bool true => ['t', 'r', 'u', 'e']
  | bool false => ['f', 'a', 'l', 's', 'e']
  | number n => n.chars
  | string s => quoted s
  | array [] => ['[', ']']
  | array (v :: rest) => '[' :: (v.chars ++ elementChars rest)
  | object [] => ['\x7b', '\x7d']
  | object ((k, v) :: rest) => '\x7b' :: (quoted k ++ ':' :: (v.chars ++ memberChars rest))

/-- The characters of further elements and the closing bracket. -/
def elementChars : List (Json Number) → List Char
  | [] => [']']
  | v :: rest => ',' :: (v.chars ++ elementChars rest)

/-- The characters of further members and the closing brace. -/
def memberChars : List (String × Json Number) → List Char
  | [] => ['\x7d']
  | (k, v) :: rest => ',' :: (quoted k ++ ':' :: (v.chars ++ memberChars rest))

end

/-- A value as text. -/
def render (v : Json Number) : String := String.ofList v.chars

end StagedLoad.Json
