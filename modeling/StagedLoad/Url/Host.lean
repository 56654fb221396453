import StagedLoad.Decimal.Shortest
import StagedLoad.Url.Percent
import StagedLoad.Url.Punycode

/-!
# Hosts

The host of a URL is an IPv4 or IPv6 address, a domain, or a text that only its scheme
understands.  A domain whose last label is a number has to be an IPv4 address.

ASCII letters of domains are lowered; labels with characters beyond ASCII are written in
ASCII.

## Main definitions

* `Host` — hosts.
* `Host.ofChars?` — reading a host.
* `Host.chars` — writing it.
-/

namespace StagedLoad

/-- The host of a URL. -/
inductive Host
  /-- The name of a host. -/
  | domain (name : List Char)
  /-- An IPv4 address as a number of 32 bits. -/
  | ipv4 (address : Nat)
  /-- An IPv6 address as eight words of 16 bits. -/
  | ipv6 (words : List Nat)
  /-- A text for the scheme to understand. -/
  | other (text : List Char)
  deriving DecidableEq, Repr, Inhabited

namespace Host

/-- Splits a text at every occurrence of a character. -/
def splitAt (sep : Char) : List Char → List (List Char)
  | [] => [[]]
  | c :: rest =>
    if c = sep then [] :: splitAt sep rest
    else match splitAt sep rest with
      | [] => [[c]]
      | s :: more => (c :: s) :: more

/-! ### Numbers -/

/-- The value of a digit in a base up to 16. -/
def digit? (base : Nat) (c : Char) : Option Nat :=
  match (if c.toNat < 128 then Percent.hexValue? c.val.toUInt8 else none) with
  | some n => if n < base then some n else none
  | none => none

/-- The number that digits in a base are written for; no digits are zero. -/
def number? (base : Nat) (cs : List Char) : Option Nat :=
  cs.foldlM (fun acc c => (digit? base c).map (acc * base + ·)) 0

/-- A label of an IPv4 address: decimal, octal after `0`, hexadecimal after `0x`. -/
def label? : List Char → Option Nat
  | [] => none
  | ['0'] => some 0
  | '0' :: 'x' :: ds => number? 16 ds
  | '0' :: 'X' :: ds => number? 16 ds
  | '0' :: ds => number? 8 ds
  | ds => number? 10 ds

/-! ### IPv4 -/

/-- The labels of a domain, without the empty one after a last point. -/
def labels (cs : List Char) : List (List Char) :=
  match (splitAt '.' cs).reverse with
  | [] :: p :: rest => (p :: rest).reverse
  | ps => ps.reverse

/-- Whether the last label of a domain is a number. -/
def endsInNumber (cs : List Char) : Bool :=
  match (labels cs).getLast? with
  | none => false
  | some l => (!l.isEmpty && l.all Char.isDigit) ||
      (match l with
        | '0' :: 'x' :: ds => (number? 16 ds).isSome
        | '0' :: 'X' :: ds => (number? 16 ds).isSome
        | _ => false)

/-- The address of up to four numbers, of which the last one fills what the others leave. -/
def ipv4OfNumbers? (ns : List Nat) : Option Nat :=
  match ns.reverse with
  | [] => none
  | last :: firsts =>
    if firsts.length > 3 ∨ firsts.any (· > 255) ∨ Nat.pow 256 (4 - firsts.length) ≤ last then none
    else some (firsts.reverse.zipIdx.foldl (fun acc (n, i) => acc + n * Nat.pow 256 (3 - i)) last)

/-- The IPv4 address of a text. -/
def ipv4? (cs : List Char) : Option Nat := ((labels cs).mapM label?).bind ipv4OfNumbers?

/-! ### IPv6 -/

/-- One to four hexadecimal digits. -/
def word? (cs : List Char) : Option Nat :=
  if cs.isEmpty ∨ 4 < cs.length then none else number? 16 cs

/-- A byte in decimal without leading zeros. -/
def byte? (cs : List Char) : Option Nat :=
  match cs with
  | [] => none
  | '0' :: _ :: _ => none
  | _ => (number? 10 cs).bind fun n => if n < 256 then some n else none

/-- The two words of an IPv4 address at the end of an IPv6 address. -/
def dotted? (cs : List Char) : Option (List Nat) :=
  match (splitAt '.' cs).mapM byte? with
  | some [a, b, c, d] => some [a * 256 + b, c * 256 + d]
  | _ => none

/-- The words between colons; the last piece may be an IPv4 address. -/
def words? : List (List Char) → Option (List Nat)
  | [] => some []
  | [p] => if p.contains '.' then dotted? p else (word? p).map fun w => [w]
  | p :: rest => do
    let w ← word? p
    let ws ← words? rest
    return w :: ws

/-- The words of a part of an address; an empty part has none. -/
def part? (cs : List Char) : Option (List Nat) :=
  if cs.isEmpty then some [] else words? (splitAt ':' cs)

/-- Splits a text at its first double colon. -/
def splitGap : List Char → Option (List Char × List Char)
  | ':' :: ':' :: rest => some ([], rest)
  | c :: rest => (splitGap rest).map fun (l, r) => (c :: l, r)
  | [] => none

/-- The IPv6 address of a text: eight words, or fewer with a gap. -/
def ipv6? (cs : List Char) : Option (List Nat) :=
  match splitGap cs with
  | none => (part? cs).bind fun ws => if ws.length = 8 then some ws else none
  | some (l, r) => do
    if l.contains '.' then failure
    let a ← part? l
    let b ← part? r
    if a.length + b.length ≤ 7 then
      return a ++ List.replicate (8 - a.length - b.length) 0 ++ b
    else failure

/-! ### Reading -/

/-- The characters that no host has. -/
def isForbidden (c : Char) : Bool :=
  ['\x00', '\t', '\n', '\r', ' ', '#', '/', ':', '<', '>', '?', '@', '[', '\\', ']', '^',
    '|'].contains c

/-- The characters that no domain has. -/
def isForbiddenInDomain (c : Char) : Bool :=
  isForbidden c || c.toNat < 0x20 || c == '%' || c.toNat == 0x7F

/-- A domain in lower case and in ASCII. -/
def normalize (name : List Char) : List Char :=
  ['.'].intercalate ((splitAt '.' (name.map Char.toLower)).map Punycode.label)

/-- The domain or address of a text in which bytes may be encoded. -/
def domain? (cs : List Char) : Option Host := do
  let decoded ← (Percent.decode (Bytes.ofString (String.ofList cs))).toString?
  let name := normalize decoded.toList
  if name.isEmpty || name.any isForbiddenInDomain then failure
  -- what looks like an address has to be one
  if endsInNumber name then (ipv4? name).map ipv4 else return domain name

/-- Reads a host.  Hosts of web URLs are domains or addresses. -/
def ofChars? (special : Bool) (cs : List Char) : Option Host :=
  match cs with
  | '[' :: rest =>
    match rest.getLast? with
    | some ']' => (ipv6? rest.dropLast).map ipv6
    | _ => none
  | _ =>
    if special then domain? cs
    else if cs.any isForbidden then none
    else some (other (Percent.encode Percent.controls cs))

/-! ### Writing -/

/-- A word in hexadecimal without leading zeros. -/
def hexChars (n : Nat) : List Char := Nat.toDigits 16 n

/-- The length of the run of zeros at the start. -/
def zeroRun (ws : List Nat) : Nat := (ws.takeWhile (· == 0)).length

/-- Where the first longest run of zeros starts, and its length. -/
def longestZeroRun (ws : List Nat) : Nat × Nat :=
  (List.range ws.length).foldl (fun best i =>
    let n := zeroRun (ws.drop i)
    if best.2 < n then (i, n) else best) (0, 0)

/-- Words with colons between them. -/
def colonChars (ws : List Nat) : List Char := [':'].intercalate (ws.map hexChars)

/-- An IPv6 address; the first longest run of at least two zeros is a double colon. -/
def ipv6Chars (ws : List Nat) : List Char :=
  let (start, n) := longestZeroRun ws
  if n < 2 then colonChars ws
  else colonChars (ws.take start) ++ [':', ':'] ++ colonChars (ws.drop (start + n))

/-- An IPv4 address. -/
def ipv4Chars (address : Nat) : List Char :=
  ['.'].intercalate ([3, 2, 1, 0].map fun i => Decimal.digitChars (address / Nat.pow 256 i % 256))

/-- Writes a host. -/
def chars : Host → List Char
  | domain name => name
  | ipv4 address => ipv4Chars address
  | ipv6 words => '[' :: (ipv6Chars words ++ [']'])
  | other text => text

end Host

end StagedLoad
