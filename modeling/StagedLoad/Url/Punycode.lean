/-!
# Labels in ASCII

A label with characters beyond ASCII is written as its ASCII characters, a dash, and digits
of base 36 that tell where the other characters stand.  They are told in ascending order,
each by how many pairs of a character and a place lie between it and the one before.  The
digits of a number end at the first one below a threshold, and the thresholds follow the
size of the numbers so far.

## Main definitions

* `Punycode.digits` — a number with thresholds that depend on a bias.
* `Punycode.adapt` — the bias after a number.
* `Punycode.encode` — a label.
* `Punycode.label` — a label as it stands in a host.
-/

namespace StagedLoad.Punycode

/-- The number of digits. -/
def base : Nat := 36

/-- The threshold of the digit at a position, which counts in steps of the base. -/
def threshold (bias position : Nat) : Nat := max 1 (min 26 (position - bias))

theorem threshold_pos (bias position : Nat) : 0 < threshold bias position := by
  unfold threshold
  omega

theorem threshold_le (bias position : Nat) : threshold bias position ≤ 26 := by
  unfold threshold
  omega

/-- A digit: letters, then the decimal digits. -/
def digitChar (d : Nat) : Char := if d < 26 then Char.ofNat (97 + d) else Char.ofNat (22 + d)

/-- The digits of a number from a position on, the least one first. -/
def digits (bias position n : Nat) : List Char :=
  let t := threshold bias position
  if n < t then [digitChar n]
  else digitChar (t + (n - t) % (base - t)) :: digits bias (position + base) ((n - t) / (base - t))
  termination_by n
  decreasing_by
    have ht := threshold_pos bias position
    have hle := Nat.div_le_self (n - threshold bias position) (base - threshold bias position)
    omega

/-- Divides a number until it is small; the second part counts the divisions in steps of the
base. -/
def shrink (n steps : Nat) : Nat × Nat :=
  if 455 < n then shrink (n / 35) (steps + base) else (n, steps)
  termination_by n
  decreasing_by omega

/-- The bias after a number, once `count` characters are in place.  The first number is taken
for large. -/
def adapt (first : Bool) (n count : Nat) : Nat :=
  let n := if first then n / 700 else n / 2
  let (n, steps) := shrink (n + n / count) 0
  steps + base * n / (n + 38)

/-- What has been written of a label. -/
structure Progress where
  /-- The least character that may come next. -/
  next : Nat := 128
  /-- How many pairs have been passed since the last number. -/
  passed : Nat := 0
  /-- The bias of the next number. -/
  bias : Nat := 72
  /-- How many characters of the label are in place. -/
  placed : Nat
  /-- Whether no number has been written. -/
  first : Bool := true
  /-- What has been written. -/
  text : List Char

namespace Progress

/-- Passes a character of the label while the characters with the code `n` are told. -/
def pass (n : Nat) (p : Progress) (c : Char) : Progress :=
  if c.toNat < n then { p with passed := p.passed + 1 }
  else if c.toNat = n then
    { p with
      passed := 0
      bias := adapt p.first p.passed (p.placed + 1)
      placed := p.placed + 1
      first := false
      text := p.text ++ digits p.bias base p.passed }
  else p

/-- Tells where the characters with the code `n` stand in a label. -/
def tell (label : List Char) (p : Progress) (n : Nat) : Progress :=
  let start := { p with passed := p.passed + (n - p.next) * (p.placed + 1) }
  let p := label.foldl (pass n) start
  { p with next := n + 1, passed := p.passed + 1 }

end Progress

/-- Whether a character is one of ASCII. -/
def isBasic (c : Char) : Bool := c.toNat < 128

/-- The codes of the characters beyond ASCII in ascending order, each once. -/
def codes (label : List Char) : List Nat :=
  (((label.filter fun c => !isBasic c).map Char.toNat).mergeSort).eraseDups

/-- A label with its characters beyond ASCII told by digits. -/
def encode (label : List Char) : List Char :=
  let basic := label.filter isBasic
  let text := if basic.isEmpty then [] else basic ++ ['-']
  ((codes label).foldl (Progress.tell label) { placed := basic.length, text }).text

/-- A label as it stands in a host. -/
def label (cs : List Char) : List Char :=
  if cs.all isBasic then cs else ['x', 'n', '-', '-'] ++ encode cs

end StagedLoad.Punycode
