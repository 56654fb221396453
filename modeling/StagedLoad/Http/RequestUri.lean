import StagedLoad.Text.Bytes

/-!
# Request URIs

What a connection accepts as the URI of a request is stricter about hosts and looser about
paths than what a URL may be.  A URI is a path, a host alone, or a scheme with a host and a
path behind it.

## Main definitions

* `RequestUri.authorityEnd?` — where the host ends, if it is one.
* `RequestUri.isPath` — which paths are accepted.
* `RequestUri.accepts` — which texts are accepted.
-/

namespace StagedLoad.RequestUri

/-- The characters of URIs. -/
def isUriChar (c : Char) : Bool :=
  c.isAlphanum || ['!', '#', '$', '&', '\'', '(', ')', '*', '+', ',', '-', '.', '/', ':', ';',
    '=', '?', '@', '[', ']', '_', '~'].contains c

/-- What has been seen of a host. -/
structure AuthorityScan where
  /-- How many colons, since the last bracket or name. -/
  colons : Nat := 0
  /-- Whether a bracket was opened. -/
  opened : Bool := false
  /-- Whether it was closed. -/
  closed : Bool := false
  /-- Whether there was a percent sign, since the last bracket or name. -/
  percent : Bool := false
  /-- Whether the last character was the one behind a name. -/
  endsInAt : Bool := false

/-- Whether what has been seen is a host. -/
def AuthorityScan.isComplete (s : AuthorityScan) : Bool :=
  s.opened == s.closed && s.colons ≤ 1 && !s.endsInAt && !s.percent

/-- The greatest number of colons in a host. -/
def greatestColons : Nat := 8

/-- Takes a character of a host into account. -/
def AuthorityScan.push? (s : AuthorityScan) (c : Char) : Option AuthorityScan :=
  let s := { s with endsInAt := false }
  if c = ':' then
    if greatestColons ≤ s.colons then none else some { s with colons := s.colons + 1 }
  else if c = '[' then
    if s.percent || s.opened then none else some { s with opened := true }
  else if c = ']' then
    if !s.opened || s.closed then none
    else some { s with closed := true, colons := 0, percent := false }
  else if c = '@' then some { s with colons := 0, percent := false, endsInAt := true }
  else if c = '%' then some { s with percent := true }
  else if isUriChar c then some s
  else none

/-- Whether a character ends a host. -/
def endsAuthority (c : Char) : Bool := c == '/' || c == '?' || c == '#'

/-- What follows the host at the start of a text, if it is one. -/
def afterAuthority? (s : AuthorityScan) : List Char → Option (List Char)
  | [] => if s.isComplete then some [] else none
  | c :: rest =>
    if endsAuthority c then (if s.isComplete then some (c :: rest) else none)
    else (s.push? c).bind fun s => afterAuthority? s rest

/-- The characters of paths; what is not ASCII is accepted. -/
def isPathChar (c : Char) : Bool :=
  let n := c.toNat
  0x7F ≤ n || (0x21 ≤ n && !(['#', '<', '>', '?', '\x60'].contains c))

/-- The characters of queries; what is not ASCII is accepted. -/
def isQueryChar (c : Char) : Bool :=
  let n := c.toNat
  0x7F ≤ n || (0x21 ≤ n && !(['"', '#', '<', '>'].contains c))

/-- Whether a text is a path with what may follow it. -/
def isPath (cs : List Char) : Bool :=
  let front := cs.takeWhile fun c => c != '?' && c != '#'
  let query := match cs.dropWhile fun c => c != '?' && c != '#' with
    | '?' :: rest => rest.takeWhile (· != '#')
    | _ => []
  front.all isPathChar && query.all isQueryChar

/-- The characters of schemes. -/
def isSchemeChar (c : Char) : Bool := c.isAlphanum || c == '+' || c == '-' || c == '.'

/-- The greatest length of a scheme. -/
def greatestScheme : Nat := 64

/-- What follows the scheme and its slashes, if a text has them. -/
def afterScheme? (cs : List Char) : Option (List Char) :=
  match cs.dropWhile isSchemeChar with
  | ':' :: '/' :: '/' :: rest => some rest
  | _ => none

/-- The greatest number of bytes in a URI. -/
def greatestLength : Nat := 65534

/-- Whether a text is accepted as the URI of a request. -/
def accepts (s : String) : Bool :=
  let cs := s.toList
  if greatestLength < s.utf8ByteSize then false
  else match cs with
    | [] => false
    | ['*'] => true
    | '/' :: _ => isPath cs
    | _ =>
      match afterScheme? cs with
      | some rest =>
        decide ((cs.takeWhile isSchemeChar).length ≤ greatestScheme) &&
          !(rest.head?.elim true endsAuthority) &&
          (afterAuthority? {} rest).any isPath
      -- without a scheme the whole text has to be a host
      | none => afterAuthority? {} cs == some []

end StagedLoad.RequestUri
