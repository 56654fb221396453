import StagedLoad.Url.Basic

/-!
# Reading URLs

A text is read on its own or against a base, from which it takes the parts that it does not
have.  Blanks and controls around it do not count, nor do tabs and line ends within.

What follows a number sign is the fragment, what follows a question mark before it the query,
and what comes before them is taken apart from the left: scheme, host, path.

## Main definitions

* `Url.parse?` — reads a text on its own.
* `Url.join?` — reads a text against a base.
-/

namespace StagedLoad.Url

/-! ### Cutting up a text -/

/-- The text that counts: no blanks and controls around it, no tabs and line ends. -/
def clean (cs : List Char) : List Char :=
  let blank (c : Char) : Bool := c.toNat ≤ 0x20
  let trimmed := ((cs.dropWhile blank).reverse.dropWhile blank).reverse
  trimmed.filter fun c => c != '\t' && c != '\n' && c != '\r'

/-- Splits a text in front of and behind the first occurrence of a character. -/
def splitFirst (sep : Char) (cs : List Char) : List Char × Option (List Char) :=
  match cs.dropWhile (· != sep) with
  | [] => (cs, none)
  | _ :: rest => (cs.takeWhile (· != sep), some rest)

/-- Splits a text in front of and behind the last occurrence of a character. -/
def splitLast (sep : Char) (cs : List Char) : Option (List Char × List Char) :=
  match cs.reverse.dropWhile (· != sep) with
  | [] => none
  | _ :: front => some (front.reverse, (cs.reverse.takeWhile (· != sep)).reverse)

/-- The characters of a scheme behind the first one. -/
def isSchemeChar (c : Char) : Bool := c.isAlphanum || c == '+' || c == '-' || c == '.'

/-- Splits the scheme off a text, if it has one. -/
def scheme? (cs : List Char) : Option (List Char × List Char) :=
  match cs with
  | [] => none
  | c :: _ =>
    if c.isAlpha then
      match cs.dropWhile isSchemeChar with
      | ':' :: rest => some ((cs.takeWhile isSchemeChar).map Char.toLower, rest)
      | _ => none
    else none

/-- Whether a character separates segments: a slash, and for special schemes a backslash. -/
def isSlash (special : Bool) (c : Char) : Bool := c == '/' || (special && c == '\\')

/-- Whether a text starts with two slashes. -/
def startsWithSlashes (special : Bool) : List Char → Bool
  | a :: b :: _ => isSlash special a && isSlash special b
  | _ => false

/-! ### Hosts and ports -/

/-- A port: digits for a number of 16 bits.  The usual port of the scheme is left out, as
is an empty one. -/
def port? (scheme : List Char) (ds : List Char) : Option (Option Nat) :=
  if ds.isEmpty then some none
  else if !ds.all Char.isDigit then none
  else
    let n := ds.foldl (fun acc c => acc * 10 + (c.toNat - 48)) 0
    if 65535 < n then none
    else if usualPort? scheme = some n then some none
    else some (some n)

/-- Splits a host and its port at the first colon outside brackets. -/
def splitPort (inside : Bool) : List Char → List Char × Option (List Char)
  | [] => ([], none)
  | c :: rest =>
    if c = ':' ∧ !inside then ([], some rest)
    else
      let inside := if c = '[' then true else if c = ']' then false else inside
      let (host, port) := splitPort inside rest
      (c :: host, port)

/-- Puts what stands between the slashes and the path into a URL. -/
def withAuthority? (u : Url) (cs : List Char) : Option Url := do
  let special := isSpecialScheme u.scheme
  let (info, hostPort) := match splitLast '@' cs with
    | some (info, rest) => (some info, rest)
    | none => (none, cs)
  let (host, portText) := splitPort false hostPort
  let port ← port? u.scheme (portText.getD [])
  if host.isEmpty ∧ (special ∨ info.isSome ∨ portText.isSome) then failure
  let host ← if host.isEmpty then pure (Host.other []) else Host.ofChars? special host
  let (user, password) := splitFirst ':' (info.getD [])
  return { u with
    user := Percent.encode Percent.userinfoSet user
    password := Percent.encode Percent.userinfoSet (password.getD [])
    host := some host
    port }

/-! ### Paths -/

/-- Whether a segment stands for the place where it is. -/
def isHere (s : List Char) : Bool :=
  let l := s.map Char.toLower
  l == ['.'] || l == ['%', '2', 'e']

/-- Whether a segment stands for the place above. -/
def isAbove (s : List Char) : Bool :=
  let l := s.map Char.toLower
  [['.', '.'], ['.', '%', '2', 'e'], ['%', '2', 'e', '.'],
    ['%', '2', 'e', '%', '2', 'e']].contains l

/-- Splits a path into segments. -/
def splitSegments (special : Bool) : List Char → List (List Char)
  | [] => [[]]
  | c :: rest =>
    if isSlash special c then [] :: splitSegments special rest
    else match splitSegments special rest with
      | [] => [[c]]
      | s :: more => (c :: s) :: more

/-- Walks segments from a path.  The last segment ends the path: if it stands for a place, an
empty segment follows. -/
def walk (path : List (List Char)) : List (List Char) → List (List Char)
  | [] => path
  | [s] =>
    if isAbove s then path.dropLast ++ [[]]
    else if isHere s then path ++ [[]]
    else path ++ [Percent.encode Percent.pathSet s]
  | s :: rest =>
    if isAbove s then walk path.dropLast rest
    else if isHere s then walk path rest
    else walk (path ++ [Percent.encode Percent.pathSet s]) rest

/-- Walks a text from a path; a slash at its start is no segment. -/
def walkText (special : Bool) (path : List (List Char)) (cs : List Char) :
    List (List Char) :=
  match cs with
  | [] => if special then walk path [[]] else path
  | c :: rest =>
    if isSlash special c then walk path (splitSegments special rest)
    else walk path (splitSegments special cs)

/-- The segments of a path. -/
def Path.toSegments : Path → List (List Char)
  | .segments l => l
  | .other _ => []

/-! ### Whole texts -/

/-- A text without scheme, fragment and query, and these two. -/
structure Parts where
  /-- What the host and the path are read from. -/
  body : List Char
  /-- The query. -/
  query : Option (List Char)
  /-- The fragment. -/
  fragment : Option (List Char)

/-- Cuts the fragment and the query off a text. -/
def Parts.ofChars (cs : List Char) : Parts :=
  let (front, fragment) := splitFirst '#' cs
  let (body, query) := splitFirst '?' front
  ⟨body, query, fragment⟩

/-- Puts a query and a fragment into a URL. -/
def withTail (u : Url) (p : Parts) : Url :=
  let set := if isSpecialScheme u.scheme then Percent.specialQuerySet else Percent.querySet
  { u with
    query := p.query.map (Percent.encode set)
    fragment := p.fragment.map (Percent.encode Percent.fragmentSet) }

/-- Puts a host and a path into a URL, from a text behind the slashes of the host. -/
def withHostAndPath? (u : Url) (cs : List Char) : Option Url := do
  let special := isSpecialScheme u.scheme
  let authority := cs.takeWhile fun c => !isSlash special c
  let rest := cs.dropWhile fun c => !isSlash special c
  let u ← u.withAuthority? authority
  return { u with path := .segments (walkText special [] rest) }

/-- Drops all slashes at the start. -/
def skipSlashes (cs : List Char) : List Char := cs.dropWhile (isSlash true)

/-- Reads the URL of a file: the host is optional and has no port. -/
def file? (base : Option Url) (cs : List Char) : Option Url := do
  let u : Url := { scheme := fileScheme, host := some (.other []) }
  if startsWithSlashes true cs then
    let rest := cs.drop 2
    let authority := rest.takeWhile fun c => !isSlash true c
    let tail := rest.dropWhile fun c => !isSlash true c
    let host ← if authority.isEmpty then pure (Host.other []) else Host.ofChars? true authority
    return { u with host := some host, path := .segments (walkText true [] tail) }
  else
    let start := match base, cs with
      | some b, c :: _ =>
        if isSlash true c ∨ b.scheme ≠ fileScheme then [] else b.path.toSegments.dropLast
      | _, _ => []
    return { u with path := .segments (walkText true start cs) }

/-- Reads what follows a scheme. -/
def absolute? (scheme : List Char) (p : Parts) : Option Url := do
  if scheme = fileScheme then
    let u ← file? none p.body
    return u.withTail p
  else if isSpecialScheme scheme then
    let u ← withHostAndPath? { scheme } (skipSlashes p.body)
    return u.withTail p
  else if startsWithSlashes false p.body then
    let u ← withHostAndPath? { scheme } (p.body.drop 2)
    return u.withTail p
  else
    let path := match p.body with
      | '/' :: _ => Path.segments (walkText false [] p.body)
      | other => Path.other (Percent.encode Percent.controls other)
    return { scheme, path : Url }.withTail p

/-- Reads a text without a scheme of its own against a base. -/
def relative? (base : Url) (p : Parts) : Option Url := do
  let special := isSpecialScheme base.scheme
  let bare : Url := { scheme := base.scheme }
  let here : Url := { base with query := none, fragment := none }
  if startsWithSlashes special p.body then
    let rest := p.body.drop 2
    let u ← bare.withHostAndPath? (if special then skipSlashes rest else rest)
    return u.withTail p
  else
    match p.body with
    | [] =>
      let u := here.withTail p
      return if p.query.isSome then u else { u with query := base.query }
    | c :: _ =>
      let start := if isSlash special c then [] else base.path.toSegments.dropLast
      return { here with path := .segments (walkText special start p.body) }.withTail p

/-- Reads a text against a base, if there is one. -/
def read? (base : Option Url) (cs : List Char) : Option Url := do
  let text := clean cs
  match scheme? text, base with
  | some (scheme, rest), some b =>
    let p := Parts.ofChars rest
    -- a scheme that is the base's own one adds nothing, unless a host follows it
    if scheme = b.scheme ∧ isSpecialScheme scheme ∧ scheme ≠ fileScheme ∧
        !startsWithSlashes true p.body then relative? b p
    else absolute? scheme p
  | some (scheme, rest), none => absolute? scheme (Parts.ofChars rest)
  | none, none => none
  | none, some b =>
    let p := Parts.ofChars text
    match b.path with
    -- on a path that is no list of segments only a fragment can be read
    | .other _ =>
      if p.body.isEmpty ∧ p.query.isNone ∧ p.fragment.isSome then
        return { b with fragment := p.fragment.map (Percent.encode Percent.fragmentSet) }
      else none
    | .segments _ =>
      if b.scheme = fileScheme then do
        let u ← file? base p.body
        return u.withTail p
      else relative? b p

/-- Reads a text on its own. -/
def parse? (s : String) : Option Url := read? none s.toList

/-- Reads a text against a base. -/
def join? (base : Url) (s : String) : Option Url := read? (some base) s.toList

end StagedLoad.Url
