import StagedLoad.Url.Host

/-!
# URLs

A URL in parts, and the text that it is written as.

## Main definitions

* `Url` — the parts.
* `Url.Path` — a path of segments, or a text that only the scheme understands.
* `Url.chars`, `Url.render` — the text of a URL.
-/

namespace StagedLoad

/-- The path of a URL. -/
inductive Url.Path
  /-- Segments with slashes in front of them. -/
  | segments (l : List (List Char))
  /-- A text for the scheme to understand. -/
  | other (text : List Char)
  deriving DecidableEq, Repr, Inhabited

/-- A URL. -/
structure Url where
  /-- The scheme in lower case. -/
  scheme : List Char
  /-- The name of the user. -/
  user : List Char := []
  /-- The password of the user. -/
  password : List Char := []
  /-- The host. -/
  host : Option Host := none
  /-- The port, if it is not the usual one of the scheme. -/
  port : Option Nat := none
  /-- The path. -/
  path : Url.Path := .segments []
  /-- The query, without its question mark. -/
  query : Option (List Char) := none
  /-- The fragment, without its number sign. -/
  fragment : Option (List Char) := none
  deriving DecidableEq, Repr, Inhabited

namespace Url

/-- The schemes whose URLs have a host, and the usual port of each. -/
def specialSchemes : List (List Char × Option Nat) :=
  [(['h', 't', 't', 'p'], some 80), (['h', 't', 't', 'p', 's'], some 443),
    (['w', 's'], some 80), (['w', 's', 's'], some 443), (['f', 't', 'p'], some 21),
    (['f', 'i', 'l', 'e'], none)]

/-- Whether URLs of a scheme have a host. -/
def isSpecialScheme (scheme : List Char) : Bool := specialSchemes.any fun s => s.1 == scheme

/-- The usual port of a scheme. -/
def usualPort? (scheme : List Char) : Option Nat :=
  (specialSchemes.find? fun s => s.1 == scheme).bind Prod.snd

/-- The scheme of files. -/
def fileScheme : List Char := ['f', 'i', 'l', 'e']

/-- Whether requests can be sent to a URL. -/
def isWeb (u : Url) : Bool :=
  u.scheme == ['h', 't', 't', 'p'] || u.scheme == ['h', 't', 't', 'p', 's']

/-- The name and password in front of a host. -/
def credentialChars (u : Url) : List Char :=
  if u.user.isEmpty ∧ u.password.isEmpty then []
  else u.user ++ (if u.password.isEmpty then [] else ':' :: u.password) ++ ['@']

/-- The host, with what belongs to it. -/
def authorityChars (u : Url) : List Char :=
  match u.host with
  | none => []
  | some h => ['/', '/'] ++ u.credentialChars ++ h.chars ++
      (match u.port with
        | none => []
        | some p => ':' :: Decimal.digitChars p)

/-- The path; two slashes at its start are kept apart from those of a host. -/
def pathChars (u : Url) : List Char :=
  match u.path with
  | .other text => text
  | .segments l =>
    let text := l.flatMap fun s => '/' :: s
    match u.host, l with
    | none, [] :: _ :: _ => '/' :: '.' :: text
    | _, _ => text

/-- The characters of a URL. -/
def chars (u : Url) : List Char :=
  u.scheme ++ [':'] ++ u.authorityChars ++ u.pathChars ++
    (u.query.elim [] fun q => '?' :: q) ++ (u.fragment.elim [] fun f => '#' :: f)

/-- A URL as text. -/
def render (u : Url) : String := String.ofList u.chars

end Url

end StagedLoad
