import StagedLoad.Proofs.Url.Host

/-!
# What is read is well-formed

A web URL that is read, on its own or against another one, has a host, a path of segments, and
none of the characters that have to be encoded in its parts.

## Main definitions

* `Url.IsScheme` — the schemes that are read.
* `Url.WellFormed` — the web URLs that are read.

## Main results

* `Url.wellFormed_of_parse?` — every web URL that is read on its own is well-formed.
* `Url.join?_cases` — what is read against a web URL is a well-formed one, or one with a scheme
  of its own.
-/

namespace StagedLoad.Url

/-! ### Schemes -/

/-- A scheme as it is read: a letter with letters, digits and a few other characters behind it,
in lower case. -/
structure IsScheme (s : List Char) : Prop where
  /-- It starts with a letter. -/
  head : ∃ c cs, s = c :: cs ∧ c.isAlpha = true
  /-- It has characters of schemes only. -/
  chars : ∀ c ∈ s, isSchemeChar c = true
  /-- It is in lower case. -/
  lower : ∀ c ∈ s, c.toLower = c

/-- The two schemes of the web. -/
def IsWebScheme (s : List Char) : Prop := s = ['h', 't', 't', 'p'] ∨ s = ['h', 't', 't', 'p', 's']

theorem isWeb_iff {u : Url} : u.isWeb = true ↔ IsWebScheme u.scheme := by
  rw [isWeb, Bool.or_eq_true, beq_iff_eq, beq_iff_eq]
  rfl

namespace IsWebScheme

variable {s : List Char}

theorem isScheme (hs : IsWebScheme s) : IsScheme s := by
  rcases hs with rfl | rfl <;> exact ⟨⟨_, _, rfl, by decide⟩, Bytes.forall_mem_of_all (by decide),
    Bytes.forall_mem_of_all (by decide)⟩

theorem isSpecial (hs : IsWebScheme s) : isSpecialScheme s = true := by
  rcases hs with rfl | rfl <;> decide

theorem ne_file (hs : IsWebScheme s) : s ≠ fileScheme := by
  rcases hs with rfl | rfl <;> decide

end IsWebScheme

theorem isAlpha_toLower {c : Char} (h : c.isAlpha = true) : c.toLower.isAlpha = true := by
  by_cases hc : Bytes.Plain c
  · revert h
    exact Bytes.Plain.forall (p := fun c => c.isAlpha = true → c.toLower.isAlpha = true)
      (by decide) hc
  · rwa [toLower_of_not_plain hc]

theorem isSchemeChar_toLower {c : Char} (h : isSchemeChar c = true) :
    isSchemeChar c.toLower = true := by
  by_cases hc : Bytes.Plain c
  · revert h
    exact Bytes.Plain.forall (p := fun c => isSchemeChar c = true → isSchemeChar c.toLower = true)
      (by decide) hc
  · rwa [toLower_of_not_plain hc]

theorem isSchemeChar_of_isAlpha {c : Char} (h : c.isAlpha = true) : isSchemeChar c = true := by
  simp [isSchemeChar, Char.isAlphanum, h]

theorem isScheme_of_scheme? {cs s rest : List Char} (h : scheme? cs = some (s, rest)) :
    IsScheme s := by
  unfold scheme? at h
  split at h
  · cases h
  case h_2 c cs =>
    split at h
    case isFalse => cases h
    case isTrue halpha =>
      split at h
      · cases h
        refine ⟨?_, ?_, ?_⟩
        · rw [List.takeWhile_cons_of_pos (isSchemeChar_of_isAlpha halpha), List.map_cons]
          exact ⟨_, _, rfl, isAlpha_toLower halpha⟩
        · intro d hd
          obtain ⟨e, he, rfl⟩ := List.mem_map.mp hd
          exact isSchemeChar_toLower (List.all_eq_true.mp List.all_takeWhile e he)
        · intro d hd
          obtain ⟨e, -, rfl⟩ := List.mem_map.mp hd
          exact toLower_toLower e
      · cases h

/-! ### Parts of web URLs -/

/-- A path of segments in which nothing has to be encoded. -/
def Segments (l : List (List Char)) : Prop := ∀ s ∈ l, ∀ c ∈ s, Percent.pathSet c = false

/-- A web URL as it is read. -/
structure WellFormed (u : Url) : Prop where
  /-- It is one of the web. -/
  scheme : IsWebScheme u.scheme
  /-- It has a host. -/
  host : ∃ h, u.host = some h ∧ h.WellFormed
  /-- The name of the user is encoded. -/
  user : ∀ c ∈ u.user, Percent.userinfoSet c = false
  /-- The password is encoded. -/
  password : ∀ c ∈ u.password, Percent.userinfoSet c = false
  /-- The port has 16 bits. -/
  port : ∀ p, u.port = some p → p ≤ 65535
  /-- The path is one of segments, and encoded. -/
  path : ∃ l, u.path = .segments l ∧ Segments l
  /-- The query is encoded. -/
  query : ∀ q, u.query = some q → ∀ c ∈ q, Percent.specialQuerySet c = false
  /-- The fragment is encoded. -/
  fragment : ∀ f, u.fragment = some f → ∀ c ∈ f, Percent.fragmentSet c = false

theorem Segments.dropLast {l : List (List Char)} (hl : Segments l) : Segments l.dropLast :=
  fun s hs => hl s (List.dropLast_subset l hs)

theorem Segments.concat {l : List (List Char)} (hl : Segments l) {s : List Char}
    (hs : ∀ c ∈ s, Percent.pathSet c = false) : Segments (l ++ [s]) :=
  List.forall_mem_append.mpr ⟨hl, List.forall_mem_singleton.mpr hs⟩

theorem Segments.walk {path : List (List Char)} (hpath : Segments path)
    (segments : List (List Char)) : Segments (walk path segments) := by
  have hnil : ∀ c ∈ ([] : List Char), Percent.pathSet c = false := List.forall_mem_nil _
  have hencode := Percent.escapable_pathSet.encode_clear
  fun_induction Url.walk path segments with
  | case1 => exact hpath
  | case2 path s => exact hpath.dropLast.concat hnil
  | case3 path s => exact hpath.concat hnil
  | case4 path s => exact hpath.concat (hencode s)
  | case5 path s rest _ _ ih => exact ih hpath.dropLast
  | case6 path s rest _ _ _ ih => exact ih hpath
  | case7 path s rest _ _ _ ih => exact ih (hpath.concat (hencode s))

theorem Segments.walkText {path : List (List Char)} (hpath : Segments path) (special : Bool)
    (cs : List Char) : Segments (walkText special path cs) := by
  unfold Url.walkText
  split
  · split
    · exact hpath.walk _
    · exact hpath
  · split
    · exact hpath.walk _
    · exact hpath.walk _

/-! ### Reading -/

section Read

variable {u v : Url}

theorem le_of_port? {scheme ds : List Char} {p : Nat} (h : port? scheme ds = some (some p)) :
    p ≤ 65535 := by
  unfold port? at h
  dsimp only at h
  split at h
  · cases h
  split at h
  · cases h
  split at h
  · cases h
  split at h
  · cases h
  · cases h
    omega

/-- A name with a password, if there is one, and what stands behind it. -/
def cutInfo (cs : List Char) : Option (List Char) × List Char :=
  match splitLast '@' cs with
  | some (info, rest) => (some info, rest)
  | none => (none, cs)

/-- The host of a text; only an empty text has none. -/
def hostOf? (special : Bool) (text : List Char) : Option Host :=
  if text.isEmpty then some (.other []) else Host.ofChars? special text

/-- What stands between the slashes and the path, part by part. -/
theorem withAuthority?_eq (u : Url) (cs : List Char) :
    withAuthority? u cs =
      (port? u.scheme ((splitPort false (cutInfo cs).2).2.getD [])).bind fun port =>
        if (splitPort false (cutInfo cs).2).1.isEmpty ∧ (isSpecialScheme u.scheme ∨
            (cutInfo cs).1.isSome ∨ (splitPort false (cutInfo cs).2).2.isSome) then none
        else
          (hostOf? (isSpecialScheme u.scheme) (splitPort false (cutInfo cs).2).1).map fun host =>
            { u with
              user := Percent.encode Percent.userinfoSet
                (splitFirst ':' ((cutInfo cs).1.getD [])).1
              password := Percent.encode Percent.userinfoSet
                ((splitFirst ':' ((cutInfo cs).1.getD [])).2.getD [])
              host := some host
              port } := by
  unfold withAuthority? hostOf? cutInfo
  rcases splitLast '@' cs with _ | ⟨info, rest⟩
  all_goals
    dsimp only
    refine congrArg (Option.bind _) (funext fun port => ?_)
    split
    · rfl
    split
    · rfl
    · cases Host.ofChars? (isSpecialScheme u.scheme) _ <;> rfl

/-- What a URL with a host takes from a text. -/
theorem exists_of_withAuthority? {cs : List Char} (h : withAuthority? u cs = some v) :
    ∃ user password text ds host port,
      (isSpecialScheme u.scheme = true → Host.ofChars? true text = some host) ∧
      port? u.scheme ds = some port ∧
      v = { u with
        user := Percent.encode Percent.userinfoSet user
        password := Percent.encode Percent.userinfoSet password
        host := some host
        port } := by
  rw [withAuthority?_eq] at h
  obtain ⟨port, hport, h⟩ := Option.bind_eq_some_iff.mp h
  split at h
  · cases h
  case isFalse hempty =>
    obtain ⟨host, hhost, rfl⟩ := Option.map_eq_some_iff.mp h
    refine ⟨_, _, (splitPort false (cutInfo cs).2).1, _, host, port, fun hspecial => ?_, hport, rfl⟩
    rw [hspecial] at hempty hhost
    unfold hostOf? at hhost
    rwa [if_neg fun htext => hempty ⟨htext, .inl rfl⟩] at hhost

/-- A URL with its host, and a path put behind it. -/
theorem WellFormed.of_authority? {scheme cs : List Char} (hscheme : IsWebScheme scheme)
    (h : withAuthority? { scheme } cs = some u) {l : List (List Char)} (hl : Segments l) :
    WellFormed { u with path := .segments l } := by
  obtain ⟨user, password, text, ds, host, port, hhost, hport, rfl⟩ :=
    exists_of_withAuthority? h
  have hencode := Percent.escapable_userinfoSet.encode_clear
  have hwell := Host.wellFormed_of_ofChars? (hhost hscheme.isSpecial)
  refine ⟨hscheme, ⟨host, rfl, hwell⟩, hencode user, hencode password, ?_, ⟨l, rfl, hl⟩, ?_, ?_⟩
  · intro p hp
    cases hp
    exact le_of_port? hport
  · exact fun q hq => nomatch hq
  · exact fun f hf => nomatch hf

theorem WellFormed.of_hostAndPath? {scheme cs : List Char} (hscheme : IsWebScheme scheme)
    (h : withHostAndPath? { scheme } cs = some u) : u.WellFormed := by
  obtain ⟨v, hv, h⟩ := Option.bind_eq_some_iff.mp h
  cases h
  have hnil : Segments [] := List.forall_mem_nil _
  exact .of_authority? hscheme hv (hnil.walkText _ _)

theorem WellFormed.withTail (hu : u.WellFormed) (p : Parts) : (u.withTail p).WellFormed := by
  have hspecial := hu.scheme.isSpecial
  have hset : (if isSpecialScheme u.scheme then Percent.specialQuerySet else Percent.querySet) =
      Percent.specialQuerySet := if_pos hspecial
  refine { hu with query := ?_, fragment := ?_ }
  · intro q hq
    unfold Url.withTail at hq
    rw [hset] at hq
    obtain ⟨q, -, rfl⟩ := Option.map_eq_some_iff.mp hq
    exact Percent.escapable_specialQuerySet.encode_clear q
  · intro f hf
    obtain ⟨f, -, rfl⟩ := Option.map_eq_some_iff.mp hf
    exact Percent.escapable_fragmentSet.encode_clear f

/-! The scheme of a URL is never changed. -/

theorem scheme_of_withHostAndPath? {cs : List Char} (h : withHostAndPath? u cs = some v) :
    v.scheme = u.scheme := by
  obtain ⟨w, hw, h⟩ := Option.bind_eq_some_iff.mp h
  obtain ⟨user, password, text, ds, host, port, -, -, rfl⟩ := exists_of_withAuthority? hw
  cases h
  rfl

theorem scheme_of_file? {base : Option Url} {cs : List Char} (h : file? base cs = some u) :
    u.scheme = fileScheme := by
  unfold file? at h
  dsimp only at h
  split at h
  · split at h
    · cases h
      rfl
    · obtain ⟨host, -, h⟩ := Option.bind_eq_some_iff.mp h
      cases h
      rfl
  · cases h
    rfl

theorem scheme_of_absolute? {scheme : List Char} {p : Parts} (h : absolute? scheme p = some u) :
    u.scheme = scheme := by
  unfold absolute? at h
  split at h
  case isTrue hfile =>
    obtain ⟨v, hv, h⟩ := Option.bind_eq_some_iff.mp h
    cases h
    exact (scheme_of_file? hv).trans hfile.symm
  split at h
  · obtain ⟨v, hv, h⟩ := Option.bind_eq_some_iff.mp h
    cases h
    exact scheme_of_withHostAndPath? hv
  split at h
  · obtain ⟨v, hv, h⟩ := Option.bind_eq_some_iff.mp h
    cases h
    exact scheme_of_withHostAndPath? hv
  · cases h
    rfl

theorem WellFormed.of_absolute? {scheme : List Char} (hscheme : IsWebScheme scheme) {p : Parts}
    (h : absolute? scheme p = some u) : u.WellFormed := by
  unfold absolute? at h
  rw [if_neg hscheme.ne_file, if_pos hscheme.isSpecial] at h
  obtain ⟨v, hv, h⟩ := Option.bind_eq_some_iff.mp h
  cases h
  exact (WellFormed.of_hostAndPath? hscheme hv).withTail p

theorem WellFormed.of_relative? {base : Url} (hbase : base.WellFormed) {p : Parts}
    (h : relative? base p = some u) : u.WellFormed := by
  have hspecial := hbase.scheme.isSpecial
  obtain ⟨l, hpath, hl⟩ := hbase.path
  have hhere : WellFormed { base with query := none, fragment := none } :=
    ⟨hbase.scheme, hbase.host, hbase.user, hbase.password, hbase.port, hbase.path,
      (fun q hq => nomatch hq), (fun f hf => nomatch hf)⟩
  unfold relative? at h
  rw [hspecial] at h
  dsimp only at h
  split at h
  · obtain ⟨v, hv, h⟩ := Option.bind_eq_some_iff.mp h
    cases h
    exact (WellFormed.of_hostAndPath? hbase.scheme hv).withTail p
  split at h
  · cases h
    have htail := hhere.withTail p
    split
    · exact htail
    · exact ⟨htail.scheme, htail.host, htail.user, htail.password, htail.port, htail.path,
        hbase.query, htail.fragment⟩
  case h_2 c cs hbody =>
    cases h
    have hstart : Segments (if isSlash true c then [] else base.path.toSegments.dropLast) := by
      split
      · exact List.forall_mem_nil _
      · rw [hpath]
        exact hl.dropLast
    generalize (if isSlash true c then [] else base.path.toSegments.dropLast) = start at hstart ⊢
    have hmoved : WellFormed { base with
        query := none, fragment := none, path := .segments (walkText true start p.body) } :=
      ⟨hhere.scheme, hhere.host, hhere.user, hhere.password, hhere.port,
        ⟨_, rfl, hstart.walkText true p.body⟩, hhere.query, hhere.fragment⟩
    exact hmoved.withTail p

theorem parse?_eq (s : String) : parse? s =
    (scheme? (clean s.toList)).bind fun p => absolute? p.1 (Parts.ofChars p.2) := by
  unfold parse? read?
  dsimp only
  cases scheme? (clean s.toList) <;> rfl

/-- Every web URL that is read on its own is well-formed. -/
theorem wellFormed_of_parse? {s : String} (h : parse? s = some u) (hweb : u.isWeb = true) :
    u.WellFormed := by
  rw [parse?_eq] at h
  obtain ⟨⟨scheme, rest⟩, -, h⟩ := Option.bind_eq_some_iff.mp h
  rw [isWeb_iff, scheme_of_absolute? h] at hweb
  exact .of_absolute? hweb h

/-- What is read with a scheme of its own is a well-formed web URL, or none of the web. -/
theorem wellFormed_or_of_absolute? {cs scheme rest : List Char}
    (hscheme : scheme? cs = some (scheme, rest)) {p : Parts} (h : absolute? scheme p = some u) :
    u.WellFormed ∨ IsScheme u.scheme ∧ u.isWeb = false := by
  by_cases hweb : u.isWeb = true
  · rw [isWeb_iff, scheme_of_absolute? h] at hweb
    exact .inl (.of_absolute? hweb h)
  · refine .inr ⟨?_, eq_false_of_ne_true hweb⟩
    rw [scheme_of_absolute? h]
    exact isScheme_of_scheme? hscheme

/-- What is read against a web URL is a well-formed one, or one with a scheme of its own. -/
theorem join?_cases {base : Url} (hbase : base.WellFormed) {s : String}
    (h : base.join? s = some u) : u.WellFormed ∨ IsScheme u.scheme ∧ u.isWeb = false := by
  unfold join? read? at h
  dsimp only at h
  cases hscheme : scheme? (clean s.toList) with
  | some p =>
    rw [hscheme] at h
    dsimp only at h
    split at h
    · exact .inl (hbase.of_relative? h)
    · exact wellFormed_or_of_absolute? hscheme h
  | none =>
    obtain ⟨l, hpath, -⟩ := hbase.path
    rw [hscheme] at h
    dsimp only at h
    rw [hpath] at h
    dsimp only at h
    rw [if_neg hbase.scheme.ne_file] at h
    exact .inl (hbase.of_relative? h)

end Read

end StagedLoad.Url
