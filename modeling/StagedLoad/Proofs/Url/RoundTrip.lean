import StagedLoad.Proofs.Url.WellFormed

/-!
# URLs are read again

The text of a web URL is read as a web URL: what stands in front of the path is encoded such that
every separator is found again where it was written, and the host is read back.  The text of any
other URL, if it is read at all, is read with the scheme that it was written with.

## Main definitions

* `Url.authority`, `Url.tailChars` — parts of the text of a web URL.

## Main results

* `Url.WellFormed.chars_eq` — the text of a web URL, part by part.
* `Url.WellFormed.exists_parse?` — **web URLs are read again**.
* `Url.scheme_of_parse?_render` — **a scheme is never changed**.
-/

namespace StagedLoad.Url

/-! ### What does not count -/

theorem dropWhile_blank {cs : List Char} (hcs : ∀ c ∈ cs, 0x20 < c.toNat) :
    cs.dropWhile (fun c => decide (c.toNat ≤ 0x20)) = cs := by
  cases cs with
  | nil => rfl
  | cons c cs =>
    have hc := hcs c List.mem_cons_self
    exact List.dropWhile_cons_of_neg (by simpa using hc)

theorem filter_visible {cs : List Char} (hcs : ∀ c ∈ cs, 0x20 < c.toNat) :
    cs.filter (fun c => c != '\t' && c != '\n' && c != '\r') = cs := by
  rw [List.filter_eq_self]
  intro c hc
  have hvisible := hcs c hc
  have hne : c ≠ '\t' ∧ c ≠ '\n' ∧ c ≠ '\r' := by
    refine ⟨?_, ?_, ?_⟩ <;> (rintro rfl; exact absurd hvisible (by decide))
  simp [hne]

/-- Nothing is taken from a text of visible characters. -/
theorem clean_eq_self {cs : List Char} (hcs : ∀ c ∈ cs, 0x20 < c.toNat) : clean cs = cs := by
  have hreverse : ∀ c ∈ cs.reverse, 0x20 < c.toNat := fun c hc => hcs c (List.mem_reverse.mp hc)
  unfold clean
  dsimp only
  rw [dropWhile_blank hcs, dropWhile_blank hreverse, List.reverse_reverse, filter_visible hcs]

/-- Nothing is taken from visible characters at the start of a text. -/
theorem exists_clean_append {front : List Char} (hne : front ≠ [])
    (hfront : ∀ c ∈ front, 0x20 < c.toNat) (rest : List Char) :
    ∃ rest', clean (front ++ rest) = front ++ rest' := by
  have hreverse : ∀ c ∈ front.reverse, 0x20 < c.toNat :=
    fun c hc => hfront c (List.mem_reverse.mp hc)
  have hstart : (front ++ rest).dropWhile (fun c => decide (c.toNat ≤ 0x20)) = front ++ rest := by
    obtain ⟨c, cs, rfl⟩ := List.exists_cons_of_ne_nil hne
    have hc := hfront c List.mem_cons_self
    exact List.dropWhile_cons_of_neg (by simpa using hc)
  have hend : (rest.reverse ++ front.reverse).dropWhile (fun c => decide (c.toNat ≤ 0x20)) =
      rest.reverse.dropWhile (fun c => decide (c.toNat ≤ 0x20)) ++ front.reverse := by
    rw [List.dropWhile_append, dropWhile_blank hreverse]
    split
    case isTrue hempty => rw [List.isEmpty_iff.mp hempty, List.nil_append]
    case isFalse => rfl
  unfold clean
  dsimp only
  rw [hstart, List.reverse_append, hend, List.reverse_append, List.reverse_reverse,
    List.filter_append, filter_visible hfront]
  exact ⟨_, rfl⟩

/-! ### Where a text is cut -/

theorem scheme?_append {s : List Char} (hs : IsScheme s) (rest : List Char) :
    scheme? (s ++ ':' :: rest) = some (s, rest) := by
  obtain ⟨c, cs, hhead, halpha⟩ := hs.head
  have hdrop : (s ++ ':' :: rest).dropWhile isSchemeChar = ':' :: rest := by
    rw [List.dropWhile_append_of_pos hs.chars]
    exact List.dropWhile_cons_of_neg (by decide)
  have htake : (s ++ ':' :: rest).takeWhile isSchemeChar = s := by
    rw [List.takeWhile_append_of_pos hs.chars, List.takeWhile_cons_of_neg (by decide),
      List.append_nil]
  have hlower : s.map Char.toLower = s := (List.map_congr_left hs.lower).trans (List.map_id s)
  unfold scheme?
  rw [hdrop, htake, hlower]
  rw [hhead, List.cons_append]
  exact if_pos halpha

theorem splitFirst_fst (sep : Char) (cs : List Char) :
    (splitFirst sep cs).1 = cs.takeWhile (· != sep) := by
  have hsplit := List.takeWhile_append_dropWhile (p := (· != sep)) (l := cs)
  unfold splitFirst
  split
  case h_1 hnone =>
    rw [hnone, List.append_nil] at hsplit
    exact hsplit.symm
  case h_2 => rfl

/-- What a host and a path are read from ends at the query, or else at the fragment. -/
theorem body_append {front tail : List Char} (hfront : ∀ c ∈ front, c ≠ '#' ∧ c ≠ '?')
    (htail : ∀ c cs, tail = c :: cs → c = '#' ∨ c = '?') :
    (Parts.ofChars (front ++ tail)).body = front := by
  have hnumber : ∀ c ∈ front, (c != '#') = true := fun c hc => bne_iff_ne.mpr (hfront c hc).1
  have hquestion : ∀ c ∈ front, (c != '?') = true := fun c hc => bne_iff_ne.mpr (hfront c hc).2
  have hbody : (Parts.ofChars (front ++ tail)).body =
      (((front ++ tail).takeWhile (· != '#')).takeWhile (· != '?')) := by
    rw [← splitFirst_fst, ← splitFirst_fst]
    rfl
  rw [hbody, List.takeWhile_append_of_pos hnumber, List.takeWhile_append_of_pos hquestion]
  cases tail with
  | nil => simp
  | cons c cs => rcases htail c cs rfl with rfl | rfl <;> simp

theorem cutInfo_snd_append (info : List Char) {rest : List Char} (hrest : '@' ∉ rest) :
    (cutInfo (info ++ '@' :: rest)).2 = rest := by
  have hne : ∀ c ∈ rest.reverse, (c != '@') = true := fun c hc =>
    bne_iff_ne.mpr fun h => hrest (h ▸ List.mem_reverse.mp hc)
  have hreverse : (info ++ '@' :: rest).reverse = rest.reverse ++ '@' :: info.reverse := by simp
  have hdrop : (info ++ '@' :: rest).reverse.dropWhile (· != '@') = '@' :: info.reverse := by
    rw [hreverse, List.dropWhile_append_of_pos hne]
    exact List.dropWhile_cons_of_neg (by decide)
  have htake : (info ++ '@' :: rest).reverse.takeWhile (· != '@') = rest.reverse := by
    rw [hreverse, List.takeWhile_append_of_pos hne, List.takeWhile_cons_of_neg (by decide),
      List.append_nil]
  unfold cutInfo splitLast
  rw [hdrop, htake]
  exact List.reverse_reverse rest

theorem cutInfo_snd_self {cs : List Char} (hcs : '@' ∉ cs) : (cutInfo cs).2 = cs := by
  have hne : ∀ c ∈ cs.reverse, (c != '@') = true := fun c hc =>
    bne_iff_ne.mpr fun h => hcs (h ▸ List.mem_reverse.mp hc)
  have hdrop : cs.reverse.dropWhile (· != '@') = [] := by
    rw [← List.append_nil cs.reverse, List.dropWhile_append_of_pos hne]
    rfl
  unfold cutInfo splitLast
  rw [hdrop]

/-! ### Web URLs in parts -/

/-- The port, with a colon in front of it. -/
def portChars (u : Url) : List Char := u.port.elim [] fun p => ':' :: Decimal.digitChars p

/-- What stands between the slashes and the path. -/
def authority (u : Url) (h : Host) : List Char := u.credentialChars ++ (h.chars ++ u.portChars)

/-- The query and the fragment, with the marks in front of them. -/
def tailChars (u : Url) : List Char :=
  (u.query.elim [] fun q => '?' :: q) ++ (u.fragment.elim [] fun f => '#' :: f)

/-- Segments with slashes in front of them. -/
def segmentChars (l : List (List Char)) : List Char := l.flatMap fun s => '/' :: s

variable {u : Url} {h : Host} {l : List (List Char)}

/-- The text of a web URL, part by part. -/
theorem chars_eq (hhost : u.host = some h) (hpath : u.path = .segments l) :
    u.chars = u.scheme ++ ':' :: '/' :: '/' ::
      (u.authority h ++ (segmentChars l ++ u.tailChars)) := by
  have hauthority : u.authorityChars = '/' :: '/' :: u.authority h := by
    rw [authorityChars, hhost, authority, portChars]
    cases u.port <;> simp
  have hsegments : u.pathChars = segmentChars l := by
    rw [pathChars, hpath, hhost]
    rfl
  rw [chars, hauthority, hsegments, tailChars]
  simp

theorem head_tailChars (u : Url) : ∀ c cs, u.tailChars = c :: cs → c = '#' ∨ c = '?' := by
  intro c cs h
  unfold tailChars at h
  generalize u.query = query at h
  generalize u.fragment = fragment at h
  cases query with
  | some q => exact .inr (List.cons.inj h).1.symm
  | none =>
    cases fragment with
    | some f => exact .inl (List.cons.inj h).1.symm
    | none => cases h

/-! ### Characters of the parts -/

theorem bare_of_userinfoSet {c : Char} (h : Percent.userinfoSet c = false) :
    Bare c ∧ c ≠ ':' :=
  Percent.escapable_userinfoSet.forall_clear (p := fun c => Bare c ∧ c ≠ ':') (by decide) h

theorem visible_of_pathSet {c : Char} (h : Percent.pathSet c = false) :
    0x20 < c.toNat ∧ c ≠ '#' ∧ c ≠ '?' :=
  Percent.escapable_pathSet.forall_clear (p := fun c => 0x20 < c.toNat ∧ c ≠ '#' ∧ c ≠ '?')
    (by decide) h

theorem visible_of_specialQuerySet {c : Char} (h : Percent.specialQuerySet c = false) :
    0x20 < c.toNat :=
  Percent.escapable_specialQuerySet.forall_clear (p := (0x20 < ·.toNat)) (by decide) h

theorem visible_of_fragmentSet {c : Char} (h : Percent.fragmentSet c = false) :
    0x20 < c.toNat :=
  Percent.escapable_fragmentSet.forall_clear (p := (0x20 < ·.toNat)) (by decide) h

theorem visible_of_isSchemeChar {c : Char} (h : isSchemeChar c = true) : 0x20 < c.toNat := by
  by_cases hc : Bytes.Plain c
  · revert h
    exact Bytes.Plain.forall (p := fun c => isSchemeChar c = true → 0x20 < c.toNat)
      (by decide) hc
  · exact Nat.lt_of_lt_of_le (by decide) (Nat.not_lt.mp hc)

theorem bare_of_isDigit {c : Char} (h : c.isDigit = true) : Bare c :=
  (Host.bare_of_readable (Host.readable_of_isDigit h).1 (Host.readable_of_isDigit h).2).1

namespace WellFormed

theorem bare_portChars (u : Url) : ∀ c ∈ u.portChars, Bare c := by
  unfold portChars
  cases u.port with
  | none => exact List.forall_mem_nil _
  | some p =>
    refine List.forall_mem_cons.mpr ⟨by decide, fun c hc => ?_⟩
    exact bare_of_isDigit (Decimal.isDigit_of_mem_digitChars hc)

theorem bare_hostPort (hh : h.WellFormed) (u : Url) : ∀ c ∈ h.chars ++ u.portChars, Bare c :=
  List.forall_mem_append.mpr ⟨hh.bare, bare_portChars u⟩

theorem bare_credentialChars (hu : u.WellFormed) : ∀ c ∈ u.credentialChars, Bare c ∨ c = '@' := by
  have huser : ∀ c ∈ u.user, Bare c ∨ c = '@' :=
    fun c hc => .inl (bare_of_userinfoSet (hu.user c hc)).1
  have hpassword : ∀ c ∈ u.password, Bare c ∨ c = '@' :=
    fun c hc => .inl (bare_of_userinfoSet (hu.password c hc)).1
  unfold credentialChars
  split
  · exact List.forall_mem_nil _
  · refine List.forall_mem_append.mpr
      ⟨List.forall_mem_append.mpr ⟨huser, ?_⟩, Bytes.forall_mem_of_all (by decide)⟩
    split
    · exact List.forall_mem_nil _
    · exact List.forall_mem_cons.mpr ⟨by decide, hpassword⟩

theorem bare_authority (hu : u.WellFormed) (hh : h.WellFormed) :
    ∀ c ∈ u.authority h, Bare c ∨ c = '@' :=
  List.forall_mem_append.mpr
    ⟨hu.bare_credentialChars, fun c hc => .inl (bare_hostPort hh u c hc)⟩

/-- There is always a host, so the authority is not empty. -/
theorem exists_authority_eq_cons (hu : u.WellFormed) (hh : h.WellFormed) :
    ∃ c cs, u.authority h = c :: cs ∧ (Bare c ∨ c = '@') := by
  have hne : u.authority h ≠ [] :=
    List.append_ne_nil_of_right_ne_nil _ (List.append_ne_nil_of_left_ne_nil hh.chars_ne_nil _)
  obtain ⟨c, cs, hcs⟩ := List.exists_cons_of_ne_nil hne
  exact ⟨c, cs, hcs, hu.bare_authority hh c (hcs ▸ List.mem_cons_self)⟩

theorem visible_segmentChars (hl : Segments l) :
    ∀ c ∈ segmentChars l, 0x20 < c.toNat ∧ c ≠ '#' ∧ c ≠ '?' := by
  intro c hc
  obtain ⟨s, hs, hc⟩ := List.mem_flatMap.mp hc
  rcases List.mem_cons.mp hc with rfl | hc
  · decide
  · exact visible_of_pathSet (hl s hs c hc)

theorem visible_tailChars (hu : u.WellFormed) : ∀ c ∈ u.tailChars, 0x20 < c.toNat := by
  refine List.forall_mem_append.mpr ⟨?_, ?_⟩
  · cases hquery : u.query with
    | none => exact List.forall_mem_nil _
    | some q =>
      refine List.forall_mem_cons.mpr ⟨by decide, fun c hc => ?_⟩
      exact visible_of_specialQuerySet (hu.query q hquery c hc)
  · cases hfragment : u.fragment with
    | none => exact List.forall_mem_nil _
    | some f =>
      refine List.forall_mem_cons.mpr ⟨by decide, fun c hc => ?_⟩
      exact visible_of_fragmentSet (hu.fragment f hfragment c hc)

theorem visible_chars (hu : u.WellFormed) : ∀ c ∈ u.chars, 0x20 < c.toNat := by
  obtain ⟨h, hhost, hh⟩ := hu.host
  obtain ⟨l, hpath, hl⟩ := hu.path
  have hscheme : ∀ c ∈ u.scheme, 0x20 < c.toNat := by
    rcases hu.scheme with hs | hs <;> rw [hs] <;> exact Bytes.forall_mem_of_all (by decide)
  have hauthority : ∀ c ∈ u.authority h, 0x20 < c.toNat := by
    intro c hc
    rcases hu.bare_authority hh c hc with hbare | rfl
    · exact hbare.1
    · decide
  rw [chars_eq hhost hpath]
  simp only [List.forall_mem_append, List.forall_mem_cons]
  exact ⟨hscheme, by decide, by decide, by decide, hauthority,
    fun c hc => (visible_segmentChars hl c hc).1, hu.visible_tailChars⟩

/-! ### Reading -/

/-- The host is found in front of the port. -/
theorem splitPort_hostPort (hh : h.WellFormed) (u : Url) :
    splitPort false (h.chars ++ u.portChars) = (h.chars, u.port.map Decimal.digitChars) := by
  rw [hh.splitPort, portChars]
  cases u.port <;> simp [splitPort]

/-- The name and the password of the user end where the host starts. -/
theorem cutInfo_authority (hh : h.WellFormed) (u : Url) :
    (cutInfo (u.authority h)).2 = h.chars ++ u.portChars := by
  have hat : '@' ∉ h.chars ++ u.portChars := fun hmem =>
    absurd (bare_hostPort hh u '@' hmem) (by decide)
  unfold authority credentialChars
  split
  · exact cutInfo_snd_self hat
  · rw [List.append_assoc, List.singleton_append]
    exact cutInfo_snd_append _ hat

theorem exists_port? (scheme : List Char) {port : Option Nat}
    (hport : ∀ p, port = some p → p ≤ 65535) :
    ∃ o, port? scheme ((port.map Decimal.digitChars).getD []) = some o := by
  cases port with
  | none => exact ⟨none, rfl⟩
  | some p =>
    have hp := hport p rfl
    have hne : (Decimal.digitChars p).isEmpty = false :=
      List.isEmpty_eq_false_iff.mpr Nat.toDigits_ne_nil
    have hdigits : (Decimal.digitChars p).all Char.isDigit = true :=
      List.all_eq_true.mpr fun c => Decimal.isDigit_of_mem_digitChars
    have hvalue : (Decimal.digitChars p).foldl (fun acc c => acc * 10 + (c.toNat - 48)) 0 = p := by
      have hstep : (fun acc c => acc * 10 + (Char.toNat c - 48)) =
          fun acc c => 10 * acc + (Char.toNat c - '0'.toNat) := by
        funext acc c
        rw [Nat.mul_comm]
        rfl
      rw [hstep]
      exact Nat.ofDigitChars_ten_toDigits
    rw [Option.map_some, Option.getD_some, port?, hne, hdigits, hvalue]
    simp only [Bool.false_eq_true, Bool.not_true, if_false, if_neg (Nat.not_lt.mpr hp)]
    split
    · exact ⟨_, rfl⟩
    · exact ⟨_, rfl⟩

/-- The authority is read, host and all. -/
theorem exists_withAuthority? (hu : u.WellFormed) (hh : h.WellFormed) {v : Url}
    (hv : v.scheme = u.scheme) : ∃ w, v.withAuthority? (u.authority h) = some w := by
  obtain ⟨port, hport⟩ := exists_port? v.scheme hu.port
  have hne : h.chars.isEmpty = false := List.isEmpty_eq_false_iff.mpr hh.chars_ne_nil
  have hhost : hostOf? (isSpecialScheme v.scheme) h.chars = some h := by
    rw [hostOf?, hne, hv, hu.scheme.isSpecial]
    exact hh.ofChars?_chars
  rw [withAuthority?_eq, cutInfo_authority hh, splitPort_hostPort hh, hport]
  simp only [Option.bind_some, hne, Bool.false_eq_true, false_and, if_false, hhost,
    Option.map_some]
  exact ⟨_, rfl⟩

/-- A path starts with a slash, or there is none. -/
theorem segmentChars_cases (l : List (List Char)) :
    segmentChars l = [] ∨ ∃ cs, segmentChars l = '/' :: cs := by
  cases l with
  | nil => exact .inl rfl
  | cons s l => exact .inr ⟨_, rfl⟩

theorem not_isSlash_of_bare {c : Char} (h : Bare c ∨ c = '@') : isSlash true c = false := by
  rcases h with hbare | rfl
  · obtain ⟨-, -, hc⟩ := hbare
    simp only [List.mem_cons, not_or] at hc
    simp [isSlash, hc]
  · decide

/-- The host and the path are read, whatever the path is. -/
theorem exists_withHostAndPath? (hu : u.WellFormed) (hh : h.WellFormed) (l : List (List Char)) :
    ∃ w, withHostAndPath? { scheme := u.scheme } (u.authority h ++ segmentChars l) = some w := by
  have hslash : ∀ c ∈ u.authority h, (!isSlash true c) = true := fun c hc => by
    rw [not_isSlash_of_bare (hu.bare_authority hh c hc)]
    rfl
  have htake : (u.authority h ++ segmentChars l).takeWhile (fun c => !isSlash true c) =
      u.authority h := by
    rw [List.takeWhile_append_of_pos hslash]
    rcases segmentChars_cases l with hl | ⟨cs, hl⟩ <;> rw [hl] <;> simp [isSlash]
  obtain ⟨w, hw⟩ := hu.exists_withAuthority? hh (v := { scheme := u.scheme }) rfl
  unfold withHostAndPath?
  dsimp only
  rw [hu.scheme.isSpecial, htake, hw]
  exact ⟨_, rfl⟩

/-- What stands in front of the query and the fragment is found there. -/
theorem body_eq (hu : u.WellFormed) (hh : h.WellFormed) (hl : Segments l) :
    (Parts.ofChars ('/' :: '/' :: (u.authority h ++ (segmentChars l ++ u.tailChars)))).body =
      '/' :: '/' :: (u.authority h ++ segmentChars l) := by
  have hfront : ∀ c ∈ '/' :: '/' :: (u.authority h ++ segmentChars l), c ≠ '#' ∧ c ≠ '?' := by
    simp only [List.forall_mem_cons, List.forall_mem_append]
    refine ⟨by decide, by decide, fun c hc => ?_, fun c hc => (visible_segmentChars hl c hc).2⟩
    rcases hu.bare_authority hh c hc with ⟨-, -, hbare⟩ | rfl
    · simp only [List.mem_cons, not_or] at hbare
      exact ⟨hbare.1, hbare.2.2.1⟩
    · decide
  have hbody := body_append hfront (head_tailChars u)
  rwa [List.cons_append, List.cons_append, List.append_assoc] at hbody

theorem skipSlashes_authority (hu : u.WellFormed) (hh : h.WellFormed) (rest : List Char) :
    skipSlashes ('/' :: '/' :: (u.authority h ++ rest)) = u.authority h ++ rest := by
  obtain ⟨c, cs, hcs, hbare⟩ := hu.exists_authority_eq_cons hh
  have hc := not_isSlash_of_bare hbare
  have hslash : isSlash true '/' = true := by decide
  rw [hcs, List.cons_append, skipSlashes, List.dropWhile_cons_of_pos hslash,
    List.dropWhile_cons_of_pos hslash, List.dropWhile_cons_of_neg (ne_true_of_eq_false hc)]

/-- **Web URLs are read again.** -/
theorem exists_parse? (hu : u.WellFormed) : ∃ v, parse? u.render = some v ∧ v.isWeb = true := by
  obtain ⟨h, hhost, hh⟩ := hu.host
  obtain ⟨l, hpath, hl⟩ := hu.path
  obtain ⟨w, hw⟩ := hu.exists_withHostAndPath? hh l
  have hclean : clean u.render.toList = u.chars := by
    rw [render, String.toList_ofList, clean_eq_self hu.visible_chars]
  have hread : parse? u.render = some (w.withTail
      (Parts.ofChars ('/' :: '/' :: (u.authority h ++ (segmentChars l ++ u.tailChars))))) := by
    rw [parse?_eq, hclean, chars_eq hhost hpath, scheme?_append hu.scheme.isScheme,
      Option.bind_some, absolute?, if_neg hu.scheme.ne_file, if_pos hu.scheme.isSpecial,
      hu.body_eq hh hl, hu.skipSlashes_authority hh, hw]
    rfl
  refine ⟨_, hread, isWeb_iff.mpr ?_⟩
  have hscheme : w.scheme = u.scheme :=
    scheme_of_withHostAndPath? (u := { scheme := u.scheme }) hw
  change IsWebScheme w.scheme
  rw [hscheme]
  exact hu.scheme

end WellFormed

/-- **A scheme is never changed**: if a URL is read again, it is with the scheme that it was
written with. -/
theorem scheme_of_parse?_render {u v : Url} (hscheme : IsScheme u.scheme)
    (hread : parse? u.render = some v) : v.scheme = u.scheme := by
  have hvisible : ∀ c ∈ u.scheme ++ [':'], 0x20 < c.toNat :=
    List.forall_mem_append.mpr
      ⟨fun c hc => visible_of_isSchemeChar (hscheme.chars c hc),
        Bytes.forall_mem_of_all (by decide)⟩
  obtain ⟨rest, hclean⟩ : ∃ rest, clean u.render.toList = u.scheme ++ ':' :: rest := by
    obtain ⟨rest, hrest⟩ := exists_clean_append (List.concat_ne_nil ':' u.scheme) hvisible
      (u.authorityChars ++ (u.pathChars ++ u.tailChars))
    refine ⟨rest, ?_⟩
    rw [render, String.toList_ofList, chars]
    simpa [tailChars] using hrest
  rw [parse?_eq, hclean, scheme?_append hscheme, Option.bind_some] at hread
  exact scheme_of_absolute? hread

end StagedLoad.Url
