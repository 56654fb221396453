import StagedLoad.Http.RequestUri
import StagedLoad.Proofs.Url.RoundTrip

/-!
# Which URLs a connection accepts

A connection accepts the text of a web URL unless it is too long, or its host has one of the four
characters that a domain may have and a request URI may not.

## Main definitions

* `RequestUri.Unsendable` — the four characters.

## Main results

* `RequestUri.afterAuthority?_authority` — how far a host is scanned.
* `RequestUri.isPath_tail` — every path and every query is accepted.
* `RequestUri.accepts_render_iff` — **which web URLs are accepted**.
-/

namespace StagedLoad.RequestUri

/-! ### Scanning -/

variable {l : List Char} {s : AuthorityScan}

/-- A character that a scan does not take note of. -/
def Plain (c : Char) : Prop :=
  c ∉ [':', '[', ']', '@', '%'] ∧ endsAuthority c = false

instance (c : Char) : Decidable (Plain c) := inferInstanceAs (Decidable (_ ∧ _))

theorem push?_plain {c : Char} (hc : Plain c) (s : AuthorityScan) :
    s.push? c = if isUriChar c then some { s with endsInAt := false } else none := by
  obtain ⟨hc, -⟩ := hc
  simp only [List.mem_cons, List.not_mem_nil, or_false, not_or] at hc
  obtain ⟨hcolon, hopen, hclose, hat, hpercent⟩ := hc
  unfold AuthorityScan.push?
  dsimp only
  rw [if_neg hcolon, if_neg hopen, if_neg hclose, if_neg hat, if_neg hpercent]

theorem afterAuthority?_cons {c : Char} (hc : endsAuthority c = false) (s : AuthorityScan)
    (rest : List Char) :
    afterAuthority? s (c :: rest) = (s.push? c).bind fun s => afterAuthority? s rest := by
  rw [afterAuthority?, hc]
  rfl

/-- A text of plain characters is scanned to its end, or rejected. -/
theorem afterAuthority?_plain (hl : ∀ c ∈ l, Plain c) (hne : l ≠ []) (s : AuthorityScan)
    (rest : List Char) :
    afterAuthority? s (l ++ rest) =
      if l.all isUriChar then afterAuthority? { s with endsInAt := false } rest else none := by
  induction l generalizing s with
  | nil => exact absurd rfl hne
  | cons c l ih =>
    rw [List.forall_mem_cons] at hl
    rw [List.cons_append, afterAuthority?_cons hl.1.2, push?_plain hl.1, List.all_cons]
    by_cases hc : isUriChar c = true
    · rw [if_pos hc, Option.bind_some, hc, Bool.true_and]
      cases l with
      | nil => rfl
      | cons d l => exact ih hl.2 (List.cons_ne_nil d l) _
    · rw [if_neg hc, Option.bind_none, Bool.eq_false_iff.mpr hc, Bool.false_and, if_neg (by decide)]

theorem plain_of_userinfoSet {c : Char} (h : Percent.userinfoSet c = false) :
    Plain c ∧ isUriChar c = true ∨ c = '%' :=
  Percent.escapable_userinfoSet.forall_clear
    (p := fun c => Plain c ∧ isUriChar c = true ∨ c = '%') (by decide) h

/-- A name or a password is scanned to its end. -/
theorem afterAuthority?_userinfo (hl : ∀ c ∈ l, Percent.userinfoSet c = false)
    (s : AuthorityScan) (rest : List Char) :
    ∃ percent endsInAt, afterAuthority? s (l ++ rest) =
      afterAuthority? { s with percent, endsInAt } rest := by
  induction l generalizing s with
  | nil => exact ⟨s.percent, s.endsInAt, rfl⟩
  | cons c l ih =>
    rw [List.forall_mem_cons] at hl
    rw [List.cons_append]
    rcases plain_of_userinfoSet hl.1 with ⟨hplain, huri⟩ | rfl
    · rw [afterAuthority?_cons hplain.2, push?_plain hplain, if_pos huri]
      exact ih hl.2 { s with endsInAt := false }
    · rw [afterAuthority?_cons (by decide)]
      exact ih hl.2 { s with percent := true, endsInAt := false }

/-- After the name and the password of the user nothing of them is taken into account. -/
theorem afterAuthority?_credentials {u : Url} (hu : u.WellFormed) (rest : List Char) :
    ∃ endsInAt, afterAuthority? {} (u.credentialChars ++ rest) =
      afterAuthority? { endsInAt } rest := by
  unfold Url.credentialChars
  split
  · exact ⟨false, rfl⟩
  · obtain ⟨percent, endsInAt, huser⟩ := afterAuthority?_userinfo hu.user {}
      ((if u.password.isEmpty then [] else ':' :: u.password) ++ ('@' :: rest))
    refine ⟨true, ?_⟩
    rw [List.append_assoc, List.append_assoc, List.singleton_append, huser]
    split
    · rw [List.nil_append, afterAuthority?_cons (by decide)]
      rfl
    · obtain ⟨percent', endsInAt', hpassword⟩ := afterAuthority?_userinfo hu.password
        { colons := 1, percent, endsInAt := false } ('@' :: rest)
      rw [List.cons_append, afterAuthority?_cons (by decide)]
      change afterAuthority? { colons := 1, percent, endsInAt := false } _ = _
      rw [hpassword, afterAuthority?_cons (by decide)]
      rfl

/-- Colons between words are counted. -/
theorem afterAuthority?_words (hl : ∀ c ∈ l, c = ':' ∨ ∃ d < 16, c = d.digitChar)
    (s : AuthorityScan) (hcolons : s.colons + l.count ':' ≤ greatestColons) (rest : List Char) :
    ∃ endsInAt, afterAuthority? s (l ++ rest) =
      afterAuthority? { s with colons := s.colons + l.count ':', endsInAt } rest := by
  induction l generalizing s with
  | nil => exact ⟨s.endsInAt, rfl⟩
  | cons c l ih =>
    rw [List.forall_mem_cons] at hl
    rw [List.cons_append]
    rcases hl.1 with rfl | ⟨d, hd, rfl⟩
    · rw [List.count_cons_self] at hcolons
      have hlt : ¬ greatestColons ≤ s.colons := by omega
      have hpush : s.push? ':' = some { s with colons := s.colons + 1, endsInAt := false } := by
        unfold AuthorityScan.push?
        exact (if_pos rfl).trans (if_neg hlt)
      rw [afterAuthority?_cons (by decide), hpush, List.count_cons_self]
      obtain ⟨endsInAt, hrest⟩ := ih hl.2 { s with colons := s.colons + 1, endsInAt := false }
        (by dsimp only; omega)
      refine ⟨endsInAt, hrest.trans ?_⟩
      rw [Nat.add_right_comm, Nat.add_assoc s.colons]
    · have hdigit : ∀ d < 16, Plain d.digitChar ∧ isUriChar d.digitChar = true ∧
          d.digitChar ≠ ':' := by decide
      obtain ⟨hplain, huri, hne⟩ := hdigit d hd
      rw [List.count_cons_of_ne hne] at hcolons ⊢
      rw [afterAuthority?_cons hplain.2, push?_plain hplain, if_pos huri]
      exact ih hl.2 { s with endsInAt := false } hcolons

/-- A host is scanned to its end, or rejected for one of its characters. -/
theorem afterAuthority?_host {h : Host} (hh : h.WellFormed) (endsInAt : Bool) (rest : List Char) :
    ∃ brackets, afterAuthority? { endsInAt } (h.chars ++ rest) =
      if h.chars.all isUriChar then
        afterAuthority? { opened := brackets, closed := brackets } rest
      else none := by
  rcases hh.readable_or with hname | ⟨ws, hws, rfl⟩
  · refine ⟨false, afterAuthority?_plain (fun c hc => ?_) hname.nonempty _ rest⟩
    obtain ⟨⟨-, -, hbare⟩, hcolon, hopen, hclose, hpercent⟩ :=
      Host.bare_of_readable (hname.canonical c hc) (hname.allowed c hc)
    simp only [List.mem_cons, not_or] at hbare
    exact ⟨by simp [*], by simp [endsAuthority, hbare]⟩
  · refine ⟨true, ?_⟩
    have huri : (Host.ipv6 ws).chars.all isUriChar = true := by
      have hwords := Host.forall_mem_ipv6Chars (p := fun c => isUriChar c = true) (by decide)
        (by decide) ws
      rw [Host.chars_ipv6, List.all_cons, List.all_append, List.all_eq_true.mpr hwords]
      decide
    obtain ⟨endsInAt', hscan⟩ := afterAuthority?_words (s := { opened := true })
      (Host.forall_mem_ipv6Chars (p := fun c => c = ':' ∨ ∃ d < 16, c = d.digitChar)
        (fun d hd => .inr ⟨d, hd, rfl⟩) (.inl rfl) ws)
      (by rw [Nat.zero_add]; exact Host.count_ipv6Chars hws) (']' :: rest)
    rw [if_pos huri, Host.chars_ipv6, List.cons_append, List.append_assoc, List.singleton_append,
      afterAuthority?_cons (by decide)]
    change afterAuthority? { opened := true } _ = _
    rw [hscan, afterAuthority?_cons (by decide)]
    rfl

theorem plain_of_isDigit {c : Char} (h : c.isDigit = true) : Plain c ∧ isUriChar c = true := by
  have hplain := (Host.readable_of_isDigit h).1.1
  revert h
  exact Bytes.Plain.forall (p := fun c => c.isDigit = true → Plain c ∧ isUriChar c = true)
    (by decide) hplain

/-- A port is scanned to its end, and the host is complete. -/
theorem afterAuthority?_port (u : Url) (brackets : Bool) {tail : List Char}
    (htail : ∀ c cs, tail = c :: cs → endsAuthority c = true) :
    afterAuthority? { opened := brackets, closed := brackets } (u.portChars ++ tail) =
      some tail := by
  have hend : ∀ s : AuthorityScan, s.isComplete = true → afterAuthority? s tail = some tail := by
    intro s hs
    cases tail with
    | nil => exact if_pos hs
    | cons c cs => rw [afterAuthority?, htail c cs rfl, if_pos rfl, if_pos hs]
  unfold Url.portChars
  cases u.port with
  | none =>
    refine hend _ ?_
    cases brackets <;> rfl
  | some p =>
    have hdigit : ∀ c ∈ Decimal.digitChars p, Plain c ∧ isUriChar c = true :=
      fun c hc => plain_of_isDigit (Decimal.isDigit_of_mem_digitChars hc)
    have hplain := afterAuthority?_plain (fun c hc => (hdigit c hc).1) Nat.toDigits_ne_nil
      { opened := brackets, closed := brackets, colons := 1 } tail
    rw [Option.elim_some, List.cons_append, afterAuthority?_cons (by decide)]
    change afterAuthority? { opened := brackets, closed := brackets, colons := 1 } _ = _
    rw [hplain, if_pos (List.all_eq_true.mpr fun c hc => (hdigit c hc).2)]
    refine hend _ ?_
    cases brackets <;> rfl

/-- How far a host is scanned, with what belongs to it. -/
theorem afterAuthority?_authority {u : Url} {h : Host} (hu : u.WellFormed) (hh : h.WellFormed)
    {tail : List Char} (htail : ∀ c cs, tail = c :: cs → endsAuthority c = true) :
    afterAuthority? {} (u.authority h ++ tail) =
      if h.chars.all isUriChar then some tail else none := by
  obtain ⟨endsInAt, hcredentials⟩ := afterAuthority?_credentials hu
    (h.chars ++ (u.portChars ++ tail))
  obtain ⟨brackets, hhost⟩ := afterAuthority?_host hh endsInAt (u.portChars ++ tail)
  rw [Url.authority, List.append_assoc, List.append_assoc, hcredentials, hhost,
    afterAuthority?_port u brackets htail]

/-! ### Paths and queries -/

theorem isPathChar_of_pathSet {c : Char} (h : Percent.pathSet c = false) :
    isPathChar c = true ∧ c ≠ '?' ∧ c ≠ '#' :=
  Percent.escapable_pathSet.forall_clear (p := fun c => isPathChar c = true ∧ c ≠ '?' ∧ c ≠ '#')
    (by decide) h

theorem isQueryChar_of_specialQuerySet {c : Char} (h : Percent.specialQuerySet c = false) :
    isQueryChar c = true ∧ c ≠ '#' :=
  Percent.escapable_specialQuerySet.forall_clear (p := fun c => isQueryChar c = true ∧ c ≠ '#')
    (by decide) h

theorem isPathChar_of_mem_segmentChars {l : List (List Char)} (hl : Url.Segments l) :
    ∀ c ∈ Url.segmentChars l, isPathChar c = true ∧ c ≠ '?' ∧ c ≠ '#' := by
  intro c hc
  obtain ⟨s, hs, hc⟩ := List.mem_flatMap.mp hc
  rcases List.mem_cons.mp hc with rfl | hc
  · decide
  · exact isPathChar_of_pathSet (hl s hs c hc)

/-- Every path and every query is accepted. -/
theorem isPath_tail {u : Url} (hu : u.WellFormed) {l : List (List Char)} (hl : Url.Segments l) :
    isPath (Url.segmentChars l ++ u.tailChars) = true := by
  have hsegments := isPathChar_of_mem_segmentChars hl
  have hinside : ∀ c ∈ Url.segmentChars l, (c != '?' && c != '#') = true := fun c hc => by
    simp [(hsegments c hc).2]
  have hfront : (Url.segmentChars l).all isPathChar = true :=
    List.all_eq_true.mpr fun c hc => (hsegments c hc).1
  unfold isPath Url.tailChars
  dsimp only
  rw [List.takeWhile_append_of_pos hinside, List.dropWhile_append_of_pos hinside]
  cases hquery : u.query with
  | none => cases u.fragment <;> simp [hfront]
  | some q =>
    have hq : ∀ c ∈ q, isQueryChar c = true ∧ c ≠ '#' :=
      fun c hc => isQueryChar_of_specialQuerySet (hu.query q hquery c hc)
    have hstop : ∀ c ∈ q, (c != '#') = true := fun c hc => bne_iff_ne.mpr (hq c hc).2
    have hall : q.all isQueryChar = true := List.all_eq_true.mpr fun c hc => (hq c hc).1
    have htake (rest : List Char) : (q ++ rest).takeWhile (· != '#') =
        q ++ rest.takeWhile (· != '#') := List.takeWhile_append_of_pos hstop
    have hself : q.takeWhile (· != '#') = q := by simpa using htake []
    cases u.fragment <;> simp [hfront, htake, hself, hall]

/-! ### Web URLs -/

/-- A character that a domain may have and a request URI may not. -/
def Unsendable (c : Char) : Prop := c ∈ ['"', '\x60', '\x7b', '\x7d']

instance (c : Char) : Decidable (Unsendable c) := inferInstanceAs (Decidable (c ∈ _))

theorem isUriChar_iff {h : Host} (hh : h.WellFormed) :
    ∀ c ∈ h.chars, (isUriChar c = true ↔ ¬ Unsendable c) := by
  rcases hh.readable_or with hname | ⟨ws, -, rfl⟩
  · intro c hc
    have hallowed := hname.allowed c hc
    revert hallowed
    exact Bytes.Plain.forall (p := fun c => Host.isForbiddenInDomain c = false →
      (isUriChar c = true ↔ ¬ Unsendable c)) (by decide) (hname.canonical c hc).1
  · have hwords := Host.forall_mem_ipv6Chars (p := fun c => isUriChar c = true ↔ ¬ Unsendable c)
      (by decide) (by decide) ws
    rw [Host.chars_ipv6]
    exact List.forall_mem_cons.mpr
      ⟨by decide, List.forall_mem_append.mpr ⟨hwords, Bytes.forall_mem_of_all (by decide)⟩⟩

theorem all_isUriChar_iff {h : Host} (hh : h.WellFormed) :
    h.chars.all isUriChar = true ↔ ∀ c ∈ h.chars, ¬ Unsendable c := by
  rw [List.all_eq_true]
  exact forall₂_congr (isUriChar_iff hh)

theorem endsAuthority_head {u : Url} (l : List (List Char)) :
    ∀ c cs, Url.segmentChars l ++ u.tailChars = c :: cs → endsAuthority c = true := by
  intro c cs h
  rcases Url.WellFormed.segmentChars_cases l with hl | ⟨path, hl⟩
  · rw [hl, List.nil_append] at h
    rcases Url.head_tailChars u c cs h with rfl | rfl <;> decide
  · rw [hl, List.cons_append, List.cons.injEq] at h
    rw [← h.1]
    decide

/-- A text with a scheme of the web is accepted if what stands behind the scheme is scanned. -/
theorem accepts_web {scheme rest : List Char} (hscheme : Url.IsWebScheme scheme) {s : String}
    (hs : s.toList = scheme ++ ':' :: '/' :: '/' :: rest) :
    accepts s = (!decide (greatestLength < s.utf8ByteSize) &&
      (!(rest.head?.elim true endsAuthority) && (afterAuthority? {} rest).any isPath)) := by
  have hafter : afterScheme? s.toList = some rest := by
    rw [hs]
    rcases hscheme with rfl | rfl <;> rfl
  have hlength : (s.toList.takeWhile isSchemeChar).length ≤ greatestScheme := by
    have htake : s.toList.takeWhile isSchemeChar = scheme := by
      rw [hs]
      rcases hscheme with rfl | rfl <;> rfl
    rw [htake]
    rcases hscheme with rfl | rfl <;> decide
  unfold accepts
  dsimp only
  split
  case isTrue hlong => rw [decide_eq_true hlong]; rfl
  case isFalse hshort =>
    rw [decide_eq_false hshort, Bool.not_false, Bool.true_and, hafter]
    have hhead : ∃ cs, s.toList = 'h' :: 't' :: cs := by
      rw [hs]
      rcases hscheme with rfl | rfl <;> exact ⟨_, rfl⟩
    obtain ⟨cs, hcs⟩ := hhead
    rw [hcs] at hlength ⊢
    simp [hlength]

/-- **Which web URLs are accepted**: those that are not too long, and whose hosts can be sent. -/
theorem accepts_render_iff {u : Url} {h : Host} (hu : u.WellFormed) (hhost : u.host = some h) :
    accepts u.render = true ↔
      u.render.utf8ByteSize ≤ greatestLength ∧ ∀ c ∈ h.chars, ¬ Unsendable c := by
  obtain ⟨h', hhost', hh⟩ := hu.host
  obtain rfl : h' = h := Option.some.inj (hhost'.symm.trans hhost)
  obtain ⟨l, hpath, hl⟩ := hu.path
  have hchars : u.render.toList = u.scheme ++ ':' :: '/' :: '/' ::
      (u.authority h' ++ (Url.segmentChars l ++ u.tailChars)) := by
    rw [Url.render, String.toList_ofList, Url.chars_eq hhost hpath]
  have hhead : (u.authority h' ++ (Url.segmentChars l ++ u.tailChars)).head?.elim true
      endsAuthority = false := by
    obtain ⟨c, cs, hcs, hbare | rfl⟩ := hu.exists_authority_eq_cons hh
    · have hc := hbare.2.2
      simp only [List.mem_cons, not_or] at hc
      rw [hcs]
      simp [endsAuthority, hc]
    · rw [hcs]
      rfl
  rw [accepts_web hu.scheme hchars, hhead, afterAuthority?_authority hu hh (endsAuthority_head l),
    ← all_isUriChar_iff hh]
  cases huri : h'.chars.all isUriChar <;> simp [isPath_tail hu hl]

end StagedLoad.RequestUri
