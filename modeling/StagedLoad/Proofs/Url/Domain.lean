import Mathlib.Data.List.Basic
import StagedLoad.Proofs.Url.Percent
import StagedLoad.Url.Host

/-!
# Domains are read back

A domain that has been read is in lower case and in ASCII, whatever it was read from, and what is
in lower case and in ASCII is not changed by reading it: no percent sign is left to decode, and no
label is left to be told in digits.

## Main definitions

* `Canonical` — the characters of what has been read.
* `Host.Readable` — the names that are read as they are written.

## Main results

* `Punycode.canonical_label` — a label told in digits is in ASCII.
* `Host.normalize_of_canonical` — what has been read is not changed.
* `Host.domain?_eq_some`, `Host.domain?_of_readable` — **domains are read back**.
-/

namespace StagedLoad

/-! ### Characters of domains -/

/-- A character as it stands in a domain: it is one of ASCII, and no letter in upper case. -/
def Canonical (c : Char) : Prop := Bytes.Plain c ∧ c.toLower = c

instance (c : Char) : Decidable (Canonical c) := inferInstanceAs (Decidable (_ ∧ _))

theorem toLower_of_not_plain {c : Char} (hc : ¬ Bytes.Plain c) : c.toLower = c := by
  have h : ¬ c.val ≤ 'Z'.val := fun h => hc (Nat.lt_of_le_of_lt h (by decide))
  exact dif_neg fun hz => h hz.2

theorem toLower_toLower (c : Char) : c.toLower.toLower = c.toLower := by
  by_cases hc : Bytes.Plain c
  · exact Bytes.Plain.forall (p := fun c => c.toLower.toLower = c.toLower) (by decide) hc
  · rw [toLower_of_not_plain hc, toLower_of_not_plain hc]

namespace Punycode

theorem canonical_digitChar : ∀ d < 36, Canonical (digitChar d) := by decide

theorem canonical_digits (bias position n : Nat) : ∀ c ∈ digits bias position n, Canonical c := by
  fun_induction digits bias position n with
  | case1 position n t hlt =>
    have ht := threshold_le bias position
    intro c hc
    rw [List.mem_singleton] at hc
    subst hc
    exact canonical_digitChar n (by omega)
  | case2 position n t hge ih =>
    have ht := threshold_le bias position
    have hmod : (n - t) % (base - t) < base - t := Nat.mod_lt _ (by unfold base; omega)
    have hd : t + (n - t) % (base - t) < 36 := by unfold base at *; omega
    exact List.forall_mem_cons.mpr ⟨canonical_digitChar _ hd, ih⟩

/-- What has been written of a label can stand in a domain. -/
def Progress.Written (p : Progress) : Prop := ∀ c ∈ p.text, Canonical c

theorem Progress.Written.pass {p : Progress} (h : p.Written) (n : Nat) (c : Char) :
    (p.pass n c).Written := by
  unfold Progress.pass
  split
  · exact h
  split
  · exact List.forall_mem_append.mpr ⟨h, canonical_digits _ _ _⟩
  · exact h

theorem Progress.Written.tell {p : Progress} (h : p.Written) (label : List Char) (n : Nat) :
    (Progress.tell label p n).Written := by
  unfold Progress.tell
  generalize hstart : ({ p with passed := p.passed + (n - p.next) * (p.placed + 1) } : Progress) = q
  have hq : q.Written := hstart ▸ h
  change (label.foldl (Progress.pass n) q).Written
  clear hstart
  induction label generalizing q with
  | nil => exact hq
  | cons c label ih => exact ih _ (hq.pass n c)

/-- A label with no letters in upper case stands in a domain as it is written. -/
theorem canonical_label {cs : List Char} (hcs : ∀ c ∈ cs, c.toLower = c) :
    ∀ c ∈ label cs, Canonical c := by
  unfold label
  split
  case isTrue hall =>
    rw [List.all_eq_true] at hall
    exact fun c hc => ⟨of_decide_eq_true (hall c hc), hcs c hc⟩
  case isFalse =>
    refine List.forall_mem_append.mpr ⟨Bytes.forall_mem_of_all (by decide), ?_⟩
    have hbasic : ∀ c ∈ cs.filter isBasic, Canonical c := fun c hc =>
      ⟨of_decide_eq_true (List.mem_filter.mp hc).2, hcs c (List.mem_filter.mp hc).1⟩
    have hstart : ∀ (p : Progress) (ns : List Nat), p.Written →
        (ns.foldl (Progress.tell cs) p).Written := by
      intro p ns hp
      induction ns generalizing p with
      | nil => exact hp
      | cons n ns ih => exact ih _ (hp.tell cs n)
    refine hstart _ _ ?_
    unfold Progress.Written
    dsimp only
    split
    · exact List.forall_mem_nil _
    · exact List.forall_mem_append.mpr ⟨hbasic, Bytes.forall_mem_of_all (by decide)⟩

theorem label_of_canonical {cs : List Char} (hcs : ∀ c ∈ cs, Canonical c) : label cs = cs := by
  unfold label
  rw [if_pos]
  exact List.all_eq_true.mpr fun c hc => decide_eq_true (hcs c hc).1

end Punycode

namespace Host

/-! ### Pieces of a text -/

theorem splitAt_eq (sep : Char) (cs : List Char) : splitAt sep cs = cs.splitOn sep := by
  induction cs with
  | nil => rfl
  | cons c cs ih =>
    rw [splitAt, ih, List.splitOn_cons_eq_if_modifyHead]
    by_cases h : c = sep
    · rw [if_pos h, if_pos (beq_iff_eq.mpr h)]
    · rw [if_neg h, if_neg (h ∘ beq_iff_eq.mp)]
      cases hpieces : cs.splitOn sep with
      | nil => exact absurd hpieces (List.splitOn_ne_nil sep cs)
      | cons l more => rfl

theorem mem_of_mem_splitAt {sep : Char} {cs l : List Char} (hl : l ∈ splitAt sep cs) :
    ∀ c ∈ l, c ∈ cs := by
  induction cs generalizing l with
  | nil =>
    rw [splitAt, List.mem_singleton] at hl
    rw [hl]
    exact fun _ => id
  | cons c cs ih =>
    unfold splitAt at hl
    split at hl
    · rcases List.mem_cons.mp hl with rfl | hl
      · exact fun _ hd => absurd hd List.not_mem_nil
      · exact fun d hd => List.mem_cons_of_mem _ (ih hl d hd)
    split at hl
    · rw [List.mem_singleton] at hl
      subst hl
      exact List.forall_mem_singleton.mpr List.mem_cons_self
    case h_2 piece more hpieces =>
      rw [hpieces, List.forall_mem_cons] at ih
      rcases List.mem_cons.mp hl with rfl | hl
      · exact List.forall_mem_cons.mpr
          ⟨List.mem_cons_self, fun d hd => List.mem_cons_of_mem _ (ih.1 d hd)⟩
      · exact fun d hd => List.mem_cons_of_mem _ (ih.2 l hl d hd)

theorem notMem_of_mem_splitAt {sep : Char} {cs l : List Char} (hl : l ∈ splitAt sep cs) :
    sep ∉ l := by
  induction cs generalizing l with
  | nil =>
    rw [splitAt, List.mem_singleton] at hl
    rw [hl]
    exact List.not_mem_nil
  | cons c cs ih =>
    unfold splitAt at hl
    split at hl
    case isTrue =>
      rcases List.mem_cons.mp hl with rfl | hl
      · exact List.not_mem_nil
      · exact ih hl
    case isFalse hne =>
      split at hl
      case h_1 =>
        rw [List.mem_singleton.mp hl, List.mem_singleton]
        exact Ne.symm hne
      case h_2 piece more hpieces =>
        rw [hpieces, List.forall_mem_cons] at ih
        rcases List.mem_cons.mp hl with rfl | hl
        · rw [List.mem_cons, not_or]
          exact ⟨Ne.symm hne, ih.1⟩
        · exact ih.2 l hl

theorem forall_mem_intercalate {p : Char → Prop} {sep : List Char} {ls : List (List Char)}
    (hsep : ∀ c ∈ sep, p c) (hls : ∀ l ∈ ls, ∀ c ∈ l, p c) : ∀ c ∈ sep.intercalate ls, p c := by
  induction ls with
  | nil => exact List.forall_mem_nil p
  | cons l ls ih =>
    rw [List.forall_mem_cons] at hls
    cases ls with
    | nil => rw [List.intercalate_singleton]; exact hls.1
    | cons l' ls =>
      rw [List.intercalate_cons_cons]
      exact List.forall_mem_append.mpr ⟨List.forall_mem_append.mpr ⟨hls.1, hsep⟩, ih hls.2⟩

/-! ### Domains -/

theorem canonical_normalize (name : List Char) : ∀ c ∈ normalize name, Canonical c := by
  refine forall_mem_intercalate (Bytes.forall_mem_of_all (by decide)) fun l hl => ?_
  obtain ⟨piece, hpiece, rfl⟩ := List.mem_map.mp hl
  refine Punycode.canonical_label fun c hc => ?_
  obtain ⟨d, -, rfl⟩ := List.mem_map.mp (mem_of_mem_splitAt hpiece c hc)
  exact toLower_toLower d

theorem normalize_of_canonical {name : List Char} (h : ∀ c ∈ name, Canonical c) :
    normalize name = name := by
  have hlower : name.map Char.toLower = name :=
    (List.map_congr_left fun c hc => (h c hc).2).trans (List.map_id name)
  have hlabels : (splitAt '.' name).map Punycode.label = splitAt '.' name :=
    (List.map_congr_left fun l hl => Punycode.label_of_canonical fun c hc =>
      h c (mem_of_mem_splitAt hl c hc)).trans (List.map_id _)
  rw [normalize, hlower, hlabels, splitAt_eq, List.intercalate_splitOn]

/-- A name that is read as it is written. -/
structure Readable (name : List Char) : Prop where
  /-- It is not empty. -/
  nonempty : name ≠ []
  /-- It is in lower case and in ASCII. -/
  canonical : ∀ c ∈ name, Canonical c
  /-- It has characters of domains only. -/
  allowed : ∀ c ∈ name, isForbiddenInDomain c = false

/-- The host that a readable name stands for. -/
def ofName? (name : List Char) : Option Host :=
  if endsInNumber name then (ipv4? name).map ipv4 else some (domain name)

theorem domain?_eq_some {cs : List Char} {h : Host} (hread : domain? cs = some h) :
    ∃ name, Readable name ∧ ofName? name = some h := by
  obtain ⟨decoded, -, hname⟩ := Option.bind_eq_some_iff.mp hread
  generalize hnormal : normalize decoded.toList = name at hname
  by_cases hbad : (name.isEmpty || name.any isForbiddenInDomain) = true
  · simp only [hbad, if_true] at hname
    cases hname
  · simp only [hbad] at hname
    rw [Bool.or_eq_true, not_or, List.isEmpty_iff, List.any_eq_true, not_exists] at hbad
    have hcanonical : ∀ c ∈ name, Canonical c := hnormal ▸ canonical_normalize _
    refine ⟨name, ⟨hbad.1, hcanonical, fun c hc => ?_⟩, hname⟩
    exact eq_false_of_ne_true fun hc' => hbad.2 c ⟨hc, hc'⟩

theorem domain?_of_readable {name : List Char} (h : Readable name) :
    domain? name = ofName? name := by
  have hpercent : (37 : UInt8) ∉ Bytes.ofString (String.ofList name) := by
    intro hmem
    have hc := Bytes.mem_toList_of_byte_mem (c := '%') (by decide) hmem
    rw [String.toList_ofList] at hc
    exact absurd (h.allowed _ hc) (by decide)
  have hbad : (name.isEmpty || name.any isForbiddenInDomain) = false := by
    rw [Bool.or_eq_false_iff, List.isEmpty_eq_false_iff, List.any_eq_false]
    exact ⟨h.nonempty, fun c hc => ne_true_of_eq_false (h.allowed c hc)⟩
  unfold domain?
  rw [Percent.decode_eq_self hpercent, Bytes.toString?_ofString]
  simp only [Option.pure_def, Option.bind_eq_bind, Option.bind_some, String.toList_ofList,
    normalize_of_canonical h.canonical, hbad]
  rfl

end Host

end StagedLoad
