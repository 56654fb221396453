import StagedLoad.Proofs.Url.Address
import StagedLoad.Url.Reader

/-!
# Hosts are read back

A host of a web URL is a domain in lower case and in ASCII, or an address.  None of them holds a
character that ends a host, and colons stand in brackets only, so the host is found again in the
text of the URL, in front of a port or not.

## Main definitions

* `Host.WellFormed` — the hosts of web URLs.

## Main results

* `Host.wellFormed_of_ofChars?` — every host that is read is well-formed.
* `Host.WellFormed.ofChars?_chars` — **hosts are read back**.
* `Host.WellFormed.splitPort` — a host is found in front of a port.
-/

namespace StagedLoad

namespace Host

/-- A host as web URLs have it. -/
inductive WellFormed : Host → Prop
  /-- A name that does not look like an address. -/
  | domain {name : List Char} (readable : Readable name) (number : endsInNumber name = false) :
      WellFormed (.domain name)
  /-- An IPv4 address. -/
  | ipv4 {address : Nat} (lt : address < addresses) : WellFormed (.ipv4 address)
  /-- An IPv6 address. -/
  | ipv6 {words : List Nat} (words_of : Words words) : WellFormed (.ipv6 words)

/-- Every host that is read is well-formed. -/
theorem wellFormed_of_ofChars? {cs : List Char} {h : Host} (hread : ofChars? true cs = some h) :
    h.WellFormed := by
  unfold ofChars? at hread
  split at hread
  · split at hread
    · obtain ⟨ws, hws, rfl⟩ := Option.map_eq_some_iff.mp hread
      exact .ipv6 (ipv6?_words hws)
    · cases hread
  · obtain ⟨name, hname, hof⟩ := domain?_eq_some hread
    unfold ofName? at hof
    split at hof
    · obtain ⟨a, ha, rfl⟩ := Option.map_eq_some_iff.mp hof
      obtain ⟨ns, -, hns⟩ := Option.bind_eq_some_iff.mp ha
      exact .ipv4 (ipv4OfNumbers?_lt hns)
    case isFalse hnumber =>
      cases hof
      exact .domain hname (eq_false_of_ne_true hnumber)

theorem ofChars?_of_readable {name : List Char} (h : Readable name) :
    ofChars? true name = ofName? name := by
  unfold ofChars?
  split
  case h_1 rest =>
    -- no name starts with a bracket
    exact absurd (h.allowed '[' List.mem_cons_self) (by decide)
  case h_2 => exact domain?_of_readable h

theorem chars_ipv6 (ws : List Nat) : (ipv6 ws).chars = '[' :: (ipv6Chars ws ++ [']']) := rfl

/-! ### Characters of hosts -/

end Host

namespace Url

/-- A character that stands in front of the path of a web URL, and separates nothing there. -/
def Bare (c : Char) : Prop := 0x20 < c.toNat ∧ c.toNat < 0x7F ∧ c ∉ ['#', '/', '?', '@', '\\']

instance (c : Char) : Decidable (Bare c) := inferInstanceAs (Decidable (_ ∧ _ ∧ _))

theorem splitPort_append {l : List Char} (hl : ∀ c ∈ l, c ≠ ':' ∧ c ≠ '[' ∧ c ≠ ']')
    (rest : List Char) :
    splitPort false (l ++ rest) = (l ++ (splitPort false rest).1, (splitPort false rest).2) := by
  induction l with
  | nil => rfl
  | cons c l ih =>
    rw [List.forall_mem_cons] at hl
    obtain ⟨⟨hcolon, hopen, hclose⟩, hl⟩ := hl
    rw [List.cons_append, splitPort, if_neg (fun h => hcolon h.1), if_neg hopen, if_neg hclose]
    dsimp only
    rw [ih hl]
    rfl

/-- Colons in brackets are no separators. -/
theorem splitPort_inside {l : List Char} (hl : ∀ c ∈ l, c ≠ '[' ∧ c ≠ ']') (rest : List Char) :
    splitPort true (l ++ ']' :: rest) =
      (l ++ ']' :: (splitPort false rest).1, (splitPort false rest).2) := by
  induction l with
  | nil => simp [splitPort]
  | cons c l ih =>
    rw [List.forall_mem_cons] at hl
    obtain ⟨⟨hopen, hclose⟩, hl⟩ := hl
    rw [List.cons_append, splitPort, if_neg (fun h => absurd h.2 (by decide)), if_neg hopen,
      if_neg hclose]
    dsimp only
    rw [ih hl]
    rfl

end Url

namespace Host

theorem bare_of_readable {c : Char} (hc : Canonical c) (hallowed : isForbiddenInDomain c = false) :
    Url.Bare c ∧ c ≠ ':' ∧ c ≠ '[' ∧ c ≠ ']' ∧ c ≠ '%' := by
  revert hallowed
  exact Bytes.Plain.forall (p := fun c => isForbiddenInDomain c = false →
    Url.Bare c ∧ c ≠ ':' ∧ c ≠ '[' ∧ c ≠ ']' ∧ c ≠ '%') (by decide) hc.1

namespace WellFormed

variable {h : Host}

/-- A host without brackets is the text of a name. -/
theorem readable_or (hh : h.WellFormed) : Readable h.chars ∨ ∃ ws, Words ws ∧ h = .ipv6 ws := by
  cases hh with
  | domain hname _ => exact .inl hname
  | ipv4 _ => exact .inl (readable_ipv4Chars _)
  | ipv6 hws => exact .inr ⟨_, hws, rfl⟩

theorem chars_ne_nil (hh : h.WellFormed) : h.chars ≠ [] := by
  rcases hh.readable_or with hname | ⟨ws, -, rfl⟩
  · exact hname.nonempty
  · exact List.cons_ne_nil _ _

theorem bare (hh : h.WellFormed) : ∀ c ∈ h.chars, Url.Bare c := by
  rcases hh.readable_or with hname | ⟨ws, -, rfl⟩
  · exact fun c hc => (bare_of_readable (hname.canonical c hc) (hname.allowed c hc)).1
  · have hwords := forall_mem_ipv6Chars (p := Url.Bare) (by decide) (by decide) ws
    rw [chars_ipv6]
    refine List.forall_mem_cons.mpr
      ⟨by decide, List.forall_mem_append.mpr ⟨hwords, Bytes.forall_mem_of_all (by decide)⟩⟩

/-- A host is found in front of a port. -/
theorem splitPort (hh : h.WellFormed) (rest : List Char) : Url.splitPort false (h.chars ++ rest) =
    (h.chars ++ (Url.splitPort false rest).1, (Url.splitPort false rest).2) := by
  rcases hh.readable_or with hname | ⟨ws, -, rfl⟩
  · refine Url.splitPort_append (fun c hc => ?_) rest
    have hc := bare_of_readable (hname.canonical c hc) (hname.allowed c hc)
    exact ⟨hc.2.1, hc.2.2.1, hc.2.2.2.1⟩
  · have hwords := forall_mem_ipv6Chars (p := fun c => c ≠ '[' ∧ c ≠ ']') (by decide) (by decide) ws
    have hinside := Url.splitPort_inside hwords rest
    rw [chars_ipv6, List.cons_append, List.append_assoc, List.singleton_append, Url.splitPort,
      if_neg (fun h => absurd h.1 (by decide)), if_pos rfl]
    dsimp only
    rw [hinside]
    simp

/-- **Hosts are read back.** -/
theorem ofChars?_chars (hh : h.WellFormed) : ofChars? true h.chars = some h := by
  cases hh with
  | domain hname hnumber =>
    rw [chars, ofChars?_of_readable hname, ofName?, hnumber]
    rfl
  | ipv4 ha => rw [chars, ofChars?_of_readable (readable_ipv4Chars _), ofName?_ipv4Chars ha]
  | ipv6 hws =>
    rw [chars_ipv6, ofChars?]
    simp only [List.getLast?_concat, List.dropLast_concat, ipv6?_ipv6Chars hws, Option.map_some]

end WellFormed

end Host

end StagedLoad
