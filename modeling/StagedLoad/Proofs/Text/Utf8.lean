import Mathlib.Data.List.Infix
import StagedLoad.Text.Bytes

/-!
# The UTF-8 form of a text

In UTF-8 a character below U+0080 is one byte, and all bytes of any other character are at least
128.  So a plain text stands in the bytes of another text only where it stands in that text: the
bytes of a longer character never make up a part of it.

* `ofString_append`, `toString?_ofString` — the bytes of two texts in a row, and the way back.
* `mem_toList_of_byte_mem`, `infix_of_encoded` — what is found in the bytes is found in
  the text.
-/

namespace StagedLoad.Bytes

theorem ofString_eq_flatMap (s : String) :
    ofString s = s.toList.flatMap String.utf8EncodeChar := by
  have h : s.toUTF8 = (s.toList.flatMap String.utf8EncodeChar).toByteArray := by
    rw [String.toUTF8_eq_toByteArray, ← String.utf8Encode_toList]
    rfl
  rw [ofString, h, List.toList_data_toByteArray]

@[simp] theorem ofString_append (s t : String) : ofString (s ++ t) = ofString s ++ ofString t := by
  simp only [ofString_eq_flatMap, String.toList_append, List.flatMap_append]

/-- The bytes of a text are the bytes of that text only. -/
@[simp] theorem toString?_ofString (s : String) : toString? (ofString s) = some s := by
  have hs : (⟨(ofString s).toArray⟩ : ByteArray) = s.toByteArray := by
    rw [ofString, Array.toArray_toList, String.toUTF8_eq_toByteArray]
  rw [toString?, hs, String.fromUTF8?, dif_pos s.isValidUTF8]
  rfl

/-- Whether a character is a single byte. -/
def Plain (c : Char) : Prop := c.toNat < 128

instance (c : Char) : Decidable (Plain c) := inferInstanceAs (Decidable (c.toNat < 128))

theorem utf8EncodeChar_of_plain {c : Char} (hc : Plain c) :
    String.utf8EncodeChar c = [UInt8.ofNat c.toNat] := by
  have h : c.val.toNat ≤ 127 := Nat.le_of_lt_succ hc
  simp only [String.utf8EncodeChar, h, if_true]
  rfl

theorem flatMap_cons_of_plain {c : Char} (hc : Plain c) (cs : List Char) :
    (c :: cs).flatMap String.utf8EncodeChar =
      UInt8.ofNat c.toNat :: cs.flatMap String.utf8EncodeChar := by
  rw [List.flatMap_cons, utf8EncodeChar_of_plain hc, List.singleton_append]

theorem le_of_mem_utf8EncodeChar {c : Char} (hc : ¬ Plain c) {b : UInt8}
    (hb : b ∈ String.utf8EncodeChar c) : 128 ≤ b.toNat := by
  have h : ¬ c.val.toNat ≤ 127 := fun h => hc (Nat.lt_succ_of_le h)
  simp only [String.utf8EncodeChar, h, if_false] at hb
  split at hb
  · simp only [List.mem_cons, List.not_mem_nil, or_false] at hb
    rcases hb with rfl | rfl <;> simp only [UInt8.toNat_ofNat'] <;> omega
  split at hb <;> simp only [List.mem_cons, List.not_mem_nil, or_false] at hb
  · rcases hb with rfl | rfl | rfl <;> simp only [UInt8.toNat_ofNat'] <;> omega
  · rcases hb with rfl | rfl | rfl | rfl <;> simp only [UInt8.toNat_ofNat'] <;> omega

theorem toNat_ofNat_of_plain {c : Char} (hc : Plain c) : (UInt8.ofNat c.toNat).toNat = c.toNat := by
  have h : c.toNat < 128 := hc
  rw [UInt8.toNat_ofNat']
  omega

theorem eq_of_ofNat_eq {c d : Char} (hc : Plain c) (hd : Plain d)
    (h : UInt8.ofNat c.toNat = UInt8.ofNat d.toNat) : c = d := by
  have hn : c.toNat = d.toNat := by
    rw [← toNat_ofNat_of_plain hc, h, toNat_ofNat_of_plain hd]
  rw [← Char.ofNat_toNat c, hn, Char.ofNat_toNat]

/-- A single byte in the form of a text is a character of the text. -/
theorem mem_toList_of_byte_mem {c : Char} (hc : Plain c) {s : String}
    (h : UInt8.ofNat c.toNat ∈ ofString s) : c ∈ s.toList := by
  rw [ofString_eq_flatMap, List.mem_flatMap] at h
  obtain ⟨d, hd, hb⟩ := h
  by_cases hp : Plain d
  · rw [utf8EncodeChar_of_plain hp, List.mem_singleton] at hb
    rwa [eq_of_ofNat_eq hc hp hb]
  · have hle := le_of_mem_utf8EncodeChar hp hb
    rw [toNat_ofNat_of_plain hc] at hle
    exact absurd hle (Nat.not_le.mpr hc)

/-! ### Where a plain text is found -/

private theorem cons_prefix_encode {p cs : List Char} {c : Char} (hc : Plain c)
    (h : UInt8.ofNat c.toNat :: p.flatMap String.utf8EncodeChar <+:
      cs.flatMap String.utf8EncodeChar) :
    ∃ rest, cs = c :: rest ∧
      p.flatMap String.utf8EncodeChar <+: rest.flatMap String.utf8EncodeChar := by
  cases cs with
  | nil => exact absurd (List.prefix_nil.mp h) (List.cons_ne_nil _ _)
  | cons d rest =>
    by_cases hd : Plain d
    · rw [flatMap_cons_of_plain hd, List.cons_prefix_cons] at h
      obtain rfl := eq_of_ofNat_eq hc hd h.1
      exact ⟨rest, rfl, h.2⟩
    · -- the first byte of `d` is none of a single-byte character
      exfalso
      obtain ⟨b, bs, hbs⟩ : ∃ b bs, String.utf8EncodeChar d = b :: bs :=
        List.exists_cons_of_ne_nil (by simp)
      have hb : b ∈ String.utf8EncodeChar d := hbs ▸ List.mem_cons_self
      rw [List.flatMap_cons, hbs, List.cons_append, List.cons_prefix_cons] at h
      have hle := le_of_mem_utf8EncodeChar hd hb
      rw [← h.1, toNat_ofNat_of_plain hc] at hle
      exact absurd hle (Nat.not_le.mpr hc)

private theorem prefix_of_encoded {p cs : List Char} (hp : ∀ c ∈ p, Plain c)
    (h : p.flatMap String.utf8EncodeChar <+: cs.flatMap String.utf8EncodeChar) : p <+: cs := by
  induction p generalizing cs with
  | nil => exact List.nil_prefix
  | cons c p ih =>
    have hc := hp c List.mem_cons_self
    rw [flatMap_cons_of_plain hc] at h
    obtain ⟨rest, rfl, hrest⟩ := cons_prefix_encode hc h
    exact (List.prefix_cons_inj c).mpr (ih (fun d hd => hp d (List.mem_cons_of_mem _ hd)) hrest)

/-- What begins with a small byte is not found among large ones. -/
private theorem infix_of_infix_append {b : UInt8} {q l rest : Bytes} (hb : b.toNat < 128)
    (hl : ∀ x ∈ l, 128 ≤ x.toNat) (h : b :: q <:+: l ++ rest) : b :: q <:+: rest := by
  induction l with
  | nil => exact h
  | cons x l ih =>
    rw [List.cons_append, List.infix_cons_iff] at h
    rcases h with h | h
    · have hx := hl x List.mem_cons_self
      rw [← (List.cons_prefix_cons.mp h).1] at hx
      exact absurd hx (Nat.not_le.mpr hb)
    · exact ih (fun y hy => hl y (List.mem_cons_of_mem _ hy)) h

/-- A plain text that is found in the bytes of another is found in that text. -/
theorem infix_of_encoded {p s : String} (hp : ∀ c ∈ p.toList, Plain c)
    (h : ofString p <:+: ofString s) : p.toList <:+: s.toList := by
  rw [ofString_eq_flatMap, ofString_eq_flatMap] at h
  generalize p.toList = p at hp h
  cases p with
  | nil => exact List.nil_infix
  | cons c p =>
    have hc := hp c List.mem_cons_self
    have hb : (UInt8.ofNat c.toNat).toNat < 128 := by rwa [toNat_ofNat_of_plain hc]
    have hcp := flatMap_cons_of_plain hc p
    generalize s.toList = s at h
    induction s with
    | nil => simp [hcp] at h
    | cons d s ih =>
      by_cases hd : Plain d
      · -- the bytes begin here, and the text with them, or behind the one byte of `d`
        have hds := flatMap_cons_of_plain hd s
        rw [hds, List.infix_cons_iff, ← hds] at h
        rcases h with h | h
        · exact (prefix_of_encoded hp h).isInfix
        · exact List.infix_cons (ih h)
      · have hds : (d :: s).flatMap String.utf8EncodeChar =
            String.utf8EncodeChar d ++ s.flatMap String.utf8EncodeChar := List.flatMap_cons
        rw [hcp, hds] at h
        have hrest := infix_of_infix_append hb (fun _ => le_of_mem_utf8EncodeChar hd) h
        exact List.infix_cons (ih (hcp ▸ hrest))

end StagedLoad.Bytes
