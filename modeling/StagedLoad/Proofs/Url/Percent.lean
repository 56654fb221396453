import StagedLoad.Proofs.Text.Utf8
import StagedLoad.Url.Percent

/-!
# Encoded texts

What is written with percent signs has none of the characters that have to be encoded, whatever
text it is written for.  Only characters of ASCII that can be seen are left.

* `Percent.Escapable.encode_clear` — what is encoded is clear of the set.
* `Percent.decode_eq_self` — what has no percent signs stands for itself.
-/

namespace StagedLoad

/-! ### Characters of ASCII -/

/-- What holds of all codes of ASCII holds of its characters. -/
theorem Bytes.Plain.forall {p : Char → Prop} (hp : ∀ n < 128, p (Char.ofNat n)) {c : Char}
    (hc : Bytes.Plain c) : p c := by
  rw [← Char.ofNat_toNat (c := c)]
  exact hp c.toNat hc

/-- What is decided of the characters of a list one by one; the characters that are not in the
list need not be looked at. -/
theorem Bytes.forall_mem_of_all {p : Char → Prop} [DecidablePred p] {cs : List Char}
    (h : (cs.all fun c => decide (p c)) = true) : ∀ c ∈ cs, p c :=
  fun c hc => of_decide_eq_true (List.all_eq_true.mp h c hc)

namespace Percent

/-- A set without which every text can be written: it has neither the percent sign nor a digit. -/
structure Escapable (set : EncodeSet) : Prop where
  /-- It has the controls and what is not ASCII. -/
  controls : ∀ c, Percent.controls c = true → set c = true
  /-- It does not have the percent sign. -/
  percent : set '%' = false
  /-- It has no hexadecimal digit. -/
  digit : ∀ n < 16, set (hexDigit n) = false

theorem escapable_fragmentSet : Escapable fragmentSet :=
  ⟨fun c h => by simp [fragmentSet, h], by decide, by decide⟩

theorem escapable_specialQuerySet : Escapable specialQuerySet :=
  ⟨fun c h => by simp [specialQuerySet, querySet, h], by decide, by decide⟩

theorem escapable_pathSet : Escapable pathSet :=
  ⟨fun c h => by simp [pathSet, querySet, h], by decide, by decide⟩

theorem escapable_userinfoSet : Escapable userinfoSet :=
  ⟨fun c h => by simp [userinfoSet, pathSet, querySet, h], by decide, by decide⟩

namespace Escapable

variable {set : EncodeSet}

theorem encodeByte_clear (hset : Escapable set) (b : UInt8) :
    ∀ c ∈ encodeByte b, set c = false := by
  have hhigh : b.toNat / 16 < 16 := Nat.div_lt_of_lt_mul b.toNat_lt
  have hlow : b.toNat % 16 < 16 := Nat.mod_lt _ (by decide)
  intro c hc
  simp only [encodeByte, List.mem_cons, List.not_mem_nil, or_false] at hc
  rcases hc with rfl | rfl | rfl
  · exact hset.percent
  · exact hset.digit _ hhigh
  · exact hset.digit _ hlow

/-- What is encoded is clear of the set. -/
theorem encode_clear (hset : Escapable set) (cs : List Char) :
    ∀ c ∈ encode set cs, set c = false := by
  intro c hc
  obtain ⟨d, -, hd⟩ := List.mem_flatMap.mp hc
  unfold encodeChar at hd
  split at hd
  case isTrue =>
    obtain ⟨b, -, hb⟩ := List.mem_flatMap.mp hd
    exact hset.encodeByte_clear b c hb
  case isFalse hclear =>
    rw [List.mem_singleton] at hd
    subst hd
    exact eq_false_of_ne_true hclear

/-- What is clear of the set is one of ASCII, so codes of ASCII are all that has to be looked at. -/
theorem forall_clear (hset : Escapable set) {p : Char → Prop}
    (hp : ∀ n < 128, set (Char.ofNat n) = false → p (Char.ofNat n)) {c : Char}
    (hc : set c = false) : p c := by
  have hcontrols : Percent.controls c = false :=
    Bool.eq_false_iff.mpr fun h => absurd (hset.controls c h) (ne_true_of_eq_false hc)
  have hplain : Bytes.Plain c := by
    simp only [Percent.controls, Bool.or_eq_false_iff, decide_eq_false_iff_not] at hcontrols
    exact Nat.lt_of_le_of_lt (Nat.not_lt.mp hcontrols.2) (by decide)
  exact Bytes.Plain.forall (p := fun c => set c = false → p c) hp hplain hc

end Escapable

/-- What has no percent signs stands for itself. -/
theorem decode_eq_self {b : Bytes} (h : 37 ∉ b) : decode b = b := by
  induction b with
  | nil => rfl
  | cons x b ih =>
    rw [List.mem_cons, not_or] at h
    rw [decode.eq_2 x b fun _ _ _ hx _ => h.1 hx.symm, ih h.2]

end Percent

end StagedLoad
