import StagedLoad.Proofs.Json.Number

/-!
# Values are read back

Whatever is written as JSON is read back: texts as they are, with every escape resolved, integers
as they are, and doubles as doubles, or as the absent value if they are not finite.  No control
character is left in what is written, so it stands on one line.

## Main definitions

* `Json.Fits` — the integers of a value have 64 bits, and it is not nested too deeply.
* `Json.reread` — what the reader makes of a value that was written.

## Main results

* `Json.text?_escaped` — **texts are read back**.
* `Json.value?_chars` — **values are read back**.
* `Json.visible_chars` — **a value stands on one line**.
-/

namespace StagedLoad.Json

open Binary64

/-! ### Texts -/

/-- A control character and its two hexadecimal digits. -/
theorem hexWord?_hexDigit {n : Nat} (hn : n < 32) :
    hexWord? '0' '0' (hexDigit (n / 16)) (hexDigit (n % 16)) = some n := by
  revert n
  decide

theorem text?_escape (c : Char) (tail : List Char) :
    text? (escape c ++ tail) = (text? tail).map (prepend c) := by
  by_cases hquote : c = '"'
  · subst c; simp [escape, text?, escaped?]
  by_cases hslash : c = '\\'
  · subst c; simp [escape, text?, escaped?]
  by_cases hnewline : c = '\n'
  · subst c; simp [escape, text?, escaped?]
  by_cases hreturn : c = '\r'
  · subst c; simp [escape, text?, escaped?]
  by_cases htab : c = '\t'
  · subst c; simp [escape, text?, escaped?]
  by_cases hback : c = '\x08'
  · subst c; simp [escape, text?, escaped?]
  by_cases hfeed : c = '\x0c'
  · subst c; simp [escape, text?, escaped?]
  by_cases hcontrol : c.toNat < 0x20
  · -- what is left of the control characters is no half of a pair
    have hlow : isLowHalf c.toNat = false := by
      rw [isLowHalf, Bool.and_eq_false_iff, decide_eq_false_iff_not]
      omega
    have hhigh : isHighHalf c.toNat = false := by
      rw [isHighHalf, Bool.and_eq_false_iff, decide_eq_false_iff_not]
      omega
    simp [escape, hquote, hslash, hnewline, hreturn, htab, hback, hfeed, hcontrol, text?,
      hexWord?_hexDigit hcontrol, hlow, hhigh]
  · simp [escape, hquote, hslash, hnewline, hreturn, htab, hback, hfeed, hcontrol, text?]

/-- **Texts are read back**, whatever characters are in them. -/
theorem text?_escaped (s rest : List Char) :
    text? (s.flatMap escape ++ '"' :: rest) = some (s, rest) := by
  induction s with
  | nil => simp [text?]
  | cons c s ih =>
    rw [List.flatMap_cons, List.append_assoc, text?_escape, ih]
    rfl

theorem text?_quoted (s : String) (rest : List Char) :
    quoted s ++ rest = '"' :: (s.toList.flatMap escape ++ '"' :: rest) := by
  simp [quoted]

/-! ### Values -/

/-- An integer has 64 bits, with or without a sign. -/
def Number.Fits : Number → Prop
  | integer n => -9223372036854775808 ≤ n ∧ n ≤ maxWord
  | double _ => True

/-- What the reader makes of a number that was written. -/
def Number.reread (n : Number) : Json Number :=
  match literal? n.chars with
  | some (l, _) => l.value?.elim null number
  | none => null

mutual

/-- The integers of a value have 64 bits, and no more than `depth` arrays and objects in it are
open at once. -/
def Fits : Json Number → (depth : Nat) → Prop
  | null, _ => True
  | bool _, _ => True
  | number n, _ => n.Fits
  | string _, _ => True
  | array vs, depth => 0 < depth ∧ FitsElements vs (depth - 1)
  | object ms, depth => 0 < depth ∧ FitsMembers ms (depth - 1)

/-- All elements of an array do. -/
def FitsElements : List (Json Number) → (depth : Nat) → Prop
  | [], _ => True
  | v :: rest, depth => v.Fits depth ∧ FitsElements rest depth

/-- All members of an object do. -/
def FitsMembers : List (String × Json Number) → (depth : Nat) → Prop
  | [], _ => True
  | (_, v) :: rest, depth => v.Fits depth ∧ FitsMembers rest depth

end

mutual

/-- What the reader makes of a value that was written. -/
def reread : Json Number → Json Number
  | null => null
  | bool b => bool b
  | number n => n.reread
  | string s => string s
  | array vs => array (rereadElements vs)
  | object ms => object (rereadMembers ms)

/-- What the reader makes of some elements. -/
def rereadElements : List (Json Number) → List (Json Number)
  | [] => []
  | v :: rest => v.reread :: rereadElements rest

/-- What the reader makes of some members. -/
def rereadMembers : List (String × Json Number) → List (String × Json Number)
  | [] => []
  | (k, v) :: rest => (k, v.reread) :: rereadMembers rest

end

/-- A number starts with a minus or a digit. -/
theorem exists_cons_of_literal? {cs rest : List Char} {l : Literal}
    (h : literal? cs = some (l, rest)) :
    ∃ c tail, cs = c :: tail ∧ (c = '-' ∨ c.isDigit = true) := by
  cases cs with
  | nil => cases h
  | cons c tail =>
    refine ⟨c, tail, rfl, ?_⟩
    by_contra hc
    obtain ⟨hminus, hdigit⟩ := not_or.mp hc
    have hsplit : splitMinus (c :: tail) = (false, c :: tail) := splitMinus_sign false hminus
    have hnone : whole? (c :: tail) = none := by
      unfold whole? digits?
      rw [List.takeWhile_cons_of_neg hdigit]
      rfl
    unfold literal? at h
    rw [hsplit] at h
    simp only [Option.bind_eq_bind] at h
    rw [hnone] at h
    cases h

theorem value?_of_literal? {cs rest : List Char} {l : Literal} {k : Number} {fuel depth : Nat}
    (h : literal? cs = some (l, rest)) (hk : l.value? = some k) :
    value? Literal.value? (fuel + 1) depth cs = some (number k, rest) := by
  obtain ⟨c, tail, rfl, hc⟩ := exists_cons_of_literal? h
  have hother : ∀ d, c = d → d ≠ '-' → d.isDigit = false → False := by
    rintro d rfl hminus hdigit
    rcases hc with rfl | hc
    · exact hminus rfl
    · rw [hdigit] at hc
      cases hc
  unfold value?
  split
  case h_1 heq => exact (hother 'n' (List.cons.inj heq).1 (by decide) rfl).elim
  case h_2 heq => exact (hother 't' (List.cons.inj heq).1 (by decide) rfl).elim
  case h_3 heq => exact (hother 'f' (List.cons.inj heq).1 (by decide) rfl).elim
  case h_4 heq => exact (hother '"' (List.cons.inj heq).1 (by decide) rfl).elim
  case h_5 heq => exact (hother '[' (List.cons.inj heq).1 (by decide) rfl).elim
  case h_6 heq => exact (hother '\x7b' (List.cons.inj heq).1 (by decide) rfl).elim
  case h_7 =>
    rw [h]
    dsimp only
    rw [hk]
    rfl

theorem Number.reread_eq {n k : Number} {l : Literal} (hvalue : l.value? = some k)
    (hl : ∀ rest, EndsNumber rest → literal? (n.chars ++ rest) = some (l, rest)) :
    n.reread = number k := by
  have hnil := hl [] (by rintro _ _ ⟨⟩)
  rw [List.append_nil] at hnil
  unfold Number.reread
  rw [hnil]
  dsimp only
  rw [hvalue]
  rfl

/-- An integer is read back as it is. -/
theorem Number.reread_integer {n : Int} (h : (integer n).Fits) :
    (integer n).reread = number (integer n) := by
  obtain ⟨l, hvalue, hl⟩ := literal?_integer h.1 h.2
  exact Number.reread_eq hvalue hl

/-- A number is read back as a number, or it is written as the absent value. -/
theorem Number.reread_cases {n : Number} (hfits : n.Fits) :
    (n.chars = ['n', 'u', 'l', 'l'] ∧ n.reread = null) ∨
      ∃ l k, n.reread = number k ∧ l.value? = some k ∧
        ∀ rest, EndsNumber rest → literal? (n.chars ++ rest) = some (l, rest) := by
  cases n with
  | integer n =>
    obtain ⟨l, hvalue, hl⟩ := literal?_integer hfits.1 hfits.2
    exact Or.inr ⟨l, _, Number.reread_eq hvalue hl, hvalue, hl⟩
  | double x =>
    cases hx : Binary64.isFinite x with
    | false =>
      have hnull : (double x).chars = ['n', 'u', 'l', 'l'] := renderChars_of_not_finite hx
      refine Or.inl ⟨hnull, ?_⟩
      unfold Number.reread
      rw [hnull]
      rfl
    | true =>
      obtain ⟨l, y, hvalue, hl⟩ := exists_literal?_double hx
      exact Or.inr ⟨l, _, Number.reread_eq hvalue hl, hvalue, hl⟩

theorem Number.value?_chars {n : Number} (hfits : n.Fits) {fuel depth : Nat} {rest : List Char}
    (hrest : EndsNumber rest) :
    value? Literal.value? (fuel + 1) depth (n.chars ++ rest) = some (n.reread, rest) := by
  rcases Number.reread_cases hfits with ⟨hchars, hreread⟩ | ⟨l, k, hreread, hvalue, hl⟩
  · rw [hchars, hreread]
    simp [value?]
  · rw [hreread]
    exact value?_of_literal? (hl rest hrest) hvalue

/-- A value starts with something that is neither a blank nor a closing bracket. -/
theorem exists_chars_eq_cons {v : Json Number} {depth : Nat} (hfits : v.Fits depth) :
    ∃ c tail, v.chars = c :: tail ∧ isBlank c = false ∧ c ≠ ']' := by
  cases v with
  | null => exact ⟨_, _, rfl, rfl, by decide⟩
  | bool b => cases b <;> exact ⟨_, _, rfl, rfl, by decide⟩
  | number n =>
    rcases Number.reread_cases hfits with ⟨hchars, -⟩ | ⟨l, k, -, -, hl⟩
    · exact ⟨_, _, hchars, rfl, by decide⟩
    · obtain ⟨c, tail, hc, hstart⟩ := exists_cons_of_literal? (hl [] (by rintro _ _ ⟨⟩))
      rw [List.append_nil] at hc
      refine ⟨c, tail, hc, ?_, ?_⟩
      · simp only [isBlank, Bool.or_eq_false_iff, beq_eq_false_iff_ne]
        refine ⟨⟨⟨?_, ?_⟩, ?_⟩, ?_⟩ <;> (rintro rfl; exact absurd hstart (by decide))
      · rintro rfl
        exact absurd hstart (by decide)
  | string s => exact ⟨_, _, rfl, rfl, by decide⟩
  | array vs => cases vs <;> exact ⟨_, _, rfl, rfl, by decide⟩
  | object ms =>
    cases ms with
    | nil => exact ⟨_, _, rfl, rfl, by decide⟩
    | cons m ms => exact ⟨_, _, rfl, rfl, by decide⟩

theorem skipBlanks_cons {c : Char} (hc : isBlank c = false) (cs : List Char) :
    skipBlanks (c :: cs) = c :: cs := by
  rw [skipBlanks, List.dropWhile_cons_of_neg]
  rw [hc]
  exact Bool.false_ne_true

theorem skipBlanks_chars {v : Json Number} {depth : Nat} (hfits : v.Fits depth)
    (rest : List Char) : skipBlanks (v.chars ++ rest) = v.chars ++ rest := by
  obtain ⟨c, tail, hc, hblank, -⟩ := exists_chars_eq_cons hfits
  rw [hc, List.cons_append, skipBlanks_cons hblank]

theorem skipBlanks_quoted (s : String) (rest : List Char) :
    skipBlanks (quoted s ++ rest) = quoted s ++ rest := skipBlanks_cons rfl _

theorem endsNumber_cons {c : Char} (cs : List Char)
    (hc : c.isDigit = false ∧ c ≠ '.' ∧ c ≠ 'e' ∧ c ≠ 'E') : EndsNumber (c :: cs) := by
  rintro _ _ ⟨⟩
  exact hc

theorem endsNumber_elementChars (vs : List (Json Number)) (rest : List Char) :
    EndsNumber (elementChars vs ++ rest) := by
  cases vs <;> exact endsNumber_cons _ (by decide)

theorem endsNumber_memberChars (ms : List (String × Json Number)) (rest : List Char) :
    EndsNumber (memberChars ms ++ rest) := by
  rcases ms with _ | ⟨⟨k, v⟩, ms⟩ <;> exact endsNumber_cons _ (by decide)

/-! ### Structure -/

variable {number? : Literal → Option Number} {fuel depth : Nat} {rest : List Char}

theorem value?_array {cs : List Char} (hcs : skipBlanks cs = cs)
    (hclose : ∀ tail, cs ≠ ']' :: tail) :
    value? number? (fuel + 1) (depth + 1) ('[' :: cs) =
      (elements? number? fuel depth cs).map fun p => (array p.1, p.2) := by
  simp [value?, hcs]

theorem value?_object {cs : List Char} (hcs : skipBlanks cs = cs)
    (hclose : ∀ tail, cs ≠ '\x7d' :: tail) :
    value? number? (fuel + 1) (depth + 1) ('\x7b' :: cs) =
      (members? number? fuel depth cs).map fun p => (object p.1, p.2) := by
  simp [value?, hcs]

theorem elements?_last {v : Json Number} {cs : List Char}
    (hv : value? number? fuel depth cs = some (v, ']' :: rest)) :
    elements? number? (fuel + 1) depth cs = some ([v], rest) := by
  simp only [elements?, hv]
  rw [skipBlanks_cons rfl]
  rfl

theorem elements?_more {v : Json Number} {cs more : List Char}
    (hv : value? number? fuel depth cs = some (v, ',' :: more)) :
    elements? number? (fuel + 1) depth cs =
      (elements? number? fuel depth (skipBlanks more)).map fun p => (v :: p.1, p.2) := by
  simp only [elements?, hv]
  rw [skipBlanks_cons rfl]
  rfl

theorem members?_last (k : String) {v : Json Number} {cs : List Char} (hcs : skipBlanks cs = cs)
    (hv : value? number? fuel depth cs = some (v, '\x7d' :: rest)) :
    members? number? (fuel + 1) depth (quoted k ++ ':' :: cs) = some ([(k, v)], rest) := by
  rw [text?_quoted]
  simp only [members?, text?_escaped]
  rw [skipBlanks_cons rfl]
  simp only [hcs, hv, String.ofList_toList]
  rw [skipBlanks_cons rfl]
  rfl

theorem members?_more (k : String) {v : Json Number} {cs more : List Char}
    (hcs : skipBlanks cs = cs) (hv : value? number? fuel depth cs = some (v, ',' :: more)) :
    members? number? (fuel + 1) depth (quoted k ++ ':' :: cs) =
      (members? number? fuel depth (skipBlanks more)).map fun p => ((k, v) :: p.1, p.2) := by
  rw [text?_quoted]
  simp only [members?, text?_escaped]
  rw [skipBlanks_cons rfl]
  simp only [hcs, hv, String.ofList_toList]
  rw [skipBlanks_cons rfl]
  rfl

/-- With some fuel everything is read back that is short enough. -/
structure Reads (fuel : Nat) : Prop where
  /-- A value is. -/
  value : ∀ (v : Json Number) {depth : Nat} {rest : List Char}, v.Fits depth →
    2 * v.chars.length ≤ fuel → EndsNumber rest →
    value? Literal.value? fuel depth (v.chars ++ rest) = some (v.reread, rest)
  /-- The elements of an array are. -/
  elements : ∀ (v : Json Number) (vs : List (Json Number)) (rest : List Char) {depth : Nat},
    FitsElements (v :: vs) depth → 2 * (v.chars ++ elementChars vs).length < fuel →
    elements? Literal.value? fuel depth (v.chars ++ (elementChars vs ++ rest)) =
      some (rereadElements (v :: vs), rest)
  /-- The members of an object are. -/
  members : ∀ (k : String) (v : Json Number) (ms : List (String × Json Number)) (rest : List Char)
    {depth : Nat}, FitsMembers ((k, v) :: ms) depth →
    2 * (quoted k ++ ':' :: (v.chars ++ memberChars ms)).length < fuel →
    members? Literal.value? fuel depth
      (quoted k ++ ':' :: (v.chars ++ (memberChars ms ++ rest))) =
      some (rereadMembers ((k, v) :: ms), rest)

theorem Reads.value_succ (h : Reads fuel) (v : Json Number) (hfits : v.Fits depth)
    (hfuel : 2 * v.chars.length ≤ fuel + 1) (hrest : EndsNumber rest) :
    value? Literal.value? (fuel + 1) depth (v.chars ++ rest) = some (v.reread, rest) := by
  cases v with
  | null => simp [chars, value?, reread]
  | bool b => cases b <;> simp [chars, value?, reread]
  | number n => exact Number.value?_chars hfits hrest
  | string s =>
    rw [chars, text?_quoted]
    simp [value?, text?_escaped, reread]
  | array vs =>
    obtain ⟨hdepth, helements⟩ := hfits
    obtain ⟨depth, rfl⟩ : ∃ n, depth = n + 1 := ⟨depth - 1, by omega⟩
    cases vs with
    | nil => simp [chars, value?, reread, rereadElements, skipBlanks, isBlank]
    | cons v vs =>
      rw [chars, List.length_cons] at hfuel
      have hread := h.elements v vs rest helements (by omega)
      have hclose : ∀ tail, v.chars ++ (elementChars vs ++ rest) ≠ ']' :: tail := by
        obtain ⟨c, cs, hc, -, hne⟩ := exists_chars_eq_cons helements.1
        intro tail heq
        rw [hc] at heq
        exact hne (List.cons.inj heq).1
      rw [chars, List.cons_append, List.append_assoc,
        value?_array (skipBlanks_chars helements.1 _) hclose]
      exact congrArg (Option.map _) hread
  | object ms =>
    obtain ⟨hdepth, hmembers⟩ := hfits
    obtain ⟨depth, rfl⟩ : ∃ n, depth = n + 1 := ⟨depth - 1, by omega⟩
    rcases ms with _ | ⟨⟨k, v⟩, ms⟩
    · simp [chars, value?, reread, rereadMembers, skipBlanks, isBlank]
    · rw [chars, List.length_cons] at hfuel
      have hread := h.members k v ms rest hmembers (by omega)
      rw [chars, List.cons_append, List.append_assoc, List.cons_append, List.append_assoc,
        value?_object (skipBlanks_quoted k _) (fun tail heq => absurd heq (by rintro ⟨⟩))]
      exact congrArg (Option.map _) hread

theorem Reads.elements_succ (h : Reads fuel) (v : Json Number) (vs : List (Json Number))
    (hfits : FitsElements (v :: vs) depth)
    (hfuel : 2 * (v.chars ++ elementChars vs).length < fuel + 1) :
    elements? Literal.value? (fuel + 1) depth (v.chars ++ (elementChars vs ++ rest)) =
      some (rereadElements (v :: vs), rest) := by
  rw [List.length_append] at hfuel
  have hread := h.value v hfits.1 (by omega) (endsNumber_elementChars vs rest)
  cases vs with
  | nil => exact elements?_last hread
  | cons w ws =>
    rw [elementChars, List.length_cons] at hfuel
    have hmore := h.elements w ws rest hfits.2 (by omega)
    rw [elementChars, List.cons_append, List.append_assoc] at hread ⊢
    rw [elements?_more hread, skipBlanks_chars hfits.2.1, hmore]
    rfl

theorem Reads.members_succ (h : Reads fuel) (k : String) (v : Json Number)
    (ms : List (String × Json Number)) (hfits : FitsMembers ((k, v) :: ms) depth)
    (hfuel : 2 * (quoted k ++ ':' :: (v.chars ++ memberChars ms)).length < fuel + 1) :
    members? Literal.value? (fuel + 1) depth
      (quoted k ++ ':' :: (v.chars ++ (memberChars ms ++ rest))) =
      some (rereadMembers ((k, v) :: ms), rest) := by
  rw [List.length_append, List.length_cons, List.length_append] at hfuel
  have hread := h.value v hfits.1 (by omega) (endsNumber_memberChars ms rest)
  have hblanks := skipBlanks_chars hfits.1 (memberChars ms ++ rest)
  rcases ms with _ | ⟨⟨k', w⟩, ws⟩
  · exact members?_last k hblanks hread
  · rw [memberChars, List.length_cons] at hfuel
    have hmore := h.members k' w ws rest hfits.2 (by omega)
    rw [memberChars, List.cons_append, List.append_assoc, List.cons_append,
      List.append_assoc] at hread hblanks ⊢
    rw [members?_more k hblanks hread, skipBlanks_quoted, hmore]
    rfl

theorem reads (fuel : Nat) : Reads fuel := by
  induction fuel with
  | zero =>
    refine ⟨?_, fun v vs rest depth _ hfuel => by omega, fun k v ms rest depth _ hfuel => by omega⟩
    intro v depth rest hfits hfuel
    obtain ⟨c, tail, hc, -⟩ := exists_chars_eq_cons hfits
    rw [hc, List.length_cons] at hfuel
    omega
  | succ fuel ih =>
    exact ⟨fun v _ _ => ih.value_succ v, fun v vs _ _ => ih.elements_succ v vs,
      fun k v ms _ _ => ih.members_succ k v ms⟩

/-! ### Lines -/

/-- A character that is not a control character. -/
def Visible (c : Char) : Prop := 0x20 ≤ c.toNat

instance (c : Char) : Decidable (Visible c) := inferInstanceAs (Decidable (_ ≤ _))

theorem visible_of_all {cs : List Char} (h : cs.all (fun c => decide (Visible c)) = true) :
    ∀ c ∈ cs, Visible c := fun c hc => of_decide_eq_true (List.all_eq_true.mp h c hc)

theorem visible_of_isDigit {c : Char} (h : c.isDigit = true) : Visible c := by
  have hle : 48 ≤ c.toNat := by
    rw [Char.isDigit, Bool.and_eq_true_iff] at h
    exact of_decide_eq_true h.1
  exact Nat.le_trans (by decide) hle

theorem visible_digitChars (n : Nat) : ∀ c ∈ Decimal.digitChars n, Visible c :=
  fun _ hc => visible_of_isDigit (Decimal.isDigit_of_mem_digitChars hc)

theorem visible_zeros (n : Nat) : ∀ c ∈ List.replicate n '0', Visible c := by
  intro c hc
  rw [List.eq_of_mem_replicate hc]
  decide

theorem visible_positional (d : Decimal) : ∀ c ∈ d.positional true, Visible c := by
  unfold Decimal.positional
  dsimp only
  split
  · rw [List.forall_mem_append, List.forall_mem_append]
    exact ⟨⟨visible_digitChars _, visible_zeros _⟩, visible_of_all rfl⟩
  · have hall : ∀ c ∈ List.replicate ((-d.exponent).toNat + 1 -
        (Decimal.digitChars d.digits).length) '0' ++ Decimal.digitChars d.digits, Visible c :=
      List.forall_mem_append.mpr ⟨visible_zeros _, visible_digitChars _⟩
    rw [List.forall_mem_append, List.forall_mem_cons]
    exact ⟨fun c hc => hall c (List.mem_of_mem_take hc), by decide,
      fun c hc => hall c (List.mem_of_mem_drop hc)⟩

theorem visible_scientific (d : Decimal) : ∀ c ∈ d.scientific true, Visible c := by
  have hdigits := visible_digitChars d.digits
  unfold Decimal.scientific
  dsimp only
  rw [List.forall_mem_append, List.forall_mem_append]
  refine ⟨⟨?_, ?_⟩, visible_digitChars _⟩
  · generalize Decimal.digitChars d.digits = ds at hdigits
    split
    · exact List.forall_mem_nil _
    · exact hdigits
    · rw [List.forall_mem_cons] at hdigits ⊢
      exact ⟨hdigits.1, List.forall_mem_cons.mpr ⟨by decide, hdigits.2⟩⟩
  · split <;> exact visible_of_all rfl

theorem visible_render (d : Decimal) : ∀ c ∈ d.render layout, Visible c := by
  change ∀ c ∈ (if -5 ≤ d.leading ∧ d.leading ≤ 15 then d.positional true
    else d.scientific true), Visible c
  split
  · exact visible_positional d
  · exact visible_scientific d

theorem visible_sign (negative : Bool) : ∀ c ∈ Binary64.sign negative, Visible c := by
  cases negative <;> exact visible_of_all rfl

theorem Number.visible_chars (n : Number) : ∀ c ∈ n.chars, Visible c := by
  cases n with
  | integer n => exact List.forall_mem_append.mpr ⟨visible_sign _, visible_digitChars _⟩
  | double x =>
    unfold Number.chars renderChars
    dsimp only
    split
    · exact visible_of_all rfl
    · exact visible_of_all rfl
    · exact visible_of_all rfl
    · exact List.forall_mem_append.mpr ⟨visible_sign _, visible_render _⟩
    · exact List.forall_mem_append.mpr ⟨visible_sign _, visible_render _⟩

theorem visible_escape (c : Char) : ∀ d ∈ escape c, Visible d := by
  have hhex : ∀ n < 16, Visible (hexDigit n) := by decide
  unfold escape
  split
  · exact visible_of_all rfl
  split
  · exact visible_of_all rfl
  split
  · exact visible_of_all rfl
  split
  · exact visible_of_all rfl
  split
  · exact visible_of_all rfl
  split
  · exact visible_of_all rfl
  split
  · exact visible_of_all rfl
  split
  case isTrue hcontrol =>
    simp only [List.forall_mem_cons]
    exact ⟨by decide, by decide, by decide, by decide, hhex _ (by omega), hhex _ (by omega),
      List.forall_mem_nil _⟩
  case isFalse hcontrol =>
    rw [List.forall_mem_singleton]
    exact Nat.le_of_not_lt hcontrol

theorem visible_quoted (s : String) : ∀ c ∈ quoted s, Visible c := by
  rw [quoted, List.forall_mem_cons, List.forall_mem_append, List.forall_mem_flatMap]
  exact ⟨by decide, fun c _ => visible_escape c, visible_of_all rfl⟩

mutual

/-- **A value stands on one line**: there is no control character in it. -/
theorem visible_chars : ∀ (v : Json Number), ∀ c ∈ v.chars, Visible c
  | null => visible_of_all rfl
  | bool true => visible_of_all rfl
  | bool false => visible_of_all rfl
  | number n => n.visible_chars
  | string s => visible_quoted s
  | array [] => visible_of_all rfl
  | array (v :: rest) =>
    List.forall_mem_cons.mpr ⟨by decide,
      List.forall_mem_append.mpr ⟨visible_chars v, visible_elementChars rest⟩⟩
  | object [] => visible_of_all rfl
  | object ((k, v) :: rest) =>
    List.forall_mem_cons.mpr ⟨by decide, List.forall_mem_append.mpr ⟨visible_quoted k,
      List.forall_mem_cons.mpr ⟨by decide,
        List.forall_mem_append.mpr ⟨visible_chars v, visible_memberChars rest⟩⟩⟩⟩

theorem visible_elementChars : ∀ (vs : List (Json Number)), ∀ c ∈ elementChars vs, Visible c
  | [] => visible_of_all rfl
  | v :: rest =>
    List.forall_mem_cons.mpr ⟨by decide,
      List.forall_mem_append.mpr ⟨visible_chars v, visible_elementChars rest⟩⟩

theorem visible_memberChars : ∀ (ms : List (String × Json Number)), ∀ c ∈ memberChars ms, Visible c
  | [] => visible_of_all rfl
  | (k, v) :: rest =>
    List.forall_mem_cons.mpr ⟨by decide, List.forall_mem_append.mpr ⟨visible_quoted k,
      List.forall_mem_cons.mpr ⟨by decide,
        List.forall_mem_append.mpr ⟨visible_chars v, visible_memberChars rest⟩⟩⟩⟩

end

/-- **A line is read back**: the line break behind the value is a blank. -/
theorem ofChars?_line {v : Json Number} (hfits : v.Fits greatestDepth) :
    ofChars? Literal.value? (v.chars ++ ['\n']) = some v.reread := by
  have hread := (reads (2 * (v.chars ++ ['\n']).length + 1)).value v hfits
    (by rw [List.length_append]; omega) (endsNumber_cons (c := '\n') [] (by decide))
  unfold ofChars?
  rw [skipBlanks_chars hfits, hread]
  rfl

end StagedLoad.Json
