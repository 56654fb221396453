import Mathlib.Algebra.GroupWithZero.Nat
import StagedLoad.Proofs.Decimal.Digits
import StagedLoad.Proofs.Url.Domain

/-!
# Addresses are read back

An IPv4 address is written as four decimal numbers and read as a name that ends in a number.  An
IPv6 address is written with a gap in place of its longest run of zeros, and what is read on the
two sides of the gap says how many zeros were left out.

## Main definitions

* `Host.pointed` — decimal numbers with points between them.
* `Host.Words` — eight words of 16 bits.
* `Host.IsZeroRun` — a part of the words that is zero.

## Main results

* `Host.ipv4OfNumbers?_lt`, `Host.ipv6?_words` — what is read has the size of an address.
* `Host.ofName?_ipv4Chars`, `Host.ipv6?_ipv6Chars` — **addresses are read back**.
-/

namespace StagedLoad.Host

/-! ### Digits -/

theorem digit?_digitChar : ∀ base ≤ 16, ∀ d < base, digit? base d.digitChar = some d := by decide

/-- The digits of a number are read back. -/
theorem number?_toDigits {base : Nat} (hbase : 1 < base) (hbase' : base ≤ 16) (n : Nat) :
    number? base (Nat.toDigits base n) = some n := by
  induction n using Nat.strongRecOn with
  | _ n ih =>
    unfold number? at *
    rcases Nat.lt_or_ge n base with hlt | hge
    · rw [Nat.toDigits_of_lt_base hlt, List.foldlM_cons, digit?_digitChar base hbase' n hlt]
      simp
    · have hdiv : n / base < n := Nat.div_lt_self (by omega) hbase
      have hmod : n % base < base := Nat.mod_lt n (by omega)
      rw [Nat.toDigits_of_base_le hbase hge, List.foldlM_append, ih _ hdiv]
      simp only [Option.bind_eq_bind, Option.bind_some, List.foldlM_cons, List.foldlM_nil,
        digit?_digitChar base hbase' _ hmod, Option.map_some, Option.pure_def]
      rw [Nat.mul_comm, Nat.div_add_mod]

/-- A number is a label of decimal digits: no zero stands in front of them. -/
theorem label?_digitChars (n : Nat) : label? (Decimal.digitChars n) = some n := by
  rcases Nat.eq_zero_or_pos n with rfl | hn
  · rfl
  · obtain ⟨c, cs, hcs⟩ := Decimal.exists_digitChars_eq_cons n
    have hc := Decimal.head_digitChars_ne hn hcs
    have hread : number? 10 (Decimal.digitChars n) = some n :=
      number?_toDigits (by decide) (by decide) n
    rw [hcs]
    rw [hcs] at hread
    unfold label?
    split <;> simp_all

/-! ### IPv4 addresses -/

/-- The number of IPv4 addresses. -/
def addresses : Nat := 4294967296

/-- Up to four numbers make up an address. -/
theorem sum_lt {p : Nat → Nat} (hpow : p 1 = 256 ∧ p 2 = 65536 ∧ p 3 = 16777216 ∧ p 4 = 4294967296)
    {last : Nat} {firsts : List Nat} (hlength : firsts.length ≤ 3) (hsmall : ∀ n ∈ firsts, n ≤ 255)
    (hlast : last < p (4 - firsts.length)) :
    firsts.reverse.zipIdx.foldl (fun acc (n, i) => acc + n * p (3 - i)) last < addresses := by
  have hterm : ∀ n ∈ firsts, ∀ k, n * p k ≤ 255 * p k := fun n hn k =>
    Nat.mul_le_mul_right _ (hsmall n hn)
  obtain ⟨h1, h2, h3, h4⟩ := hpow
  unfold addresses
  match firsts with
  | [] =>
    change last < p 4 at hlast
    change last < 4294967296
    omega
  | [b] =>
    change last < p 3 at hlast
    change last + b * p 3 < 4294967296
    have hb := hterm b (by simp) 3
    omega
  | [c, b] =>
    change last < p 2 at hlast
    change last + b * p 3 + c * p 2 < 4294967296
    have hb := hterm b (by simp) 3
    have hc := hterm c (by simp) 2
    omega
  | [d, c, b] =>
    change last < p 1 at hlast
    change last + b * p 3 + c * p 2 + d * p 1 < 4294967296
    have hb := hterm b (by simp) 3
    have hc := hterm c (by simp) 2
    have hd := hterm d (by simp) 1
    omega
  | _ :: _ :: _ :: _ :: _ => exact absurd hlength (by simp)

theorem ipv4OfNumbers?_lt {ns : List Nat} {a : Nat} (h : ipv4OfNumbers? ns = some a) :
    a < addresses := by
  unfold ipv4OfNumbers? at h
  split at h
  · cases h
  split at h
  · cases h
  case h_2 last firsts _ hok =>
    simp only [not_or, Bool.not_eq_true, List.any_eq_false, decide_eq_true_eq, Nat.not_lt] at hok
    obtain ⟨hlength, hsmall, hlast⟩ := hok
    cases h
    exact sum_lt ⟨rfl, rfl, rfl, rfl⟩ hlength hsmall (Nat.lt_of_not_le hlast)

theorem ipv4OfNumbers?_bytes {b c d e : Nat} (hb : b < 256) (hc : c < 256) (hd : d < 256)
    (he : e < 256) : ipv4OfNumbers? [b, c, d, e] =
      some (e + b * Nat.pow 256 3 + c * Nat.pow 256 2 + d * Nat.pow 256 1) := by
  have hok : ¬ ([d, c, b].length > 3 ∨ [d, c, b].any (· > 255) ∨
      Nat.pow 256 (4 - [d, c, b].length) ≤ e) := by
    rw [not_or, not_or]
    refine ⟨by simp, ?_, Nat.not_le.mpr he⟩
    simp
    omega
  exact if_neg hok

theorem sum_bytes {p : Nat → Nat} (hpow : p 1 = 256 ∧ p 2 = 65536 ∧ p 3 = 16777216) {a : Nat}
    (ha : a < addresses) : a % 256 + a / p 3 % 256 * p 3 + a / p 2 % 256 * p 2 +
      a / p 1 % 256 * p 1 = a := by
  obtain ⟨h1, h2, h3⟩ := hpow
  rw [h1, h2, h3]
  unfold addresses at ha
  omega

theorem readable_of_isDigit {c : Char} (h : c.isDigit = true) :
    Canonical c ∧ isForbiddenInDomain c = false := by
  have hplain : Bytes.Plain c := by
    rw [Char.isDigit, Bool.and_eq_true_iff] at h
    exact Nat.lt_of_le_of_lt (of_decide_eq_true h.2) (by decide)
  revert h
  exact Bytes.Plain.forall (p := fun c => c.isDigit = true →
    Canonical c ∧ isForbiddenInDomain c = false) (by decide) hplain

/-- Numbers with points between them. -/
def pointed (ns : List Nat) : List Char := ['.'].intercalate (ns.map Decimal.digitChars)

theorem ipv4Chars_eq (a : Nat) : ipv4Chars a =
    pointed [a / Nat.pow 256 3 % 256, a / Nat.pow 256 2 % 256, a / Nat.pow 256 1 % 256,
      a / Nat.pow 256 0 % 256] := rfl

theorem mem_pointed {ns : List Nat} : ∀ c ∈ pointed ns, c = '.' ∨ c.isDigit = true := by
  refine forall_mem_intercalate (Bytes.forall_mem_of_all (by decide)) fun l hl c hc => .inr ?_
  obtain ⟨n, -, rfl⟩ := List.mem_map.mp hl
  exact Decimal.isDigit_of_mem_digitChars hc

theorem pointed_ne_nil {ns : List Nat} (hns : ns ≠ []) : pointed ns ≠ [] := by
  match ns with
  | [] => exact absurd rfl hns
  | [n] =>
    rw [pointed, List.map_singleton, List.intercalate_singleton]
    exact Nat.toDigits_ne_nil
  | n :: n' :: ns =>
    rw [pointed, List.map_cons, List.map_cons, List.intercalate_cons_cons]
    simp

theorem readable_pointed {ns : List Nat} (hns : ns ≠ []) : Readable (pointed ns) where
  nonempty := pointed_ne_nil hns
  canonical c hc := by
    rcases mem_pointed c hc with rfl | hdigit
    · decide
    · exact (readable_of_isDigit hdigit).1
  allowed c hc := by
    rcases mem_pointed c hc with rfl | hdigit
    · decide
    · exact (readable_of_isDigit hdigit).2

theorem readable_ipv4Chars (a : Nat) : Readable (ipv4Chars a) := by
  rw [ipv4Chars_eq]
  exact readable_pointed (List.cons_ne_nil _ _)

theorem labels_pointed {ns : List Nat} (hns : ns ≠ []) :
    labels (pointed ns) = ns.map Decimal.digitChars := by
  have hsplit : splitAt '.' (pointed ns) = ns.map Decimal.digitChars := by
    rw [splitAt_eq, pointed, List.splitOn_intercalate '.' _ (mt List.map_eq_nil_iff.mp hns)]
    intro l hl hdot
    obtain ⟨n, -, rfl⟩ := List.mem_map.mp hl
    exact absurd (Decimal.isDigit_of_mem_digitChars hdot) (by decide)
  unfold labels
  rw [hsplit]
  split
  case h_1 p rest hlast =>
    -- no number is written without digits
    have hmem : [] ∈ (ns.map Decimal.digitChars).reverse := hlast ▸ List.mem_cons_self
    obtain ⟨n, -, hn⟩ := List.mem_map.mp (List.mem_reverse.mp hmem)
    exact absurd hn Nat.toDigits_ne_nil
  case h_2 => exact List.reverse_reverse _

theorem endsInNumber_pointed (ns : List Nat) (n : Nat) :
    endsInNumber (pointed (ns ++ [n])) = true := by
  have hdigits : (Decimal.digitChars n).all Char.isDigit = true :=
    List.all_eq_true.mpr fun c => Decimal.isDigit_of_mem_digitChars
  have hne : (Decimal.digitChars n).isEmpty = false :=
    List.isEmpty_eq_false_iff.mpr Nat.toDigits_ne_nil
  unfold endsInNumber
  rw [labels_pointed (List.concat_ne_nil n ns), List.map_append, List.map_singleton,
    List.getLast?_concat]
  simp only [hdigits, hne, Bool.not_false, Bool.and_self, Bool.true_or]

theorem ipv4?_pointed {ns : List Nat} (hns : ns ≠ []) : ipv4? (pointed ns) = ipv4OfNumbers? ns := by
  have hlabels : ∀ ns : List Nat, (ns.map Decimal.digitChars).mapM label? = some ns := by
    intro ns
    induction ns with
    | nil => rfl
    | cons n ns ih =>
      rw [List.map_cons, List.mapM_cons, label?_digitChars, ih]
      rfl
  rw [ipv4?, labels_pointed hns, hlabels]
  rfl

/-- **IPv4 addresses are read back.** -/
theorem ofName?_ipv4Chars {a : Nat} (ha : a < addresses) :
    ofName? (ipv4Chars a) = some (ipv4 a) := by
  have hbyte (n : Nat) : n % 256 < 256 := Nat.mod_lt n (by decide)
  have hread : ipv4? (ipv4Chars a) = some a := by
    rw [ipv4Chars_eq, ipv4?_pointed (List.cons_ne_nil _ _),
      ipv4OfNumbers?_bytes (hbyte _) (hbyte _) (hbyte _) (hbyte _)]
    have hlow : a / Nat.pow 256 0 = a := Nat.div_one a
    rw [hlow, sum_bytes ⟨rfl, rfl, rfl⟩ ha]
  have hlast : endsInNumber (ipv4Chars a) = true := endsInNumber_pointed
    [a / Nat.pow 256 3 % 256, a / Nat.pow 256 2 % 256, a / Nat.pow 256 1 % 256] _
  rw [ofName?, if_pos hlast, hread]
  rfl

/-! ### The words of an IPv6 address -/

/-- The number of values of a word. -/
def wordValues : Nat := 65536

/-- Eight words of 16 bits. -/
structure Words (ws : List Nat) : Prop where
  /-- There are eight. -/
  length : ws.length = 8
  /-- Each has 16 bits. -/
  lt : ∀ w ∈ ws, w < wordValues

theorem number?_lt {base n : Nat} {cs : List Char} (h : number? base cs = some n) :
    n < base ^ cs.length := by
  have hstep : ∀ (cs : List Char) (acc : Nat),
      cs.foldlM (fun acc c => (digit? base c).map (acc * base + ·)) acc = some n →
        n < (acc + 1) * base ^ cs.length := by
    intro cs
    induction cs with
    | nil =>
      intro acc h
      cases h
      simp
    | cons c cs ih =>
      intro acc h
      rw [List.foldlM_cons] at h
      obtain ⟨m, hm, hrest⟩ := Option.bind_eq_some_iff.mp h
      obtain ⟨d, hd, rfl⟩ := Option.map_eq_some_iff.mp hm
      have hlt : d < base := by
        unfold digit? at hd
        split at hd
        · split at hd
          · cases hd
            assumption
          · cases hd
        · cases hd
      refine Nat.lt_of_lt_of_le (ih _ hrest) ?_
      rw [List.length_cons, Nat.pow_succ', ← Nat.mul_assoc]
      refine Nat.mul_le_mul_right _ ?_
      rw [Nat.add_mul]
      omega
  simpa using hstep cs 0 h

theorem word?_lt {cs : List Char} {w : Nat} (h : word? cs = some w) : w < wordValues := by
  unfold word? at h
  split at h
  · cases h
  case isFalse hlength =>
    have hle : cs.length ≤ 4 := by omega
    exact Nat.lt_of_lt_of_le (number?_lt h) (Nat.pow_le_pow_right (by decide) hle)

theorem byte?_lt {cs : List Char} {n : Nat} (h : byte? cs = some n) : n < 256 := by
  unfold byte? at h
  split at h
  · cases h
  · cases h
  · obtain ⟨m, -, hm⟩ := Option.bind_eq_some_iff.mp h
    split at hm
    · cases hm
      assumption
    · cases hm

theorem lt_of_mapM_byte? {ps : List (List Char)} {ns : List Nat} (h : ps.mapM byte? = some ns) :
    ∀ n ∈ ns, n < 256 := by
  induction ps generalizing ns with
  | nil => cases h; exact List.forall_mem_nil _
  | cons p ps ih =>
    rw [List.mapM_cons] at h
    obtain ⟨m, hm, h⟩ := Option.bind_eq_some_iff.mp h
    obtain ⟨ms, hms, h⟩ := Option.bind_eq_some_iff.mp h
    cases h
    exact List.forall_mem_cons.mpr ⟨byte?_lt hm, ih hms⟩

theorem dotted?_lt {cs : List Char} {ws : List Nat} (h : dotted? cs = some ws) :
    ∀ w ∈ ws, w < wordValues := by
  unfold dotted? at h
  split at h
  case h_1 a b c d hbytes =>
    have hlt := lt_of_mapM_byte? hbytes
    simp only [List.forall_mem_cons] at hlt
    obtain ⟨ha, hb, hc, hd, -⟩ := hlt
    cases h
    refine List.forall_mem_cons.mpr ⟨?_, List.forall_mem_singleton.mpr ?_⟩ <;>
      (unfold wordValues; omega)
  case h_2 => cases h

theorem words?_lt {ps : List (List Char)} {ws : List Nat} (h : words? ps = some ws) :
    ∀ w ∈ ws, w < wordValues := by
  fun_induction words? ps generalizing ws with
  | case1 => cases h; exact List.forall_mem_nil _
  | case2 p hdot => exact dotted?_lt h
  | case3 p hdot =>
    obtain ⟨w, hw, rfl⟩ := Option.map_eq_some_iff.mp h
    exact List.forall_mem_singleton.mpr (word?_lt hw)
  | case4 p rest hrest ih =>
    obtain ⟨w, hw, h⟩ := Option.bind_eq_some_iff.mp h
    obtain ⟨vs, hvs, h⟩ := Option.bind_eq_some_iff.mp h
    cases h
    exact List.forall_mem_cons.mpr ⟨word?_lt hw, ih hvs⟩

theorem part?_lt {cs : List Char} {ws : List Nat} (h : part? cs = some ws) :
    ∀ w ∈ ws, w < wordValues := by
  unfold part? at h
  split at h
  · cases h
    exact List.forall_mem_nil _
  · exact words?_lt h

theorem ipv6?_words {cs : List Char} {ws : List Nat} (h : ipv6? cs = some ws) : Words ws := by
  unfold ipv6? at h
  split at h
  case h_1 =>
    obtain ⟨vs, hvs, h⟩ := Option.bind_eq_some_iff.mp h
    split at h
    · cases h
      exact ⟨‹_›, part?_lt hvs⟩
    · cases h
  case h_2 l r _ =>
    split at h
    · cases h
    obtain ⟨a, ha, h⟩ := Option.bind_eq_some_iff.mp h
    obtain ⟨b, hb, h⟩ := Option.bind_eq_some_iff.mp h
    split at h
    case isFalse => cases h
    case isTrue hlength =>
      cases h
      refine ⟨?_, ?_⟩
      · simp only [List.length_append, List.length_replicate]
        omega
      · rw [List.forall_mem_append, List.forall_mem_append]
        refine ⟨⟨part?_lt ha, ?_⟩, part?_lt hb⟩
        intro w hw
        rw [List.eq_of_mem_replicate hw]
        decide

/-! ### IPv6 addresses are read back -/

theorem exists_digitChar {n : Nat} : ∀ c ∈ hexChars n, ∃ d < 16, c = d.digitChar := by
  unfold hexChars
  induction n using Nat.strongRecOn with
  | _ n ih =>
    rcases Nat.lt_or_ge n 16 with hlt | hge
    · rw [Nat.toDigits_of_lt_base hlt]
      exact List.forall_mem_singleton.mpr ⟨n, hlt, rfl⟩
    · rw [Nat.toDigits_of_base_le (by decide) hge]
      refine List.forall_mem_append.mpr ⟨ih (n / 16) (by omega), ?_⟩
      exact List.forall_mem_singleton.mpr ⟨n % 16, Nat.mod_lt n (by decide), rfl⟩

/-- What holds of all hexadecimal digits holds of those of a word. -/
theorem forall_mem_hexChars {p : Char → Prop} (hp : ∀ d < 16, p d.digitChar) (n : Nat) :
    ∀ c ∈ hexChars n, p c := by
  intro c hc
  obtain ⟨d, hd, rfl⟩ := exists_digitChar c hc
  exact hp d hd

theorem forall_mem_colonChars {p : Char → Prop} (hp : ∀ d < 16, p d.digitChar) (hcolon : p ':')
    (ws : List Nat) : ∀ c ∈ colonChars ws, p c := by
  refine forall_mem_intercalate (List.forall_mem_singleton.mpr hcolon) fun l hl => ?_
  obtain ⟨w, -, rfl⟩ := List.mem_map.mp hl
  exact forall_mem_hexChars hp w

theorem word?_hexChars {w : Nat} (hw : w < wordValues) : word? (hexChars w) = some w := by
  have hlength : (hexChars w).length ≤ 4 :=
    (Nat.length_toDigits_le_iff (by decide) (by decide)).mpr hw
  have hne : (hexChars w).isEmpty = false := List.isEmpty_eq_false_iff.mpr Nat.toDigits_ne_nil
  rw [word?, if_neg, hexChars, number?_toDigits (by decide) (by decide)]
  rw [hne]
  simp only [Bool.false_eq_true, false_or]
  omega

theorem words?_hexChars {ws : List Nat} (hws : ∀ w ∈ ws, w < wordValues) :
    words? (ws.map hexChars) = some ws := by
  induction ws with
  | nil => rfl
  | cons w ws ih =>
    rw [List.forall_mem_cons] at hws
    cases ws with
    | nil =>
      have hdot : (hexChars w).contains '.' = false := by
        rw [Bool.eq_false_iff, ne_eq, List.contains_iff_mem]
        exact fun hmem => forall_mem_hexChars (p := (· ≠ '.')) (by decide) w _ hmem rfl
      simp only [List.map_cons, List.map_nil, words?, hdot, word?_hexChars hws.1]
      rfl
    | cons w' ws =>
      simp only [List.map_cons, words?, word?_hexChars hws.1]
      rw [← List.map_cons, ih hws.2]
      rfl

@[simp] theorem colonChars_singleton (w : Nat) : colonChars [w] = hexChars w :=
  List.intercalate_singleton

theorem colonChars_cons_cons (w w' : Nat) (ws : List Nat) :
    colonChars (w :: w' :: ws) = hexChars w ++ ':' :: colonChars (w' :: ws) := by
  unfold colonChars
  rw [List.map_cons, List.map_cons, List.intercalate_cons_cons, ← List.map_cons]
  simp

/-- Words start with a digit. -/
theorem exists_colonChars_eq_cons (w : Nat) (ws : List Nat) :
    ∃ c cs, colonChars (w :: ws) = c :: cs ∧ c ≠ ':' := by
  obtain ⟨c, cs, hcs⟩ : ∃ c cs, hexChars w = c :: cs :=
    List.exists_cons_of_ne_nil Nat.toDigits_ne_nil
  have hc : c ≠ ':' :=
    forall_mem_hexChars (p := (· ≠ ':')) (by decide) w c (hcs ▸ List.mem_cons_self)
  cases ws with
  | nil => exact ⟨c, cs, by rw [colonChars_singleton, hcs], hc⟩
  | cons w' ws =>
    refine ⟨c, cs ++ ':' :: colonChars (w' :: ws), ?_, hc⟩
    rw [colonChars_cons_cons, hcs, List.cons_append]

theorem splitAt_colonChars {ws : List Nat} (hws : ws ≠ []) :
    splitAt ':' (colonChars ws) = ws.map hexChars := by
  rw [splitAt_eq, colonChars, List.splitOn_intercalate ':' _ (mt List.map_eq_nil_iff.mp hws)]
  intro l hl hcolon
  obtain ⟨n, -, rfl⟩ := List.mem_map.mp hl
  exact forall_mem_hexChars (p := (· ≠ ':')) (by decide) n _ hcolon rfl

theorem part?_colonChars {ws : List Nat} (hws : ∀ w ∈ ws, w < wordValues) :
    part? (colonChars ws) = some ws := by
  cases ws with
  | nil => rfl
  | cons w ws =>
    obtain ⟨c, cs, hcs, -⟩ := exists_colonChars_eq_cons w ws
    have hne : (colonChars (w :: ws)).isEmpty = false := by rw [hcs]; rfl
    rw [part?, hne, splitAt_colonChars (List.cons_ne_nil w ws)]
    exact words?_hexChars hws

theorem splitGap_cons {c : Char} {rest : List Char} (h : c = ':' → ∀ r, rest ≠ ':' :: r) :
    splitGap (c :: rest) = (splitGap rest).map fun (a, b) => (c :: a, b) :=
  splitGap.eq_2 c rest fun r hc hr => h hc r hr

/-- A double colon begins with a colon. -/
theorem splitGap_append {l : List Char} (hl : ∀ c ∈ l, c ≠ ':') (rest : List Char) :
    splitGap (l ++ rest) = (splitGap rest).map fun (a, b) => (l ++ a, b) := by
  induction l with
  | nil => simp
  | cons c l ih =>
    rw [List.forall_mem_cons] at hl
    rw [List.cons_append, splitGap_cons (fun hc => absurd hc hl.1), ih hl.2, Option.map_map]
    rfl

/-- There are no double colons between words. -/
theorem splitGap_colonChars (ws : List Nat) (rest : List Char) :
    splitGap (colonChars ws ++ rest) =
      (splitGap rest).map fun (a, b) => (colonChars ws ++ a, b) := by
  induction ws with
  | nil => simp [colonChars]
  | cons w ws ih =>
    have hw := forall_mem_hexChars (p := (· ≠ ':')) (by decide) w
    cases ws with
    | nil => rw [colonChars_singleton, splitGap_append hw]
    | cons w' ws =>
      obtain ⟨c, cs, hcs, hc⟩ := exists_colonChars_eq_cons w' ws
      rw [colonChars_cons_cons, List.append_assoc, List.cons_append, splitGap_append hw,
        splitGap_cons, ih, Option.map_map, Option.map_map]
      · simp [Function.comp_def]
      · intro _ r hr
        rw [hcs, List.cons_append, List.cons.injEq] at hr
        exact hc hr.1

theorem zeroRun_spec (ws : List Nat) :
    zeroRun ws ≤ ws.length ∧ ws.take (zeroRun ws) = List.replicate (zeroRun ws) 0 := by
  have hzeros := List.takeWhile_prefix (l := ws) (· == 0)
  refine ⟨hzeros.length_le, ?_⟩
  unfold zeroRun
  rw [← List.prefix_iff_eq_take.mp hzeros, List.eq_replicate_iff]
  refine ⟨rfl, fun w hw => ?_⟩
  have hall := List.all_eq_true.mp (List.all_takeWhile (p := (· == 0)) (l := ws)) w hw
  exact beq_iff_eq.mp hall

/-- Some words in a row are zero: where they start, and how many they are. -/
structure IsZeroRun (ws : List Nat) (run : Nat × Nat) : Prop where
  /-- They are words of the address. -/
  bound : run.1 + run.2 ≤ ws.length
  /-- They are zero. -/
  zeros : (ws.drop run.1).take run.2 = List.replicate run.2 0

theorem isZeroRun_longestZeroRun (ws : List Nat) : IsZeroRun ws (longestZeroRun ws) := by
  have hfold : ∀ (is : List Nat) (best : Nat × Nat), (∀ i ∈ is, i < ws.length) →
      IsZeroRun ws best → IsZeroRun ws (is.foldl (fun best i =>
        let n := zeroRun (ws.drop i)
        if best.2 < n then (i, n) else best) best) := by
    intro is
    induction is with
    | nil => exact fun _ _ h => h
    | cons i is ih =>
      intro best hlt hbest
      rw [List.forall_mem_cons] at hlt
      rw [List.foldl_cons]
      refine ih _ hlt.2 ?_
      dsimp only
      split
      · obtain ⟨hle, htake⟩ := zeroRun_spec (ws.drop i)
        rw [List.length_drop] at hle
        exact ⟨by dsimp only; omega, htake⟩
      · exact hbest
  refine hfold _ (0, 0) (fun i => List.mem_range.mp) ⟨Nat.zero_le _, ?_⟩
  rw [List.take_zero, List.replicate_zero]

theorem forall_mem_ipv6Chars {p : Char → Prop} (hp : ∀ d < 16, p d.digitChar) (hcolon : p ':')
    (ws : List Nat) : ∀ c ∈ ipv6Chars ws, p c := by
  have hwords := forall_mem_colonChars hp hcolon
  unfold ipv6Chars
  dsimp only
  split
  · exact hwords ws
  · refine List.forall_mem_append.mpr ⟨List.forall_mem_append.mpr ⟨hwords _, ?_⟩, hwords _⟩
    exact List.forall_mem_cons.mpr ⟨hcolon, List.forall_mem_singleton.mpr hcolon⟩

theorem count_colonChars (ws : List Nat) : (colonChars ws).count ':' = ws.length - 1 := by
  induction ws with
  | nil => rfl
  | cons w ws ih =>
    have hword : (hexChars w).count ':' = 0 := List.count_eq_zero.mpr fun hmem =>
      forall_mem_hexChars (p := (· ≠ ':')) (by decide) w _ hmem rfl
    cases ws with
    | nil => rw [colonChars_singleton, hword]; rfl
    | cons w' ws =>
      rw [colonChars_cons_cons, List.count_append, hword, List.count_cons_self, ih]
      simp

/-- There are never more colons than between eight words, and one more. -/
theorem count_ipv6Chars {ws : List Nat} (h : Words ws) : (ipv6Chars ws).count ':' ≤ 8 := by
  have hlength := h.length
  have hle := (isZeroRun_longestZeroRun ws).bound
  unfold ipv6Chars
  dsimp only
  split
  · rw [count_colonChars]
    omega
  · have hgap : [':', ':'].count ':' = 2 := by decide
    rw [List.count_append, List.count_append, hgap, count_colonChars, count_colonChars,
      List.length_take, List.length_drop]
    omega

/-- **IPv6 addresses are read back.** -/
theorem ipv6?_ipv6Chars {ws : List Nat} (h : Words ws) : ipv6? (ipv6Chars ws) = some ws := by
  obtain ⟨hle, hzeros⟩ := isZeroRun_longestZeroRun ws
  unfold ipv6Chars
  generalize longestZeroRun ws = run at *
  obtain ⟨start, n⟩ := run
  dsimp only at *
  split
  case isTrue =>
    have hgap := splitGap_colonChars ws []
    rw [List.append_nil, splitGap] at hgap
    unfold ipv6?
    rw [hgap, part?_colonChars h.lt]
    simp [h.length]
  case isFalse hn =>
    have hgap := splitGap_colonChars (ws.take start)
      (':' :: ':' :: colonChars (ws.drop (start + n)))
    simp only [splitGap, Option.map_some, List.append_nil] at hgap
    have hdot : (colonChars (ws.take start)).contains '.' = false := by
      rw [Bool.eq_false_iff, ne_eq, List.contains_iff_mem]
      exact fun hmem => forall_mem_colonChars (p := (· ≠ '.')) (by decide) (by decide) _ _ hmem rfl
    have hfront := part?_colonChars fun w hw => h.lt w (List.mem_of_mem_take (i := start) hw)
    have hback := part?_colonChars fun w hw => h.lt w (List.mem_of_mem_drop (i := start + n) hw)
    have hwhole : ws.take start ++ List.replicate n 0 ++ ws.drop (start + n) = ws := by
      rw [← hzeros, List.append_assoc, ← List.drop_drop, List.take_append_drop,
        List.take_append_drop]
    have hlength := h.length
    have hzero : 8 - (ws.take start).length - (ws.drop (start + n)).length = n := by
      rw [List.length_take, List.length_drop]
      omega
    have hshort : (ws.take start).length + (ws.drop (start + n)).length ≤ 7 := by
      rw [List.length_take, List.length_drop]
      omega
    unfold ipv6?
    rw [List.append_assoc, List.cons_append, List.cons_append, List.nil_append, hgap]
    simp only [hdot, hfront, hback, Option.bind_eq_bind, Option.bind_some, if_pos hshort, hzero,
      hwhole]
    rfl

end StagedLoad.Host
