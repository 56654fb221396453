import StagedLoad.Profile.Draft
import StagedLoad.Proofs.Decimal.Magnitude

/-!
# Numbers of seconds that are no duration

A plain number of seconds is refused if it is negative or not finite.  What is left may still be
beyond the longest duration, and then the conversion ends the program instead of refusing the
number.

The conversion rounds to whole nanoseconds, and it is the rounded number that has to be in range.
That makes no difference: the doubles below `2 ^ 64` stay away from it by far more than half a
nanosecond, so the range ends at `2 ^ 64` seconds exactly.

## Main definitions

* `Duration.TooManySeconds` — a finite number of seconds, not negative, that is no duration.

## Main results

* `Duration.ofSeconds?_eq_none_iff` — the range of the conversion.
* `Duration.seconds_cases` — what becomes of a number of seconds.
* `Duration.crashes_iff_too_many_seconds` — **what ends the program**, in a text or as a value.
* `Duration.hundred_quintillion_seconds_crash` — `1e20` does.
-/

namespace StagedLoad

namespace Binary64

/-- A finite double that is below a power of two of at least 53 bits stays away from it by one. -/
theorem scaled_fst_le {m : Nat} (hm : m < 2 * fractionWeight) (q : Int) {n : Nat}
    (hn : 2 * fractionWeight ≤ n) (hlt : (scaled m q).1 < (n + 1) * (scaled m q).2) :
    (scaled m q).1 ≤ n * (scaled m q).2 := by
  unfold scaled at hlt ⊢
  split
  case isTrue hq =>
    rw [if_pos hq] at hlt
    omega
  case isFalse =>
    have hpos : 0 < Nat.pow 2 (-q).toNat := Nat.pow_pos (by decide)
    calc m ≤ n := by omega
      _ ≤ n * Nat.pow 2 (-q).toNat := Nat.le_mul_of_pos_right n hpos

end Binary64

namespace Duration

open Binary64

/-! ### The range of the conversion -/

/-- How many seconds are one too many for a duration. -/
def secondsLimit : Nat := 18446744073709551616

/-- What is rounded to nanoseconds is in range if the seconds are. -/
theorem roundDiv_lt_iff {num den : Nat} (hden : 0 < den)
    (hgap : num < secondsLimit * den → num ≤ (secondsLimit - 1) * den) (tie : Tie) :
    roundDiv (num * nanosPerSecond) den tie < secondsLimit * nanosPerSecond ↔
      num < secondsLimit * den := by
  generalize hr : roundDiv (num * nanosPerSecond) den tie = r
  constructor
  · intro hlt
    apply Nat.lt_of_not_le
    intro hmany
    have hlow := two_mul_le_roundDiv (num * nanosPerSecond) hden tie
    rw [hr] at hlow
    have hscaled : 2 * (secondsLimit * nanosPerSecond) * den ≤ (2 * r + 1) * den := by
      refine Nat.le_trans ?_ hlow
      rw [Nat.mul_assoc]
      apply Nat.mul_le_mul_left
      rw [Nat.mul_right_comm]
      exact Nat.mul_le_mul_right _ hmany
    have := Nat.le_of_mul_le_mul_right hscaled hden
    omega
  · intro hfew
    have hhigh := roundDiv_le_two_mul (num * nanosPerSecond) den tie
    rw [hr] at hhigh
    have hscaled : 2 * r * den ≤ (2 * ((secondsLimit - 1) * nanosPerSecond) + 1) * den := by
      refine Nat.le_trans hhigh ?_
      rw [Nat.add_mul, Nat.one_mul, Nat.mul_assoc 2]
      apply Nat.add_le_add_right
      apply Nat.mul_le_mul_left
      rw [Nat.mul_right_comm]
      exact Nat.mul_le_mul_right _ (hgap hfew)
    have hle := Nat.le_of_mul_le_mul_right hscaled hden
    unfold secondsLimit nanosPerSecond at hle ⊢
    omega

/-- **The range of the conversion** ends at `2 ^ 64` seconds. -/
theorem ofSeconds?_eq_none_iff {x : Float} {negative : Bool} {m : Nat} {q : Int}
    (h : decode x = .finite negative m q) :
    ofSeconds? x = none ↔ secondsLimit * (scaled m q).2 ≤ (scaled m q).1 := by
  have hgap : (scaled m q).1 < secondsLimit * (scaled m q).2 →
      (scaled m q).1 ≤ (secondsLimit - 1) * (scaled m q).2 :=
    scaled_fst_le (decode_bounds h).1 q (by decide)
  have hrange := roundDiv_lt_iff (scaled_snd_pos m q) hgap .toEven
  unfold ofSeconds? ofNanos?
  rw [h]
  dsimp only
  split
  case isTrue hlt =>
    have hfew := hrange.mp hlt
    simp only [reduceCtorEq, false_iff]
    omega
  case isFalse hnlt =>
    have hmany := mt hrange.mpr hnlt
    simp only [true_iff]
    omega

/-! ### Plain numbers of seconds -/

/-- A finite number of seconds, not negative, that is no duration. -/
structure TooManySeconds (x : Float) : Prop where
  /-- It is not negative. -/
  nonneg : ¬x < 0
  /-- It is finite, and at least `2 ^ 64`. -/
  many : ∃ negative m q, decode x = .finite negative m q ∧
    secondsLimit * (scaled m q).2 ≤ (scaled m q).1

variable {x : Float} {text : String} {v : Yaml.Value}

theorem TooManySeconds.isFinite (h : TooManySeconds x) : Binary64.isFinite x = true := by
  obtain ⟨negative, m, q, hx, -⟩ := h.many
  rw [Binary64.isFinite, hx]

theorem TooManySeconds.ofSeconds?_eq_none (h : TooManySeconds x) : ofSeconds? x = none := by
  obtain ⟨negative, m, q, hx, hmany⟩ := h.many
  exact (ofSeconds?_eq_none_iff hx).mpr hmany

/-- The conversion fails on nothing else that is finite and not negative. -/
theorem exists_ofSeconds? (hfinite : Binary64.isFinite x = true) (hnonneg : ¬x < 0)
    (hfew : ¬TooManySeconds x) : ∃ d, ofSeconds? x = some d := by
  rw [Binary64.isFinite] at hfinite
  split at hfinite
  case h_1 negative m q hx =>
    apply Option.ne_none_iff_exists'.mp
    intro hnone
    exact hfew ⟨hnonneg, negative, m, q, hx, (ofSeconds?_eq_none_iff hx).mp hnone⟩
  case h_2 => cases hfinite

/-- A number of seconds is refused, or ends the program, or is a duration. -/
theorem seconds_cases (x : Float) :
    ((!Binary64.isFinite x || decide (x < 0)) = true ∧ ¬TooManySeconds x) ∨
      ((!Binary64.isFinite x || decide (x < 0)) = false ∧ TooManySeconds x ∧
        ofSeconds? x = none) ∨
      ((!Binary64.isFinite x || decide (x < 0)) = false ∧ ¬TooManySeconds x ∧
        ∃ d, ofSeconds? x = some d) := by
  by_cases hmany : TooManySeconds x
  · right; left
    refine ⟨?_, hmany, hmany.ofSeconds?_eq_none⟩
    rw [hmany.isFinite, decide_eq_false hmany.nonneg]
    rfl
  · cases hrefused : !Binary64.isFinite x || decide (x < 0) with
    | true => exact .inl ⟨rfl, hmany⟩
    | false =>
      obtain ⟨hfinite, hnonneg⟩ := Bool.or_eq_false_iff.mp hrefused
      exact .inr (.inr ⟨rfl, hmany, exists_ofSeconds? (by simpa using hfinite)
        (of_decide_eq_false hnonneg) hmany⟩)

/-- A number in a text ends the program exactly if it is too many seconds. -/
theorem ofNumber_eq_crash_iff :
    ofNumber text x = .error (.crash .tooManySeconds) ↔ TooManySeconds x := by
  unfold ofNumber
  rcases seconds_cases x with ⟨hrefused, hfew⟩ | ⟨hpassed, hmany, hnone⟩ |
    ⟨hpassed, hfew, d, hsome⟩
  · simp [hrefused, hfew]
  · simp [hpassed, hmany, hnone]
  · simp [hpassed, hfew, hsome]

/-- So does a double as a value. -/
theorem ofDouble_eq_crash_iff :
    ofDouble x = .error (.unreadable (.crash .tooManySeconds)) ↔ TooManySeconds x := by
  unfold ofDouble
  rcases seconds_cases x with ⟨hrefused, hfew⟩ | ⟨hpassed, hmany, hnone⟩ |
    ⟨hpassed, hfew, d, hsome⟩
  · simp [hrefused, hfew]
  · simp [hpassed, hmany, hnone]
  · simp [hpassed, hfew, hsome]

/-- The plain number that a text is written for, blanks around it aside. -/
def plainNumber? (text : String) : Option Float := Binary64.ofChars? (Blank.trim text).toList

theorem parse_of_plainNumber? (h : plainNumber? text = some x) :
    parse text = ofNumber (Blank.trim text) x := by
  unfold plainNumber? at h
  have hchars : (Blank.trim text).isEmpty = false := by
    cases hempty : (Blank.trim text).isEmpty with
    | false => rfl
    | true =>
      rw [String.isEmpty_iff.mp hempty] at h
      cases h
  unfold parse
  dsimp only
  rw [hchars, h]
  rfl

/-- The notation with units never gets to the conversion of plain numbers. -/
theorem parse_ne_crash_of_units (h : plainNumber? text = none) :
    parse text ≠ .error (.crash .tooManySeconds) := by
  unfold plainNumber? at h
  unfold parse
  dsimp only
  rw [h]
  split
  · simp
  · dsimp only
    split <;> simp

theorem parse_eq_crash_iff :
    parse text = .error (.crash .tooManySeconds) ↔
      ∃ x, plainNumber? text = some x ∧ TooManySeconds x := by
  cases hx : plainNumber? text with
  | none => simp [parse_ne_crash_of_units hx]
  | some x => simp [parse_of_plainNumber? hx, ofNumber_eq_crash_iff]

/-- Whole numbers never end the program. -/
theorem ofInteger_ne_crash (n : Int) (cause : Crash) :
    ofInteger n ≠ .error (.unreadable (.crash cause)) := by
  unfold ofInteger
  split <;> simp

theorem ofValue?_eq_crash_iff :
    ofValue? v = some (.error (.unreadable (.crash .tooManySeconds))) ↔
      (∃ x, v = .double x ∧ TooManySeconds x) ∨
        ∃ text x, v = .string text ∧ plainNumber? text = some x ∧ TooManySeconds x := by
  cases v with
  | integer n => simp [ofValue?, ofInteger_ne_crash]
  | double x => simp [ofValue?, ofDouble_eq_crash_iff]
  | string text =>
    have hparse := @parse_eq_crash_iff text
    cases hresult : parse text with
    | ok d =>
      rw [hresult] at hparse
      simpa [ofValue?, hresult, Except.mapError] using hparse
    | error fault =>
      rw [hresult] at hparse
      simpa [ofValue?, hresult, Except.mapError] using hparse
  | _ => simp [ofValue?]

/-- **What ends the program.**  A text does exactly if it is a plain number that is too many
seconds, and a value exactly if it is such a number or such a text: a number that is finite and
not negative passes the check, but from `2 ^ 64` seconds on there is no duration for it.  Below
that every number of seconds is a duration, written in a text or as a value. -/
theorem crashes_iff_too_many_seconds (text : String) (v : Yaml.Value) :
    (parse text = .error (.crash .tooManySeconds) ↔
      ∃ x, plainNumber? text = some x ∧ TooManySeconds x) ∧
    (ofValue? v = some (.error (.unreadable (.crash .tooManySeconds))) ↔
      (∃ x, v = .double x ∧ TooManySeconds x) ∨
        ∃ text x, v = .string text ∧ plainNumber? text = some x ∧ TooManySeconds x) ∧
    ∀ x, Binary64.isFinite x = true → ¬x < 0 → ¬TooManySeconds x →
      ∃ d, ofDouble x = .ok d ∧ ∀ text, plainNumber? text = some x → parse text = .ok d := by
  refine ⟨parse_eq_crash_iff, ofValue?_eq_crash_iff, ?_⟩
  intro x hfinite hnonneg hfew
  obtain ⟨d, hd⟩ := exists_ofSeconds? hfinite hnonneg hfew
  have hpassed : (!Binary64.isFinite x || decide (x < 0)) = false := by
    rw [hfinite, decide_eq_false hnonneg]
    rfl
  refine ⟨d, by simp [ofDouble, hpassed, hd], ?_⟩
  intro text htext
  rw [parse_of_plainNumber? htext]
  simp [ofNumber, hpassed, hd]

/-- A second and a half is a duration, written in a text or as a value. -/
theorem second_and_a_half_is_read : ∃ d, ofDouble 1.5 = .ok d ∧ parse "1.5" = .ok d := by
  have hfew : ¬TooManySeconds 1.5 := by
    intro h
    have hsome : (ofSeconds? 1.5).isSome = true := by decide +kernel
    rw [h.ofSeconds?_eq_none] at hsome
    cases hsome
  obtain ⟨d, hd, hread⟩ :=
    (crashes_iff_too_many_seconds "1.5" (.double 1.5)).2.2 1.5 rfl (by decide) hfew
  exact ⟨d, hd, hread "1.5" rfl⟩

/-- **A hundred quintillion seconds end the program**, written in a text, as a value, and in a
value that is a text. -/
theorem hundred_quintillion_seconds_crash :
    parse "1e20" = .error (.crash .tooManySeconds) ∧
      ofValue? (.double 1e20) = some (.error (.unreadable (.crash .tooManySeconds))) ∧
      ofValue? (.string "100000000000000000000") =
        some (.error (.unreadable (.crash .tooManySeconds))) := by
  exact ⟨rfl, rfl, rfl⟩

end Duration

end StagedLoad
