import Mathlib
import Transclude.Proofs.Operations
import Transclude.Proofs.Points
import Transclude.Proofs.Words

/-! # Texts of digits

A text of decimal digits, of whatever scripts, is converted to the number nearest to
the integer that it writes. The signs of numbers, the blanks around them and the
words for numbers without digits do not come into it. -/

namespace Transclude

namespace Text

/-- A decimal digit is as far behind a zero as its value says. -/
theorem toNat_of_decimalValue? {c : Char} {value : Nat} (h : decimalValue? c = some value) :
    ∃ first ∈ digitZeros, c.toNat = first + value ∧ value ≤ 9 := by
  unfold decimalValue? at h
  split at h
  next hdigit =>
    have hrange := Expr.toNat_of_isDigit hdigit
    obtain rfl := Option.some.inj h
    exact ⟨0x30, by decide, by omega, by omega⟩
  next =>
    split at h
    next => cases h
    next =>
      obtain ⟨first, hfirst, rfl⟩ := Option.map_eq_some_iff.mp h
      have hrange := List.find?_some hfirst
      rw [Bool.and_eq_true, decide_eq_true_eq, decide_eq_true_eq] at hrange
      exact ⟨first, List.mem_of_find?_eq_some hfirst, by omega, by omega⟩

theorem isBlank_of_decimalValue? {c : Char} {value : Nat} (h : decimalValue? c = some value) :
    isBlank c = false := by
  obtain ⟨first, hfirst, hc, hvalue⟩ := toNat_of_decimalValue? h
  have hapart : ∀ first ∈ digitZeros, ∀ range ∈ blankRanges,
      first + 9 < range.1 ∨ range.2 < first := by decide
  rw [isBlank, Ranges.contains, List.any_eq_false]
  intro range hrange
  have hends := hapart first hfirst range hrange
  rw [Bool.and_eq_true, decide_eq_true_eq, decide_eq_true_eq]
  omega

theorem exists_decimalValue? {digits : List Char} {n : Nat} (h : decimalNumber? digits = some n) :
    ∀ c ∈ digits, ∃ value, decimalValue? c = some value := by
  intro c hc
  have hdigit := mt (Value.decimalNumber?_eq_none_iff digits).mpr (by simp [h])
  simp only [not_exists, not_and, Bool.not_eq_false] at hdigit
  exact Option.isSome_iff_exists.mp (hdigit c hc)

/-- The signs that numbers are written with, besides digits. -/
theorem not_mem_signs_of_decimalValue? {c : Char} {value : Nat} (h : decimalValue? c = some value) :
    c ∉ ['.', 'e', 'E'] := by
  have hsign (sign : Char) (hdigit : sign.isDigit = false) (hbound : sign.toNat < 128) :
      decimalValue? sign = none := by
    rw [decimalValue?, if_neg (by simp [hdigit]), if_pos hbound]
  intro hmem
  simp only [List.mem_cons, List.not_mem_nil, or_false] at hmem
  have hnone : decimalValue? c = none := by
    rcases hmem with rfl | rfl | rfl <;> exact hsign _ (by decide) (by decide)
  rw [hnone] at h
  cases h

end Text

namespace Decimal

open Text

/-- The ASCII digits. -/
theorem ascii_digit {value : Nat} (h : value ≤ 9) :
    (Char.ofNat (48 + value)).isDigit = true ∧
      decimalValue? (Char.ofNat (48 + value)) = some value ∧
      (Char.ofNat (48 + value)).toLower ∉ ['i', 'n'] ∧
      Char.ofNat (48 + value) ∉ ['_', '+', '-', 'e', 'E'] := by
  have hall : ∀ value < 10, (Char.ofNat (48 + value)).isDigit = true ∧
      decimalValue? (Char.ofNat (48 + value)) = some value ∧
      (Char.ofNat (48 + value)).toLower ∉ ['i', 'n'] ∧
      Char.ofNat (48 + value) ∉ ['_', '+', '-', 'e', 'E'] := by decide
  exact hall value (by omega)

theorem splitSign_digit {value : Nat} (h : value ≤ 9) (rest : List Char) :
    splitSign (Char.ofNat (48 + value) :: rest) = (false, Char.ofNat (48 + value) :: rest) := by
  have hsigns := (ascii_digit h).2.2.2
  simp only [List.mem_cons, List.not_mem_nil, or_false, not_or] at hsigns
  unfold splitSign
  split
  next heq => exact absurd (List.cons.inj heq).1 hsigns.2.2.1
  next heq => exact absurd (List.cons.inj heq).1 hsigns.2.1
  next => rfl

/-- What begins with a digit is none of the words for numbers. -/
theorem isWordOf_digit {first : Char} (hfirst : first ∈ ['i', 'n']) (more : List Char)
    {value : Nat} (h : value ≤ 9) (rest : List Char) :
    isWordOf (first :: more) (Char.ofNat (48 + value) :: rest) = false := by
  rw [isWordOf, List.map_cons, beq_eq_false_iff_ne]
  intro heq
  exact (ascii_digit h).2.2.1 ((List.cons.inj heq).1 ▸ hfirst)

theorem asciiDigits_cons {c : Char} {value : Nat} (h : decimalValue? c = some value)
    (rest : List Char) :
    asciiDigits (c :: rest) = Char.ofNat (48 + value) :: asciiDigits rest := by
  rw [asciiDigits, List.map_cons, h, ← asciiDigits]

/-- Digits of other scripts write the number that the ASCII digits in their places write. -/
theorem decimalNumber?_asciiDigits {digits : List Char}
    (h : ∀ c ∈ digits, ∃ value, decimalValue? c = some value) :
    decimalNumber? (asciiDigits digits) = decimalNumber? digits := by
  unfold decimalNumber?
  generalize 0 = start
  induction digits generalizing start with
  | nil => rfl
  | cons c rest ih =>
      obtain ⟨value, hvalue⟩ := h c List.mem_cons_self
      obtain ⟨_, _, _, hle⟩ := toNat_of_decimalValue? hvalue
      rw [asciiDigits_cons hvalue, List.foldlM_cons, List.foldlM_cons, hvalue,
        (ascii_digit hle).2.1]
      exact ih (fun d hd => h d (List.mem_cons_of_mem c hd)) _

/-- The characters of a number in ASCII digits. -/
theorem exists_of_mem_asciiDigits {digits : List Char}
    (h : ∀ c ∈ digits, ∃ value, decimalValue? c = some value) {c : Char}
    (hc : c ∈ asciiDigits digits) : ∃ value ≤ 9, c = Char.ofNat (48 + value) := by
  obtain ⟨d, hd, rfl⟩ := List.mem_map.mp hc
  obtain ⟨value, hvalue⟩ := h d hd
  obtain ⟨_, _, _, hle⟩ := toNat_of_decimalValue? hvalue
  rw [hvalue]
  exact ⟨value, hle, rfl⟩

theorem withoutUnderscores?_of_digits {text : List Char} (h : '_' ∉ text) {previous : Char}
    (hprevious : previous ≠ '_') : withoutUnderscores? previous text = some text := by
  induction text generalizing previous with
  | nil => rw [withoutUnderscores?, if_neg (by simp [hprevious])]
  | cons c rest ih =>
      rw [List.mem_cons, not_or] at h
      rw [withoutUnderscores?, if_neg (by simp [Ne.symm h.1]), if_neg (by simp [hprevious]),
        ih h.2 (Ne.symm h.1), Option.map_some]

/-- Nothing is taken away at the ends of a text without such characters. -/
theorem dropWhile_ends {p : Char → Bool} {text : List Char} (h : ∀ c ∈ text, p c = false) :
    ((text.dropWhile p).reverse.dropWhile p).reverse = text := by
  have hdrop {text : List Char} (h : ∀ c ∈ text, p c = false) : text.dropWhile p = text := by
    cases text with
    | nil => rfl
    | cons c rest => exact List.dropWhile_cons_of_neg (by simp [h c List.mem_cons_self])
  rw [hdrop h, hdrop fun c hc => h c (List.mem_reverse.mp hc), List.reverse_reverse]

/-- A text of ASCII digits writes the number that they write. -/
theorem unsigned?_of_digits {negative : Bool} {text : List Char} {n : Nat}
    (h : ∀ c ∈ text, ∃ value ≤ 9, c = Char.ofNat (48 + value)) (hne : text ≠ [])
    (hnumber : decimalNumber? text = some n) :
    unsigned? negative text = some (.ofDecimal negative n 0) := by
  have hmark : ∀ c ∈ text, (!(c == 'e' || c == 'E')) = true := by
    intro c hc
    obtain ⟨value, hle, rfl⟩ := h c hc
    have hsigns := (ascii_digit hle).2.2.2
    simp only [List.mem_cons, List.not_mem_nil, or_false, not_or] at hsigns
    simp [hsigns]
  have hdigit : ∀ c ∈ text, c.isDigit = true := by
    intro c hc
    obtain ⟨value, hle, rfl⟩ := h c hc
    exact (ascii_digit hle).1
  unfold unsigned?
  simp only [List.takeWhile_eq_self_iff.mpr hmark, List.dropWhile_eq_nil_iff.mpr hmark]
  simp [mantissa?, List.takeWhile_eq_self_iff.mpr hdigit, List.dropWhile_eq_nil_iff.mpr hdigit,
    hne, hnumber]

/-- A text of digits writes the number nearest to the integer that the digits write. -/
theorem read?_digits {digits : List Char} {n : Nat} (hne : digits ≠ [])
    (hnumber : decimalNumber? digits = some n) :
    read? digits = some (.ofDecimal false n 0) := by
  have hvalues := exists_decimalValue? hnumber
  have hmargin : ∀ c ∈ digits, isMargin c = false := by
    intro c hc
    obtain ⟨value, hvalue⟩ := hvalues c hc
    rw [isMargin, isBlank_of_decimalValue? hvalue, Bool.false_and]
  have hmargins : withoutMargins digits = digits := dropWhile_ends hmargin
  have hplain (c : Char) (hc : c ∈ asciiDigits digits) := exists_of_mem_asciiDigits hvalues hc
  have hnone : asciiDigits digits ≠ [] := by simpa [asciiDigits] using hne
  rw [← decimalNumber?_asciiDigits hvalues] at hnumber
  rw [read?, hmargins]
  generalize asciiDigits digits = text at hplain hnone hnumber
  have hunderscore : '_' ∉ text := by
    intro hmem
    obtain ⟨value, hle, hvalue⟩ := hplain _ hmem
    exact (ascii_digit hle).2.2.2 (by simp [← hvalue])
  rw [withoutUnderscores?_of_digits hunderscore (by decide)]
  cases text with
  | nil => exact absurd rfl hnone
  | cons c rest =>
      obtain ⟨value, hle, rfl⟩ := hplain c List.mem_cons_self
      have hi (more : List Char) := isWordOf_digit (show 'i' ∈ ['i', 'n'] by simp) more hle rest
      have hn (more : List Char) := isWordOf_digit (show 'n' ∈ ['i', 'n'] by simp) more hle rest
      simp only [Option.bind_eq_bind, Option.bind_some, splitSign_digit hle, hi, hn, Bool.or_self,
        Bool.false_eq_true, if_false]
      exact unsigned?_of_digits hplain hnone hnumber

end Decimal

/-- A text of digits is converted to a number at the point of the one nearest to the integer that
the digits write. -/
theorem standsFor_numberOfText_digits {digits : List Char} {n : Nat} (hne : digits ≠ [])
    (hnumber : Text.decimalNumber? digits = some n) (q : ℚ) :
    (numberOfText digits).StandsFor q ↔ (Number.float (.ofDecimal false n 0)).StandsFor q := by
  have hvalues := Text.exists_decimalValue? hnumber
  have hblank : ∀ c ∈ digits, Text.isBlank c = false := by
    intro c hc
    obtain ⟨value, hvalue⟩ := hvalues c hc
    exact Text.isBlank_of_decimalValue? hvalue
  have htrim : Text.trim digits = digits := Decimal.dropWhile_ends hblank
  have hsigns : (digits.any fun c => c == '.' || c == 'e' || c == 'E') = false := by
    rw [List.any_eq_false]
    intro c hc
    obtain ⟨value, hvalue⟩ := hvalues c hc
    have hsigns := Text.not_mem_signs_of_decimalValue? hvalue
    simp only [List.mem_cons, List.not_mem_nil, or_false, not_or] at hsigns
    simp [hsigns]
  unfold numberOfText
  simp only [htrim, List.isEmpty_iff, hne, if_false, Decimal.read?_digits hne hnumber, hsigns,
    Bool.false_eq_true]
  split
  next k hk =>
    have hpoint := Number.standsFor_of_toInt? (n := .float (.ofDecimal false n 0)) hk
    rw [Number.standsFor_int]
    exact ⟨fun hq => hq ▸ hpoint, fun hq => hpoint.unique hq⟩
  next => exact Iff.rfl

/-- A text of digits lies among the positions of a list that is not too long when the integer that
the digits write does. -/
theorem within_numberOfText_digits {digits : List Char} {n length : Nat} (hne : digits ≠ [])
    (hnumber : Text.decimalNumber? digits = some n) (hlength : length ≤ 2 ^ 53) :
    (numberOfText digits).Within length ↔ n < length := by
  have hnearest : (numberOfText digits).Within length ↔
      (Number.float (.ofDecimal false n 0)).Within length :=
    exists_congr fun q => and_congr_left' (standsFor_numberOfText_digits hne hnumber q)
  rw [hnearest]
  by_cases hsmall : n < 2 ^ 53
  · rw [@Number.within_of_toInt? (.float _) n (Binary64.toInt?_ofDecimal hsmall)]
    omega
  · -- the integer may be rounded, but not to one that lies in the list
    constructor
    · rintro ⟨q, hq, _, hhigh⟩
      have hlarge := Binary64.le_of_standsFor_ofDecimal (by omega) hq
      have hshort : (length : ℚ) ≤ 2 ^ 53 := by exact_mod_cast hlength
      linarith
    · intro hlt
      omega

end Transclude
