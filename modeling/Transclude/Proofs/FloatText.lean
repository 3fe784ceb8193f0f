import Mathlib
import Transclude.Proofs.NumericText
import Transclude.Proofs.ShortestDigits
import Transclude.Proofs.Slicing

/-! # Texts of floating-point numbers

A finite number is written as digits with a point or an exponent. Such a text is one
word of an expression, and it is read back as the number. -/

namespace Transclude

namespace Decimal

open Text

/-! ## Digits with a point or an exponent -/

/-- Some ASCII digits, at least one. -/
structure IsDigits (text : List Char) : Prop where
  digit : ∀ c ∈ text, c.isDigit = true
  nonempty : text ≠ []

/-- The number that ASCII digits write. -/
def valueOf (digits : List Char) : Nat := Nat.ofDigitChars 10 digits 0

/-- Digits that may have a point between them, the number that they write without it, and the
exponent of the last one. -/
inductive IsMantissa : List Char → Nat → Int → Prop
  | whole {whole : List Char} (h : IsDigits whole) : IsMantissa whole (valueOf whole) 0
  | pointed {whole fraction : List Char} (h : IsDigits whole) (hfraction : IsDigits fraction) :
    IsMantissa (whole ++ '.' :: fraction) (valueOf (whole ++ fraction)) (-fraction.length)

/-- Digits with a point, an exponent or both. -/
inductive IsNumeral : List Char → Nat → Int → Prop
  | positional {text : List Char} {digits : Nat} {scale : Int} (h : IsMantissa text digits scale)
    (hpoint : '.' ∈ text) : IsNumeral text digits scale
  | scientific {text power : List Char} {digits : Nat} {scale : Int}
    (h : IsMantissa text digits scale) (negative : Bool) (hpower : IsDigits power) :
    IsNumeral (text ++ 'e' :: (if negative then '-' else '+') :: power) digits
      (scale + if negative then -(valueOf power : Int) else valueOf power)

theorem IsDigits.append {front back : List Char} (hfront : IsDigits front)
    (hback : ∀ c ∈ back, c.isDigit = true) : IsDigits (front ++ back) where
  digit c hc := (List.mem_append.mp hc).elim (hfront.digit c) (hback c)
  nonempty := List.append_ne_nil_of_left_ne_nil hfront.nonempty back

theorem isDigits_zeros (count : Nat) : ∀ c ∈ List.replicate count '0', c.isDigit = true := by
  intro c hc
  rw [List.eq_of_mem_replicate hc]
  decide

theorem isDigits_zero : IsDigits ['0'] where
  digit := isDigits_zeros 1
  nonempty := List.cons_ne_nil _ _

theorem isDigits_toDigits (n : Nat) : IsDigits (Nat.toDigits 10 n) where
  digit _ hc := Nat.isDigit_of_mem_toDigits (by decide) (by decide) hc
  nonempty := Nat.toDigits_ne_nil

theorem valueOf_append (front back : List Char) :
    valueOf (front ++ back) = valueOf front * 10 ^ back.length + valueOf back := by
  rw [valueOf, Nat.ofDigitChars_append, Nat.ofDigitChars_eq_ofDigitChars_zero, Nat.mul_comm]
  rfl

theorem valueOf_zeros (count : Nat) : valueOf (List.replicate count '0') = 0 := by
  rw [valueOf, Nat.ofDigitChars_replicate_zero, Nat.mul_zero]

theorem valueOf_zero : valueOf ['0'] = 0 :=
  valueOf_zeros 1

theorem valueOf_toDigits (n : Nat) : valueOf (Nat.toDigits 10 n) = n :=
  Nat.ofDigitChars_ten_toDigits

theorem IsDigits.decimalNumber? {text : List Char} (h : IsDigits text) :
    decimalNumber? text = some (valueOf text) :=
  Json.decimalNumber?_of_digits h.digit 0

section

variable {text : List Char} {digits : Nat} {scale : Int}

theorem ne_of_isDigit {c d : Char} (hc : c.isDigit = true) (hd : d.isDigit = false) : c ≠ d := by
  rintro rfl
  rw [hc] at hd
  cases hd

theorem IsMantissa.isPlain (h : IsMantissa text digits scale) :
    ∀ c ∈ text, IsPlain c ∧ c ≠ 'e' ∧ c ≠ 'E' := by
  have hdigit {c : Char} (hc : c.isDigit = true) : IsPlain c ∧ c ≠ 'e' ∧ c ≠ 'E' :=
    ⟨Or.inl hc, ne_of_isDigit hc (by decide), ne_of_isDigit hc (by decide)⟩
  intro c hc
  cases h with
  | whole h => exact hdigit (h.digit c hc)
  | pointed h hfraction =>
      rw [List.mem_append, List.mem_cons] at hc
      obtain hc | rfl | hc := hc
      · exact hdigit (h.digit c hc)
      · decide
      · exact hdigit (hfraction.digit c hc)

theorem IsMantissa.mantissa? (h : IsMantissa text digits scale) :
    mantissa? text = some (digits, scale) := by
  unfold Decimal.mantissa?
  dsimp only
  cases h with
  | whole h =>
      rw [List.takeWhile_eq_self_iff.mpr h.digit, List.dropWhile_eq_nil_iff.mpr h.digit]
      simp [h.nonempty, h.decimalNumber?]
  | @pointed whole fraction h hfraction =>
      have hstop : ('.' :: fraction).takeWhile Char.isDigit = [] :=
        List.takeWhile_cons_of_neg (by decide)
      rw [List.takeWhile_append_of_pos h.digit, List.dropWhile_append_of_pos h.digit, hstop,
        List.dropWhile_cons_of_neg (by decide), List.append_nil]
      simpa [h.nonempty, (h.append hfraction.digit).decimalNumber?] using hfraction.digit

theorem IsDigits.exponent? {power : List Char} (h : IsDigits power) (negative : Bool) :
    exponent? ((if negative then '-' else '+') :: power) =
      some (if negative then -(valueOf power : Int) else valueOf power) := by
  have hall : power.all Char.isDigit = true := List.all_eq_true.mpr h.digit
  cases negative <;>
    simp [Decimal.exponent?, splitSign, h.nonempty, hall, h.decimalNumber?]

/-- A numeral writes its digits at its place. -/
theorem IsNumeral.unsigned? (h : IsNumeral text digits scale) (negative : Bool) :
    unsigned? negative text = some (.ofDecimal negative digits scale) := by
  have hmarks {text : List Char} {digits : Nat} {scale : Int} (h : IsMantissa text digits scale) :
      ∀ c ∈ text, (!(c == 'e' || c == 'E')) = true := by
    intro c hc
    simp [(h.isPlain c hc).2]
  unfold Decimal.unsigned?
  cases h with
  | positional h =>
      simp only [List.takeWhile_eq_self_iff.mpr (hmarks h),
        List.dropWhile_eq_nil_iff.mpr (hmarks h), h.mantissa?, Option.map_some]
  | @scientific front power _ _ h sign hpower =>
      have hstop : (!('e' == 'e' || 'e' == 'E')) = false := by decide
      simp only [List.takeWhile_append_of_pos (hmarks h), List.dropWhile_append_of_pos (hmarks h),
        List.takeWhile_cons, List.dropWhile_cons, hstop, Bool.false_eq_true, if_false,
        List.append_nil, h.mantissa?, hpower.exponent?]
      rfl

theorem IsNumeral.isPlain (h : IsNumeral text digits scale) : ∀ c ∈ text, IsPlain c := by
  intro c hc
  cases h with
  | positional h => exact (h.isPlain c hc).1
  | @scientific _ _ _ _ h negative hpower =>
      rw [List.mem_append, List.mem_cons, List.mem_cons] at hc
      obtain hc | rfl | rfl | hc := hc
      · exact (h.isPlain c hc).1
      · decide
      · cases negative <;> decide
      · exact Or.inl (hpower.digit c hc)

theorem IsMantissa.exists_cons (h : IsMantissa text digits scale) :
    ∃ c rest, text = c :: rest ∧ c.isDigit = true := by
  have hwhole {whole : List Char} (h : IsDigits whole) (back : List Char) :
      ∃ c rest, whole ++ back = c :: rest ∧ c.isDigit = true := by
    obtain ⟨c, rest, rfl⟩ := List.exists_cons_of_ne_nil h.nonempty
    exact ⟨c, rest ++ back, rfl, h.digit c List.mem_cons_self⟩
  cases h with
  | whole h => simpa using hwhole h []
  | pointed h => exact hwhole h _

/-- A numeral begins with a digit. -/
theorem IsNumeral.exists_cons (h : IsNumeral text digits scale) :
    ∃ c rest, text = c :: rest ∧ c.isDigit = true := by
  cases h with
  | positional h => exact h.exists_cons
  | scientific h =>
      obtain ⟨c, rest, rfl, hc⟩ := h.exists_cons
      exact ⟨c, _, rfl, hc⟩

/-- A numeral is read as the number nearest to it. -/
theorem IsNumeral.read? (h : IsNumeral text digits scale) :
    read? text = some (.ofDecimal false digits scale) := by
  obtain ⟨c, rest, rfl, hc⟩ := h.exists_cons
  have hsign : splitSign (c :: rest) = (false, c :: rest) := by
    unfold splitSign
    split
    next heq => cases heq; exact absurd hc (by decide)
    next heq => cases heq; exact absurd hc (by decide)
    next => rfl
  rw [read?_plain h.isPlain, hsign]
  exact h.unsigned? false

/-- A numeral is no integer. -/
theorem IsNumeral.numberOf (h : IsNumeral text digits scale) :
    Expr.numberOf text = .float (.ofDecimal false digits scale) := by
  have hmark : (text.any fun c => c == '.' || c == 'e' || c == 'E') = true := by
    cases h with
    | positional _ hpoint => exact List.any_eq_true.mpr ⟨'.', hpoint, by decide⟩
    | scientific => exact List.any_eq_true.mpr ⟨'e', by simp, by decide⟩
  rw [Expr.numberOf, hmark, h.read?]
  rfl

end

/-! ## Texts of digits at a place -/

/-- A numeral writes digits whose first one has the given exponent. -/
def WritesFrom (text digits : List Char) (exponent : Int) : Prop :=
  ∃ d s, IsNumeral text d s ∧
    (d : ℚ) * 10 ^ s = valueOf digits * 10 ^ (exponent - digits.length + 1)

section

variable {digits : List Char} (h : IsDigits digits)

include h

/-- The point stands between the digits. -/
theorem writesFrom_between {count : Nat} (hpos : 0 < count) (hlt : count < digits.length) :
    WritesFrom (digits.take count ++ '.' :: digits.drop count) digits (count - 1) := by
  have hwhole : IsDigits (digits.take count) :=
    ⟨fun c hc => h.digit c (List.mem_of_mem_take hc),
      List.ne_nil_of_length_pos (by rw [List.length_take]; omega)⟩
  have hfraction : IsDigits (digits.drop count) :=
    ⟨fun c hc => h.digit c (List.mem_of_mem_drop hc),
      List.ne_nil_of_length_pos (by rw [List.length_drop]; omega)⟩
  refine ⟨_, _, .positional (.pointed hwhole hfraction) (by simp), ?_⟩
  rw [List.take_append_drop, List.length_drop]
  congr 2
  omega

/-- Zeros stand between the digits and the point. -/
theorem writesFrom_before {count : Nat} (hle : digits.length ≤ count) :
    WritesFrom (digits ++ List.replicate (count - digits.length) '0' ++ '.' :: ['0']) digits
      (count - 1) := by
  have hwhole := h.append (isDigits_zeros (count - digits.length))
  refine ⟨_, _, .positional (.pointed hwhole isDigits_zero) (by simp), ?_⟩
  have hvalue : valueOf (digits ++ List.replicate (count - digits.length) '0' ++ ['0']) =
      valueOf digits * 10 ^ (count - digits.length) * 10 := by
    rw [valueOf_append, valueOf_append, valueOf_zeros, valueOf_zero, List.length_replicate]
    rfl
  have hplace : (count : Int) - 1 - digits.length + 1 = ((count - digits.length : Nat) : Int) := by
    omega
  rw [hvalue, hplace, zpow_natCast]
  push_cast
  simp [mul_assoc]

/-- Zeros stand between the point and the digits. -/
theorem writesFrom_behind (count : Nat) :
    WritesFrom ('0' :: '.' :: List.replicate count '0' ++ digits) digits (-count - 1) := by
  have hfraction : IsDigits (List.replicate count '0' ++ digits) :=
    ⟨fun c hc => (List.mem_append.mp hc).elim (isDigits_zeros count c) (h.digit c),
      List.append_ne_nil_of_right_ne_nil _ h.nonempty⟩
  refine ⟨_, _, .positional (.pointed isDigits_zero hfraction) (by simp), ?_⟩
  have hvalue : valueOf (['0'] ++ (List.replicate count '0' ++ digits)) = valueOf digits := by
    rw [valueOf_append, valueOf_append, valueOf_zeros, valueOf_zero, Nat.zero_mul,
      Nat.zero_add, Nat.zero_mul, Nat.zero_add]
  have hplace : -((List.replicate count '0' ++ digits).length : Int) =
      -(count : Int) - 1 - digits.length + 1 := by
    rw [List.length_append, List.length_replicate]
    omega
  rw [← hvalue, ← hplace]
  rfl

omit h in
/-- An exponent of at least two digits. -/
theorem padded_spec (exponent : Int) :
    IsDigits (List.replicate (2 - (Nat.toDigits 10 exponent.natAbs).length) '0' ++
        Nat.toDigits 10 exponent.natAbs) ∧
      (if decide (exponent < 0) = true then
        -(valueOf (List.replicate (2 - (Nat.toDigits 10 exponent.natAbs).length) '0' ++
          Nat.toDigits 10 exponent.natAbs) : Int)
        else valueOf (List.replicate (2 - (Nat.toDigits 10 exponent.natAbs).length) '0' ++
          Nat.toDigits 10 exponent.natAbs)) = exponent := by
  constructor
  · exact ⟨fun c hc => (List.mem_append.mp hc).elim (isDigits_zeros _ c)
      ((isDigits_toDigits _).digit c), List.append_ne_nil_of_right_ne_nil _ Nat.toDigits_ne_nil⟩
  · rw [valueOf_append, valueOf_zeros, valueOf_toDigits, Nat.zero_mul, Nat.zero_add]
    split
    next hneg => rw [decide_eq_true_eq] at hneg; omega
    next hneg => rw [decide_eq_true_eq] at hneg; omega

omit h in
/-- The point, if any, stands behind the first digit, and an exponent follows. -/
theorem writesFrom_scientific {text : List Char} {scale : Int}
    (hmantissa : IsMantissa text (valueOf digits) scale) (hscale : scale = 1 - digits.length)
    (exponent : Int) :
    WritesFrom (text ++ 'e' :: (if exponent < 0 then '-' else '+') ::
      (List.replicate (2 - (Nat.toDigits 10 exponent.natAbs).length) '0' ++
        Nat.toDigits 10 exponent.natAbs)) digits exponent := by
  obtain ⟨hpower, hvalue⟩ := padded_spec exponent
  have hnumeral := IsNumeral.scientific hmantissa (decide (exponent < 0)) hpower
  rw [hvalue] at hnumeral
  simp only [decide_eq_true_eq] at hnumeral
  refine ⟨_, _, hnumeral, ?_⟩
  congr 2
  omega

/-- Digits are written with their first one at the given place. -/
theorem writesFrom_textOfDigits (exponent : Int) :
    WritesFrom (Binary64.textOfDigits digits exponent) digits exponent := by
  unfold Binary64.textOfDigits
  split
  next hpositional =>
    split
    next hnonneg =>
      dsimp only
      obtain ⟨k, hk⟩ : ∃ k : Nat, exponent = k - 1 := ⟨(exponent + 1).toNat, by omega⟩
      rw [hk, show ((k : Int) - 1 + 1).toNat = k by omega]
      obtain hshort | hlong := Nat.lt_or_ge k digits.length
      · have hzeros : k - (digits.take k).length = 0 := by rw [List.length_take]; omega
        rw [hzeros, List.replicate_zero, List.append_nil, if_neg (by simp; omega)]
        exact writesFrom_between h (by omega) hshort
      · rw [List.take_of_length_le hlong, List.drop_eq_nil_of_le hlong, List.isEmpty_nil,
          if_pos rfl]
        exact writesFrom_before h hlong
    next hnegative =>
      obtain ⟨k, hk⟩ : ∃ k : Nat, exponent = -k - 1 := ⟨(-exponent - 1).toNat, by omega⟩
      rw [hk, show (-(-(k : Int) - 1) - 1).toNat = k by omega]
      exact writesFrom_behind h k
  next hscientific =>
    dsimp only
    obtain ⟨first, rest, rfl⟩ := List.exists_cons_of_ne_nil h.nonempty
    have hfirst : IsDigits [first] := ⟨fun c hc => h.digit c (by simp_all), by simp⟩
    cases rest with
    | nil => exact writesFrom_scientific (.whole hfirst) (by simp) exponent
    | cons second rest =>
        have hfraction : IsDigits (second :: rest) :=
          ⟨fun c hc => h.digit c (List.mem_cons_of_mem first hc), by simp⟩
        exact writesFrom_scientific (.pointed hfirst hfraction) (by simp) exponent

end

/-- The digits of a decimal without the zeros at their end write it, from the place of its first
digit on. -/
theorem scientific_spec {decimal : Binary64.Decimal} (hne : decimal.digits ≠ 0) :
    IsDigits decimal.scientific.1 ∧
      (valueOf decimal.scientific.1 : ℚ) *
          10 ^ (decimal.scientific.2 - decimal.scientific.1.length + 1) =
        decimal.digits * 10 ^ decimal.exponent := by
  have hten : (10 : ℚ) ≠ 0 := by norm_num
  unfold Binary64.Decimal.scientific
  dsimp only
  have hdigits := isDigits_toDigits decimal.digits
  have hvalue := valueOf_toDigits decimal.digits
  generalize Nat.toDigits 10 decimal.digits = digits at hdigits hvalue
  have hsplit : (digits.reverse.dropWhile (· == '0')).reverse ++
      List.replicate (digits.reverse.takeWhile (· == '0')).length '0' = digits := by
    have hzeros : (digits.reverse.takeWhile (· == '0')).reverse =
        List.replicate (digits.reverse.takeWhile (· == '0')).length '0' := by
      rw [List.eq_replicate_iff, List.length_reverse]
      refine ⟨rfl, fun c hc => ?_⟩
      simpa using List.mem_takeWhile_imp (List.mem_reverse.mp hc)
    rw [← hzeros, ← List.reverse_append, List.takeWhile_append_dropWhile, List.reverse_reverse]
  generalize (digits.reverse.dropWhile (· == '0')).reverse = front at hsplit ⊢
  generalize (digits.reverse.takeWhile (· == '0')).length = count at hsplit
  subst hsplit
  rw [valueOf_append, valueOf_zeros, Nat.add_zero, List.length_replicate] at hvalue
  refine ⟨⟨fun c hc => hdigits.digit c (by simp [hc]), ?_⟩, ?_⟩
  · rintro rfl
    exact hne (by rw [← hvalue]; simp [valueOf])
  · rw [← hvalue, List.length_append, List.length_replicate]
    push_cast
    rw [mul_assoc, ← zpow_natCast, ← zpow_add₀ hten]
    congr 2
    omega

end Decimal

namespace Binary64

/-- The text of a number is read back as it. -/
theorem isNumeral_toChars {significand : Nat} {exponent : Int}
    (hformat : InFormat significand exponent) :
    ∃ d s, Decimal.IsNumeral (toChars (.finite false significand exponent)) d s ∧
      ofDecimal false d s = .finite false significand exponent := by
  rw [toChars]
  simp only [Bool.false_eq_true, if_false]
  by_cases hzero : significand = 0
  · have hexponent : exponent = minExponent := by
      obtain h | h := hformat.normal
      · omega
      · exact h
    rw [if_pos hzero, hzero, hexponent]
    exact ⟨0, -1, .positional (.pointed Decimal.isDigits_zero Decimal.isDigits_zero) (by decide),
      rfl⟩
  · have hpos := Nat.pos_of_ne_zero hzero
    have hreads := readsBack_shortest hformat hpos
    rw [if_neg hzero]
    generalize shortest significand exponent = decimal at hreads ⊢
    have hdigits : decimal.digits ≠ 0 := by
      intro hnone
      have hlow := (hreads.bounds hformat hpos).1
      rw [hnone, Nat.cast_zero, zero_mul] at hlow
      exact absurd hlow (not_le.mpr (zpow_pos two_pos _))
    obtain ⟨hall, hvalue⟩ := Decimal.scientific_spec hdigits
    obtain ⟨d, s, hnumeral, heq⟩ := Decimal.writesFrom_textOfDigits hall decimal.scientific.2
    refine ⟨d, s, hnumeral, ofDecimal_of_readsBack false hformat hpos ?_⟩
    rwa [heq, hvalue]

/-! ## Numbers without a sign -/

/-- Whether a number is of the format and, if its sign is known, not negative. -/
def IsUnsigned : Binary64 → Prop
  | .finite negative significand exponent => negative = false ∧ InFormat significand exponent
  | .infinite negative => negative = false
  | .notANumber _ => True

theorem sign_of_carried_finite {negative sign : Bool} {significand significand' : Nat}
    {exponent exponent' : Int}
    (h : carried negative significand exponent = .finite sign significand' exponent') :
    sign = negative := by
  unfold carried at h
  generalize (if significand = Nat.pow 2 precision then
    (Nat.pow 2 (precision - 1), exponent + 1) else (significand, exponent)) = place at h
  dsimp only at h
  split at h
  next => cases h
  next => exact (Binary64.finite.inj h).1.symm

theorem isUnsigned_ofRatio (dividend : Nat) {divisor : Nat} (hdivisor : divisor ≠ 0) :
    (ofRatio false dividend divisor).IsUnsigned := by
  have hcarried : dividend = 0 ∨ ∃ significand exponent,
      ofRatio false dividend divisor = carried false significand exponent := by
    by_cases hzero : dividend = 0
    · exact Or.inl hzero
    · exact Or.inr ⟨_, _, if_neg hzero⟩
  cases h : ofRatio false dividend divisor with
  | finite sign significand exponent =>
      refine ⟨?_, inFormat_ofRatio hdivisor h⟩
      obtain rfl | ⟨_, _, heq⟩ := hcarried
      · exact (Binary64.finite.inj h).1.symm
      · exact sign_of_carried_finite (heq.symm.trans h)
  | infinite sign =>
      obtain rfl | ⟨_, _, heq⟩ := hcarried
      · cases h
      · exact sign_of_carried (heq.symm.trans h)
  | notANumber origin => trivial

theorem isUnsigned_ofDecimal (digits : Nat) (exponent : Int) :
    (ofDecimal false digits exponent).IsUnsigned := by
  unfold ofDecimal
  dsimp only
  split
  next => exact ⟨rfl, by decide, by decide, by decide, Or.inr rfl⟩
  next =>
    split
    next => rfl
    next =>
      split
      next => exact isUnsigned_ofRatio _ Nat.one_ne_zero
      next => exact isUnsigned_ofRatio _ (Nat.pow_pos (by decide)).ne'

end Binary64

namespace Decimal

open Text

theorem isUnsigned_of_unsigned? {text : List Char} {x : Binary64}
    (h : unsigned? false text = some x) : x.IsUnsigned := by
  unfold unsigned? at h
  dsimp only at h
  split at h
  next =>
    obtain ⟨read, _, rfl⟩ := Option.map_eq_some_iff.mp h
    exact Binary64.isUnsigned_ofDecimal _ _
  next =>
    obtain ⟨read, _, h⟩ := Option.bind_eq_some_iff.mp h
    obtain ⟨exponent, _, h⟩ := Option.bind_eq_some_iff.mp h
    cases h
    exact Binary64.isUnsigned_ofDecimal _ _

/-- A character that is no margin stays the first one of a text without its margins. -/
theorem withoutMargins_cons {c : Char} (h : isMargin c = false) (rest : List Char) :
    ∃ more, withoutMargins (c :: rest) = c :: more := by
  rw [withoutMargins, List.dropWhile_cons_of_neg (by simp [h]), List.reverse_cons,
    List.dropWhile_append]
  split
  next => exact ⟨[], by simp [List.dropWhile_cons_of_neg, h]⟩
  next => exact ⟨_, List.reverse_append⟩

/-- A text that begins with a digit or a point writes a number without a sign. -/
theorem isUnsigned_of_read? {c : Char} (hc : isDecimalDigit c = true ∨ c = '.')
    {rest : List Char} {x : Binary64} (h : read? (c :: rest) = some x) : x.IsUnsigned := by
  -- the first character when digits are brought to one script
  obtain ⟨hblank, d, hd, hmarks⟩ : isBlank c = false ∧ ∃ d,
      (∀ more, asciiDigits (c :: more) = d :: asciiDigits more) ∧ d ∉ ['_', '+', '-'] := by
    obtain hdigit | rfl := hc
    · obtain ⟨value, hvalue⟩ := Option.isSome_iff_exists.mp hdigit
      obtain ⟨_, _, _, hle⟩ := toNat_of_decimalValue? hvalue
      have hsigns := (ascii_digit hle).2.2.2
      exact ⟨isBlank_of_decimalValue? hvalue, _, asciiDigits_cons hvalue,
        fun hmem => hsigns (by simp only [List.mem_cons, List.not_mem_nil, or_false] at hmem ⊢
                               tauto)⟩
    · exact ⟨by decide, '.', fun _ => rfl, by decide⟩
  obtain ⟨more, hmore⟩ := withoutMargins_cons (show isMargin c = false by
    rw [isMargin, hblank, Bool.false_and]) rest
  simp only [List.mem_cons, List.not_mem_nil, or_false, not_or] at hmarks
  rw [read?, hmore, hd] at h
  obtain ⟨plain, hplain, h⟩ := Option.bind_eq_some_iff.mp h
  rw [withoutUnderscores?, if_neg (by simp [hmarks.1])] at hplain
  split at hplain
  next => cases hplain
  next =>
    obtain ⟨others, _, rfl⟩ := Option.map_eq_some_iff.mp hplain
    have hsign : splitSign (d :: others) = (false, d :: others) := by
      unfold splitSign
      split
      next heq => exact absurd (List.cons.inj heq).1 hmarks.2.2
      next heq => exact absurd (List.cons.inj heq).1 hmarks.2.1
      next => rfl
    rw [hsign] at h
    dsimp only at h
    split at h
    next =>
      cases h
      rfl
    next =>
      split at h
      next =>
        cases h
        trivial
      next => exact isUnsigned_of_unsigned? h

end Decimal

namespace Expr

open Decimal

/-! ## Numerals as words -/

/-- What does not go on with digits or an exponent; a point may follow. -/
def EndsNumeral (rest : List Char) : Prop :=
  ∀ c ∈ rest.head?, Text.isDecimalDigit c = false ∧ c ∉ ['e', 'E']

theorem leadingDigits_of_isDigits {digits rest : List Char} (h : IsDigits digits)
    (hrest : ∀ c ∈ rest.head?, Text.isDecimalDigit c = false) :
    leadingDigits (digits ++ rest) = digits.length :=
  leadingDigits_digits (fun c hc => isDecimalDigit_of_isDigit (h.digit c hc)) hrest

theorem mantissaLength_of_isMantissa {text rest : List Char} {digits : Nat} {scale : Int}
    (h : IsMantissa text digits scale)
    (hrest : ∀ c ∈ rest.head?, Text.isDecimalDigit c = false)
    (hpoint : '.' ∈ text ∨ rest.head? ≠ some '.') :
    mantissaLength (text ++ rest) = text.length := by
  cases h with
  | whole h =>
      have hnone : '.' ∉ text := fun hmem => absurd (h.digit _ hmem) (by decide)
      have hleading := leadingDigits_of_isDigits h hrest
      rw [mantissaLength_of_no_point, hleading]
      intro more hmore
      rw [hleading, List.drop_left] at hmore
      exact hpoint.resolve_left hnone (by rw [hmore]; rfl)
  | @pointed whole fraction h hfraction =>
      have hleading : leadingDigits (whole ++ '.' :: fraction ++ rest) = whole.length := by
        rw [List.append_assoc]
        exact leadingDigits_of_isDigits h (by rintro _ ⟨⟩; decide)
      have hdrop : (whole ++ '.' :: fraction ++ rest).drop
          (leadingDigits (whole ++ '.' :: fraction ++ rest)) = '.' :: (fraction ++ rest) := by
        rw [hleading, List.append_assoc, List.drop_left]
        rfl
      have hpositive := List.length_pos_iff.mpr h.nonempty
      rw [mantissaLength_of_point hdrop, hleading, leadingDigits_of_isDigits hfraction hrest,
        if_neg (by omega), List.length_append, List.length_cons]
      omega

theorem numberLength_of_isNumeral {text rest : List Char} {digits : Nat} {scale : Int}
    (h : IsNumeral text digits scale) (hrest : EndsNumeral rest) :
    numberLength (text ++ rest) = text.length := by
  have hpositive : 0 < text.length := by
    obtain ⟨c, more, rfl, _⟩ := h.exists_cons
    exact Nat.succ_pos _
  have hends : ∀ c ∈ rest.head?, Text.isDecimalDigit c = false := fun c hc => (hrest c hc).1
  rw [numberLength_eq]
  cases h with
  | positional h hpoint =>
      rw [mantissaLength_of_isMantissa h hends (.inl hpoint), if_neg (by omega), List.drop_left,
        exponentLength_of_no_mark fun c hc => (hrest c hc).2, Nat.add_zero]
  | @scientific front power _ _ h negative hpower =>
      have hfront : 0 < front.length := by
        obtain ⟨c, more, rfl, _⟩ := h.exists_cons
        exact Nat.succ_pos _
      have hsign : signLength ((if negative then '-' else '+') :: (power ++ rest)) = 1 := by
        cases negative <;> rfl
      have hdigits := leadingDigits_of_isDigits hpower hends
      have hpower' := List.length_pos_iff.mpr hpower.nonempty
      rw [List.append_assoc, List.cons_append, List.cons_append,
        mantissaLength_of_isMantissa h (by rintro _ ⟨⟩; decide) (.inr (by simp)),
        if_neg (by omega), List.drop_left, exponentLength_cons, if_pos (by decide), hsign,
        List.drop_succ_cons, List.drop_zero, hdigits, if_neg (by omega), List.length_append,
        List.length_cons, List.length_cons]
      omega

/-- A numeral is a word as far as it goes. -/
theorem word_numeral {text rest : List Char} {digits : Nat} {scale : Int}
    (h : IsNumeral text digits scale) (hrest : EndsNumeral rest) :
    Word text (.number text) rest := by
  obtain ⟨c, more, htext, hc⟩ := h.exists_cons
  refine ⟨⟨c, more, htext, (h.isPlain c (by simp [htext])).facts.1⟩, ?_⟩
  have hpositive : text.length ≠ 0 := by simp [htext]
  rw [lexeme?.eq_def, numberLength_of_isNumeral h hrest]
  dsimp only
  rw [if_pos hpositive, List.take_left]

end Expr

end Transclude
