import Mathlib
import Transclude.Proofs.NumericText

/-! # Quotients and remainders of integers

Sums, differences and products of integers are exact, but a quotient is rounded and a
remainder is that of the rounded operands. So a product is divided by one of its
factors without loss when the other one has a floating-point number, and a remainder
is the one of the operands when both have. Beyond the range of floating point there
is neither. -/

namespace Transclude

namespace Binary64

/-! ## Remainders of finite numbers -/

/-- Remainders do not depend on the unit of measurement. -/
theorem mod_units {m n k l : Nat} {unit : Int} (hm : (m : ℚ) * 2 ^ unit = k)
    (hn : (n : ℚ) * 2 ^ unit = l) : ((m % n : Nat) : ℚ) * 2 ^ unit = (k % l : Nat) := by
  by_cases hunit : 0 ≤ unit
  · rw [← cast_pow_toNat hunit, ← Nat.cast_mul, Nat.cast_inj] at hm hn ⊢
    rw [← hm, ← hn, Nat.mul_mod_mul_right]
  · have hinverse {a b : Nat} (h : (a : ℚ) * 2 ^ unit = b) :
        a = b * Nat.pow 2 (-unit).toNat := by
      rw [← @Nat.cast_inj ℚ, Nat.cast_mul, cast_pow_toNat (by omega), ← h, mul_assoc,
        ← zpow_add₀ two_ne_zero, add_neg_cancel, zpow_zero, mul_one]
    rw [hinverse hm, hinverse hn, Nat.mul_mod_mul_right, Nat.cast_mul,
      cast_pow_toNat (by omega), mul_assoc, ← zpow_add₀ two_ne_zero, neg_add_cancel, zpow_zero,
      mul_one]

/-- What has a number is not changed by rounding. -/
theorem ofScaled_exact (negative : Bool) {significand : Nat} {exponent : Int}
    (hsignificand : significand < 2 ^ 53) (hleast : -1074 ≤ exponent) (hmost : exponent ≤ 971) :
    ∃ k place, ofScaled negative significand exponent = .finite negative k place ∧
      (k : ℚ) * 2 ^ place = significand * 2 ^ exponent := by
  unfold ofScaled
  split
  next hnonneg =>
    have hvalue : ((significand * Nat.pow 2 exponent.toNat : Nat) : ℚ) / (1 : Nat) =
        significand * 2 ^ exponent := by
      rw [Nat.cast_one, div_one, Nat.cast_mul, cast_pow_toNat hnonneg]
    rw [← hvalue]
    exact ofRatio_exact negative one_ne_zero hsignificand hleast hmost hvalue
  next hnegative =>
    have hvalue : (significand : ℚ) / (Nat.pow 2 (-exponent).toNat : Nat) =
        significand * 2 ^ exponent := by
      rw [cast_pow_toNat (by omega), zpow_neg, div_inv_eq_mul]
    rw [← hvalue]
    exact ofRatio_exact negative (Nat.two_pow_pos _).ne' hsignificand hleast hmost hvalue

theorem natCast_tmod (k : Nat) (l : Int) : (k : Int).tmod l = (k % l.natAbs : Nat) := by
  obtain h | h := Int.natAbs_eq l
  · rw [h, Int.natAbs_natCast]
    rfl
  · rw [h, Int.tmod_neg, Int.natAbs_neg, Int.natAbs_natCast]
    rfl

/-- The remainder of numbers that stand for integers is that of the integers. -/
theorem truncate_rem {negative sign : Bool} {m n : Nat} {p q k l : Int} (hx : InFormat m p)
    (hy : InFormat n q) (hk : scaled negative m p = k) (hl : scaled sign n q = l) (hzero : l ≠ 0) :
    ∃ r place, rem (.finite negative m p) (.finite sign n q) = .finite negative r place ∧
      (Number.float (.finite negative r place)).StandsFor (k.tmod l : Int) := by
  obtain ⟨hkvalue, hksign⟩ := natAbs_eq_of_scaled hk
  obtain ⟨hlvalue, -⟩ := natAbs_eq_of_scaled hl
  have hn : n ≠ 0 := by
    rintro rfl
    rw [Nat.cast_zero, zero_mul] at hlvalue
    exact hzero (Int.natAbs_eq_zero.mp (by exact_mod_cast hlvalue.symm))
  have hshift (a : Nat) {e : Int} (he : min p q ≤ e) :
      ((a * Nat.pow 2 (e - min p q).toNat : Nat) : ℚ) * 2 ^ min p q = a * 2 ^ e := by
    rw [Nat.cast_mul, cast_pow_toNat (by omega), mul_assoc, ← zpow_add₀ two_ne_zero,
      sub_add_cancel]
  have hmod := mod_units ((hshift m (min_le_left p q)).trans hkvalue)
    ((hshift n (min_le_right p q)).trans hlvalue)
  -- one of the operands is not shifted, and the remainder is not above it
  have hsmall :
      m * Nat.pow 2 (p - min p q).toNat % (n * Nat.pow 2 (q - min p q).toNat) < 2 ^ 53 := by
    obtain hle | hlt := le_or_gt p q
    · rw [min_eq_left hle, sub_self]
      exact (Nat.mod_le _ _).trans_lt (by simpa using hx.significand_lt)
    · rw [min_eq_right hlt.le, sub_self]
      refine (Nat.mod_lt _ ?_).trans (by simpa using hy.significand_lt)
      simpa using Nat.pos_of_ne_zero hn
  obtain ⟨r, place, heq, hvalue⟩ := ofScaled_exact negative hsmall
    (le_min hx.le_exponent hy.le_exponent) ((min_le_left p q).trans hx.exponent_le)
  refine ⟨r, place, ?_, ?_⟩
  · rw [rem, if_neg hn]
    exact heq
  · rw [Number.standsFor_finite, scaled]
    generalize k.natAbs = absolute at hksign hmod
    subst hksign
    cases negative with
    | false =>
        simp only [Bool.false_eq_true, if_false]
        rw [hvalue, hmod, natCast_tmod, Int.cast_natCast]
    | true =>
        simp only [if_true]
        rw [neg_mul, hvalue, hmod, Int.neg_tmod, natCast_tmod, Int.cast_neg, Int.cast_natCast]

end Binary64

namespace Number

/-! ## Quotients -/

/-- A quotient that stands for an integer is that integer. -/
theorem div_of_standsFor {m n k : Int} (hn : n ≠ 0) (h : (float (ratio m n)).StandsFor k) :
    div (.int m) (.int n) = .ok (.int k) := by
  have hzero : (int n).isZero = false := beq_eq_false_iff_ne.mpr hn
  rw [div, if_neg (by rw [hzero]; exact Bool.false_ne_true)]
  split
  next sign hratio =>
    rw [hratio] at h
    exact absurd h (not_standsFor_infinite _ _)
  next => rw [(Binary64.toInt?_of_standsFor h).1]

/-- The quotient of a product by one of its factors is rounded like the other factor. -/
theorem ratio_mul {m n : Int} (hm : m ≠ 0) (hn : n ≠ 0) : ratio (m * n) n = Binary64.ofInt m := by
  have hsign : (decide (m * n < 0) != decide (n < 0)) = decide (m < 0) := by
    rw [Bool.eq_iff_iff, bne_iff_ne, ne_eq, decide_eq_decide, decide_eq_true_eq, mul_neg_iff]
    omega
  rw [ratio, hsign, Binary64.ofInt, Int.natAbs_mul]
  refine Binary64.ofRatio_congr _ (Int.natAbs_ne_zero.mpr hn) one_ne_zero ?_
  have hne : ((n.natAbs : Nat) : ℚ) ≠ 0 := by exact_mod_cast Int.natAbs_ne_zero.mpr hn
  rw [Nat.cast_mul, Nat.cast_one, div_one, mul_div_cancel_right₀ _ hne]

/-- A product divided by one of its factors is the nearest integer to the other one that has a
floating-point number. -/
theorem exists_mul_div {m n : Int} (hn : n ≠ 0) (h : m.natAbs < Binary64.overflow) : ∃ k,
    Binary64.IsNearest m k ∧ div (.int (m * n)) (.int n) = .ok (.int k) := by
  by_cases hm : m = 0
  · refine ⟨0, ?_, div_of_standsFor hn ?_⟩
    · rw [hm]
      exact (Binary64.isNearest_self_iff (Binary64.hasFloat_of_lt (by decide))).mpr rfl
    · rw [hm, zero_mul, ratio, Int.natAbs_zero, Binary64.ofRatio, if_pos rfl]
      simp [Binary64.zero, Binary64.scaled]
  · obtain ⟨k, hpoint, hnear⟩ := Binary64.exists_nearest h
    exact ⟨k, hnear, div_of_standsFor hn (by rwa [ratio_mul hm hn])⟩

/-! ## Remainders -/

/-- A finite number of an integer is in the format. -/
theorem exists_floatOfInt {n : Int} (h : n.natAbs < Binary64.overflow) :
    ∃ k negative significand exponent, Binary64.IsNearest n k ∧
      floatOfInt n = .ok (.finite negative significand exponent) ∧
      Binary64.scaled negative significand exponent = k ∧
      Binary64.InFormat significand exponent := by
  obtain ⟨k, hpoint, hnear⟩ := Binary64.exists_nearest h
  rw [floatOfInt]
  cases hfloat : Binary64.ofInt n with
  | finite negative significand exponent =>
      rw [hfloat, standsFor_finite] at hpoint
      exact ⟨k, negative, significand, exponent, hnear, rfl, hpoint,
        Binary64.inFormat_ofRatio one_ne_zero hfloat⟩
  | infinite negative =>
      rw [hfloat] at hpoint
      exact absurd hpoint (not_standsFor_infinite _ _)
  | notANumber origin =>
      rw [hfloat] at hpoint
      exact absurd hpoint (not_standsFor_notANumber _ _)

/-- Nothing but zero is rounded to zero. -/
theorem ne_zero_of_isNearest {n k : Int} (hn : n ≠ 0) (h : Binary64.IsNearest n k) : k ≠ 0 := by
  rintro rfl
  have hclose := h.closest n.sign (Binary64.hasFloat_of_lt (by
    obtain hsign | hsign | hsign := Int.sign_trichotomy n <;> rw [hsign] <;> decide))
  obtain hneg | hpos := lt_or_gt_of_ne hn
  · rw [Int.sign_eq_neg_one_of_neg hneg] at hclose
    omega
  · rw [Int.sign_eq_one_of_pos hpos] at hclose
    omega

/-- The remainder of integers is that of the nearest ones that have floating-point numbers. -/
theorem exists_rem {m n : Int} (hn : n ≠ 0) (hm : m.natAbs < Binary64.overflow)
    (hn' : n.natAbs < Binary64.overflow) : ∃ k l, Binary64.IsNearest m k ∧ Binary64.IsNearest n l ∧
      rem (.int m) (.int n) = .ok (.int (k.tmod l)) := by
  obtain ⟨k, negative, s, p, hk, hfloat, hvalue, hformat⟩ := exists_floatOfInt hm
  obtain ⟨l, sign, t, q, hl, hfloat', hvalue', hformat'⟩ := exists_floatOfInt hn'
  obtain ⟨r, place, hrem, hpoint⟩ :=
    Binary64.truncate_rem hformat hformat' hvalue hvalue' (ne_zero_of_isNearest hn hl)
  have hzero : (int n).isZero = false := beq_eq_false_iff_ne.mpr hn
  refine ⟨k, l, hk, hl, ?_⟩
  rw [rem, if_neg (by rw [hzero]; exact Bool.false_ne_true), toFloat, toFloat, hfloat, hfloat',
    ok_bind, ok_bind, remainder, hrem, ok_bind]
  · dsimp only
    rw [(Binary64.toInt?_of_standsFor hpoint).2]
    rfl
  · intro _ h
    cases h
  · intro _ _ h
    cases h

end Number

namespace Expr

section

variable {scope : Scope} {m n : Int} {x y : Expr} (hx : HasValue scope x (.number (.int m)))
  (hy : HasValue scope y (.number (.int n)))

/-- A product divided by its second factor. -/
def timesOver (x y : Expr) : Expr := .binary .div (.group (.binary .mul x y)) y

/-- The expression is in want of a floating-point number for an integer beyond their range. -/
def Overflows (scope : Scope) (e : Expr) : Prop :=
  ∀ path, eval scope path e = .error (.fault .tooLarge)

include hx hy

theorem eval_timesOver (path : List Nat) : eval scope path (timesOver x y) =
    (do return .number (← Number.div (.int (m * n)) (.int n)) : Evaluation Located) := by
  have hproduct : HasValue scope (.group (.binary .mul x y)) (.number (.int (m * n))) := by
    intro path
    rw [eval, eval_binary_of_hasValue rfl hx hy]
    rfl
  rw [timesOver, eval_binary_of_hasValue rfl hproduct hy]
  rfl

theorem eval_rem (path : List Nat) : eval scope path (.binary .rem x y) =
    (do return .number (← Number.rem (.int m) (.int n)) : Evaluation Located) := by
  rw [eval_binary_of_hasValue rfl hx hy]
  rfl

/-- Dividing a product of integers by one of them, and taking a remainder, are exact for the integers
that have floating-point numbers. Other integers are first rounded to the nearest one that has, and
from the end of the range on neither operation gives a value. -/
theorem division_rounds (hn : n ≠ 0) :
    (m.natAbs < Binary64.overflow → ∃ k, Binary64.IsNearest m k ∧
      (k = m ↔ Binary64.HasFloat m) ∧ HasValue scope (timesOver x y) (.number (.int k))) ∧
    (Binary64.overflow ≤ m.natAbs → Overflows scope (timesOver x y)) ∧
    (m.natAbs < Binary64.overflow → n.natAbs < Binary64.overflow →
      ∃ k l, Binary64.IsNearest m k ∧ Binary64.IsNearest n l ∧
        HasValue scope (.binary .rem x y) (.number (.int (k.tmod l)))) ∧
    (Binary64.HasFloat m → Binary64.HasFloat n → ∃ q r, m = q * n + r ∧ r.natAbs < n.natAbs ∧
      (r = 0 ∨ r.sign = m.sign) ∧ HasValue scope (.binary .rem x y) (.number (.int r))) ∧
    (Binary64.overflow ≤ m.natAbs ∨ Binary64.overflow ≤ n.natAbs →
      Overflows scope (.binary .rem x y)) := by
  refine ⟨fun h => ?_, fun h path => ?_, fun hm hn' => ?_, fun hm hn' => ?_, fun h path => ?_⟩
  · obtain ⟨k, hnear, hdiv⟩ := Number.exists_mul_div hn h
    refine ⟨k, hnear, ⟨fun heq => heq ▸ hnear.hasFloat, fun hm => ?_⟩, fun path => ?_⟩
    · exact (Binary64.isNearest_self_iff hm).mp hnear
    · rw [eval_timesOver hx hy, hdiv]
      rfl
  · have hlarge := Nat.mul_le_mul_right n.natAbs h
    rw [← Int.natAbs_mul] at hlarge
    rw [eval_timesOver hx hy, (Number.div_eq_error_iff _ _ .tooLarge).mpr (.quotient hn hlarge)]
    rfl
  · obtain ⟨k, l, hk, hl, hrem⟩ := Number.exists_rem hn hm hn'
    refine ⟨k, l, hk, hl, fun path => ?_⟩
    rw [eval_rem hx hy, hrem]
    rfl
  · obtain ⟨k, l, hk, hl, hrem⟩ := Number.exists_rem hn hm.lt_overflow hn'.lt_overflow
    obtain rfl := (Binary64.isNearest_self_iff hm).mp hk
    obtain rfl := (Binary64.isNearest_self_iff hn').mp hl
    refine ⟨k.tdiv l, k.tmod l, ?_, ?_, ?_, fun path => ?_⟩
    · rw [add_comm, Int.tmod_add_tdiv_mul]
    · rw [Int.natAbs_tmod]
      exact Nat.mod_lt _ (Int.natAbs_pos.mpr hn)
    · by_cases hdvd : l ∣ k
      · exact Or.inl (Int.tmod_eq_zero_of_dvd hdvd)
      · exact Or.inr (by rw [Int.sign_tmod, if_neg hdvd])
    · rw [eval_rem hx hy, hrem]
      rfl
  · have hzero : (Number.int n).isZero = false := beq_eq_false_iff_ne.mpr hn
    have hrem := (Number.rem_eq_error_iff (.int m) (.int n) .tooLarge).mpr (.remainder hzero h)
    rw [eval_rem hx hy, hrem]
    rfl

end

theorem division_rounds_negative :
    (-3 : Int) ≠ 0 ∧ Binary64.HasFloat (2 ^ 70) ∧ Binary64.HasFloat (-3) ∧
      HasValue [] (timesOver (.literal (.number (.int (2 ^ 70)))) (.literal (.number (.int (-3)))))
        (.number (.int (2 ^ 70))) ∧
      ∃ q r, 2 ^ 70 = q * (-3) + r ∧ r.natAbs < (-3 : Int).natAbs ∧
        (r = 0 ∨ r.sign = (2 ^ 70 : Int).sign) ∧
        HasValue [] (.binary .rem (.literal (.number (.int (2 ^ 70))))
          (.literal (.number (.int (-3))))) (.number (.int r)) := by
  have hm : Binary64.HasFloat (2 ^ 70) := ⟨1, 70, by decide, by decide, by decide⟩
  have hn : Binary64.HasFloat (-3) := Binary64.hasFloat_of_lt (by decide)
  have hx : HasValue [] (.literal (.number (.int (2 ^ 70)))) (.number (.int (2 ^ 70))) :=
    hasValue_literal _
  have hy : HasValue [] (.literal (.number (.int (-3)))) (.number (.int (-3))) :=
    hasValue_literal _
  obtain ⟨hdiv, -, -, hrem, -⟩ := division_rounds hx hy (by decide)
  obtain ⟨k, -, hexact, hvalue⟩ := hdiv hm.lt_overflow
  exact ⟨by decide, hm, hn, hexact.mpr hm ▸ hvalue, hrem hm hn⟩

/-- The least positive integer without a floating-point number is changed by a division by one, and
is odd without a remainder. -/
theorem not_division_rounds :
    HasValue [] (timesOver (.literal (.number (.int 9007199254740993)))
      (.literal (.number (.int 1)))) (.number (.int 9007199254740992)) ∧
    HasValue [] (.binary .rem (.literal (.number (.int 9007199254740993)))
      (.literal (.number (.int 2)))) (.number (.int 0)) := by
  refine ⟨fun path => ?_, fun path => ?_⟩
  · rw [eval_timesOver (hasValue_literal _) (hasValue_literal _)]
    have hdiv : Number.div (.int (9007199254740993 * 1)) (.int 1) =
        .ok (.int 9007199254740992) := by decide +kernel
    rw [hdiv]
    rfl
  · rw [eval_rem (hasValue_literal _) (hasValue_literal _)]
    have hrem : Number.rem (.int 9007199254740993) (.int 2) = .ok (.int 0) := by decide +kernel
    rw [hrem]
    rfl

end Expr

end Transclude
