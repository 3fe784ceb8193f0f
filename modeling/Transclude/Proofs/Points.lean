import Mathlib
import Transclude.Expr.Eval
import Transclude.Proofs.KeyEquality
import Transclude.Proofs.Overflow

/-! # Points of the number line

Numbers are compared with integers by the points that they stand for. The number
nearest to an integer stands for the integer itself below `2 ^ 53`, and for no point
below `2 ^ 53` from there on, so that a text of digits names a place before any
limit up to `2 ^ 53` exactly when the number it is converted to lies there. -/

namespace Transclude

namespace Binary64

/-- A whole multiple of the inverse of a unit is an integer. -/
theorem scaled_mul_unit (negative : Bool) (quotient : Nat) {exponent : Int} (h : exponent ≤ 0) :
    scaled negative (quotient * Nat.pow 2 (-exponent).toNat) exponent =
      scaled negative quotient 0 := by
  have hunit : ((Nat.pow 2 (-exponent).toNat : Nat) : ℚ) * 2 ^ exponent = 1 := by
    rw [Nat.pow_eq, cast_two_pow, Int.toNat_of_nonneg (by omega), ← zpow_add₀ two_ne_zero,
      neg_add_cancel, zpow_zero]
  unfold scaled
  cases negative <;> simp only [Nat.cast_mul, Bool.false_eq_true, if_true, if_false, neg_mul,
    mul_assoc, hunit, mul_one, zpow_zero]

end Binary64

/-! ## Comparison with integers -/

namespace Number

/-- A number stands for a rational point. -/
def StandsFor (n : Number) (q : ℚ) : Prop := n.point? = some ((q : WithTop ℚ) : WithBot (WithTop ℚ))

@[simp] theorem standsFor_int (m : Int) (q : ℚ) : (int m).StandsFor q ↔ (m : ℚ) = q := by
  simp [StandsFor, point?]

@[simp] theorem standsFor_finite (negative : Bool) (significand : Nat) (exponent : Int) (q : ℚ) :
    (float (.finite negative significand exponent)).StandsFor q ↔
      Binary64.scaled negative significand exponent = q := by
  simp [StandsFor, point?]

@[simp] theorem not_standsFor_infinite (negative : Bool) (q : ℚ) :
    ¬ (float (.infinite negative)).StandsFor q := by
  cases negative <;> simp [StandsFor, point?]

@[simp] theorem not_standsFor_notANumber (origin : Option (List Nat)) (q : ℚ) :
    ¬ (float (.notANumber origin)).StandsFor q := by
  simp [StandsFor, point?]

theorem StandsFor.unique {n : Number} {p q : ℚ} (hp : n.StandsFor p) (hq : n.StandsFor q) :
    p = q := by
  simpa [StandsFor] using hp.symm.trans hq

theorem compareInt?_of_standsFor (k : Int) {x : Binary64} {q : ℚ} (h : (float x).StandsFor q) :
    Binary64.compareInt? k x = some (compare (k : ℚ) q) := by
  cases x with
  | finite negative significand exponent =>
      have hunit : (0 : ℚ) < 2 ^ (-(min 0 exponent)) := zpow_pos two_pos _
      have hcast : ((k * (Nat.pow 2 (-(min 0 exponent)).toNat : Nat) : Int) : ℚ) =
          (k : ℚ) * 2 ^ (-(min 0 exponent)) := by
        rw [Nat.pow_eq, ← Int.toNat_of_nonneg (show 0 ≤ -(min 0 exponent) by omega), zpow_natCast,
          Int.toNat_natCast]
        push_cast
        rfl
      rw [Binary64.compareInt?, ← cmp_eq_compare, ← cmp_eq_compare,
        ← (@Int.cast_strictMono ℚ _ _ _ _ _).cmp_map_eq, hcast,
        Binary64.signedAt_eq_scaled (min_le_right 0 exponent), cmp_mul_pos_right hunit,
        (standsFor_finite _ _ _ _).mp h]
  | infinite negative => exact absurd h (not_standsFor_infinite _ _)
  | notANumber origin => exact absurd h (not_standsFor_notANumber _ _)

/-- A number is ordered before and behind integers like its point. -/
theorem compare?_int_of_standsFor {n : Number} (k : Int) {q : ℚ} (h : n.StandsFor q) :
    n.compare? (.int k) = some (compare q (k : ℚ)) := by
  cases n with
  | int m =>
      rw [compare?, ← (standsFor_int m q).mp h, ← cmp_eq_compare, ← cmp_eq_compare,
        (@Int.cast_strictMono ℚ _ _ _ _ _).cmp_map_eq]
  | float x =>
      rw [compare?, compareInt?_of_standsFor k h, Option.map_some, ← Std.OrientedCmp.eq_swap]

/-- A number stands for the integer that it is equal to. -/
theorem standsFor_of_toInt? {n : Number} {p : Int} (h : n.toInt? = some p) : n.StandsFor p := by
  cases n with
  | int m =>
      obtain rfl : m = p := Option.some.inj h
      rw [standsFor_int]
  | float x =>
      cases x with
      | finite negative significand exponent =>
          rw [standsFor_finite]
          rw [toInt?, Binary64.toInt?] at h
          split at h
          next hnonneg =>
            have hp := Binary64.signedAt_eq_scaled hnonneg negative significand
            rw [Option.some.inj h] at hp
            simpa using hp.symm
          next hfraction =>
            dsimp only at h
            split at h
            next hdivides =>
              have hwhole := Nat.div_mul_cancel (Nat.dvd_of_mod_eq_zero hdivides)
              generalize significand / Nat.pow 2 (-exponent).toNat = quotient at h hwhole
              have hp := @Binary64.signedAt_eq_scaled 0 0 le_rfl negative quotient
              rw [Option.some.inj h] at hp
              rw [← hwhole, Binary64.scaled_mul_unit negative quotient (by omega)]
              simpa using hp.symm
            next => cases h
      | infinite negative => cases h
      | notANumber origin => cases h

/-- A number lies among the positions of a list of the given length. -/
def Within (n : Number) (length : Nat) : Prop := ∃ q : ℚ, n.StandsFor q ∧ 0 ≤ q ∧ q < length

theorem within_of_toInt? {n : Number} {p : Int} (h : n.toInt? = some p) (length : Nat) :
    n.Within length ↔ 0 ≤ p ∧ p < length := by
  have hpoint := standsFor_of_toInt? h
  constructor
  · rintro ⟨q, hq, hlow, hhigh⟩
    obtain rfl := hpoint.unique hq
    exact ⟨by exact_mod_cast hlow, by exact_mod_cast hhigh⟩
  · rintro ⟨hlow, hhigh⟩
    exact ⟨p, hpoint, by exact_mod_cast hlow, by exact_mod_cast hhigh⟩

end Number

namespace Expr

/-- The test of a position compares the point of a number with both ends of a list. -/
theorem inRange_iff {n : Number} {q : ℚ} (h : n.StandsFor q) (length : Nat) :
    (n.compare? (.int 0) != some .lt && n.compare? (.int length) == some .lt) = true ↔
      n.Within length := by
  rw [Number.compare?_int_of_standsFor 0 h, Number.compare?_int_of_standsFor length h]
  simp only [Bool.and_eq_true, bne_iff_ne, ne_eq, beq_iff_eq, Option.some.injEq,
    compare_lt_iff_lt, not_lt, Int.cast_zero, Int.cast_natCast]
  constructor
  · rintro ⟨hlow, hhigh⟩
    exact ⟨q, h, hlow, hhigh⟩
  · rintro ⟨p, hp, hlow, hhigh⟩
    obtain rfl := h.unique hp
    exact ⟨hlow, hhigh⟩

/-- The test of a position finds the numbers among the positions of a list, as long as these have
floating-point numbers. -/
theorem isPosition_eq_true_iff (n : Number) {length : Nat} (hlength : length ≤ Binary64.overflow) :
    isPosition n length = .ok true ↔ n.Within length := by
  have hcases (x : Binary64) (hx : n.toFloat = .ok x) (hnumber : x.isNaN = false) :
      isPosition n length =
        .ok (n.compare? (.int 0) != some .lt && n.compare? (.int length) == some .lt) := by
    rw [isPosition, hx]
    simp only [hnumber, bind, Except.bind, Bool.false_eq_true, if_false, pure, Except.pure]
  cases n with
  | int m =>
      have hpoint : (Number.int m).StandsFor m := (Number.standsFor_int _ _).mpr rfl
      cases hfloat : Number.floatOfInt m with
      | error kind =>
          -- an integer without a floating-point number lies outside every such list
          have hlarge := (Number.floatOfInt_eq_error_iff m kind).mp hfloat
          rw [Number.within_of_toInt? (show (Number.int m).toInt? = some m from rfl), isPosition,
            Number.toFloat, hfloat]
          exact ⟨nofun, fun h => by omega⟩
      | ok x =>
          have hnumber : x.isNaN = false := by
            unfold Number.floatOfInt at hfloat
            have hratio := Binary64.isNaN_ofRatio (decide (m < 0)) m.natAbs 1
            split at hfloat
            next => cases hfloat
            next => exact Except.ok.inj hfloat ▸ hratio
          rw [hcases x hfloat hnumber, Except.ok.injEq, inRange_iff hpoint]
  | float x =>
      cases x with
      | finite negative significand exponent =>
          rw [hcases _ rfl rfl, Except.ok.injEq,
            inRange_iff ((Number.standsFor_finite _ _ _ _).mpr rfl)]
      | infinite negative =>
          rw [hcases _ rfl rfl, Except.ok.injEq]
          constructor
          · cases negative <;> nofun
          · rintro ⟨q, hq, _⟩
            exact absurd hq (Number.not_standsFor_infinite _ _)
      | notANumber origin =>
          constructor
          · nofun
          · rintro ⟨q, hq, _⟩
            exact absurd hq (Number.not_standsFor_notANumber _ _)

end Expr

/-! ## Rounding of integers -/

namespace Binary64

theorem divideToEven_one (dividend : Nat) : divideToEven dividend 1 = dividend := by
  simp [divideToEven, Nat.mod_one]

theorem div_le_divideToEven (dividend divisor : Nat) :
    dividend / divisor ≤ divideToEven dividend divisor := by
  unfold divideToEven
  dsimp only
  split
  next => exact le_rfl
  next =>
    split
    next => exact Nat.le_succ _
    next => exact Nat.le_add_right _ _

/-- A carry does not change the number. -/
theorem standsFor_carried {negative : Bool} {significand : Nat} {exponent : Int} {q : ℚ}
    (h : (Number.float (carried negative significand exponent)).StandsFor q) :
    q = scaled negative significand exponent := by
  unfold carried at h
  by_cases htop : significand = Nat.pow 2 precision
  · have hpower : (Nat.pow 2 precision : Nat) = 2 * (Nat.pow 2 (precision - 1) : Nat) := by decide
    simp only [if_pos htop] at h
    split at h
    next => exact absurd h (Number.not_standsFor_infinite _ _)
    next =>
      rw [← (Number.standsFor_finite _ _ _ _).mp h, htop, hpower]
      unfold scaled
      rw [zpow_add₀ two_ne_zero, zpow_one]
      split <;> push_cast <;> ring
  · simp only [if_neg htop] at h
    split at h
    next => exact absurd h (Number.not_standsFor_infinite _ _)
    next => exact ((Number.standsFor_finite _ _ _ _).mp h).symm

theorem toInt?_mul_unit (n k : Nat) :
    toInt? (.finite false (n * Nat.pow 2 k) (-(k : Int))) = some (n : Int) := by
  rw [toInt?]
  split
  next hnonneg =>
    obtain rfl : k = 0 := by omega
    simp [signedAt]
  next =>
    have hunit : (-(-(k : Int))).toNat = k := by omega
    simp only [hunit, Nat.pow_eq, Nat.mul_mod_left, if_true, signedAt, Bool.false_eq_true,
      if_false, Nat.mul_div_cancel n (Nat.two_pow_pos k)]
    simp

/-- The rounding of a natural number in terms of the power of two below it. -/
theorem ofRatio_one_eq {p n : Nat} (hlow : 2 ^ n ≤ p) (hhigh : p < 2 ^ (n + 1)) :
    ofRatio false p 1 =
      if n ≤ 52 then carried false (p * Nat.pow 2 (52 - n)) (-((52 - n : Nat) : Int))
      else carried false (divideToEven p (Nat.pow 2 (n - 52))) ((n - 52 : Nat) : Int) := by
  have hne : p ≠ 0 := (Nat.lt_of_lt_of_le (Nat.two_pow_pos n) hlow).ne'
  have hlog : binaryLog p 1 = n := by
    have hbelow := mt (le_of_le_binaryLog hne one_ne_zero (k := n + 1)) (by omega)
    have habove := mt (lt_of_binaryLog_lt hne one_ne_zero (k := n)) (by omega)
    push_cast at hbelow
    omega
  have hmax : max ((n : Int) - ((precision : Nat) - 1)) minExponent = n - 52 := by
    unfold precision minExponent
    omega
  rw [ofRatio, if_neg hne, hlog, hmax]
  dsimp only
  split
  next hnonneg =>
    split
    next =>
      obtain rfl : n = 52 := by omega
      simp [divideToEven_one]
    next =>
      have hexponent : (n : Int) - 52 = ((n - 52 : Nat) : Int) := by omega
      rw [hexponent, Int.toNat_natCast, Nat.one_mul]
  next =>
    have hexponent : (n : Int) - 52 = -((52 - n : Nat) : Int) := by omega
    rw [if_pos (by omega), hexponent, neg_neg, Int.toNat_natCast, divideToEven_one]

theorem exists_powers {p : Nat} (h : p ≠ 0) : ∃ n, 2 ^ n ≤ p ∧ p < 2 ^ (n + 1) :=
  ⟨Nat.log 2 p, Nat.pow_log_le_self 2 h, Nat.lt_pow_succ_log_self one_lt_two p⟩

/-- A natural number below `2 ^ 53` is its own nearest number. -/
theorem toInt?_ofRatio_one {p : Nat} (h : p < 2 ^ 53) :
    (ofRatio false p 1).toInt? = some (p : Int) := by
  by_cases hzero : p = 0
  · subst hzero
    rw [ofRatio, if_pos rfl, zero, toInt?, if_neg (by decide)]
    simp only [Nat.zero_mod, Nat.zero_div, if_true]
    rfl
  obtain ⟨n, hlow, hhigh⟩ := exists_powers hzero
  have hn : n ≤ 52 := by
    by_contra hlarge
    have hpower : 2 ^ 53 ≤ 2 ^ n := Nat.pow_le_pow_right two_pos (by omega)
    omega
  have hsmall : p * Nat.pow 2 (52 - n) < Nat.pow 2 precision := by
    have hsplit : Nat.pow 2 precision = 2 ^ (n + 1) * Nat.pow 2 (52 - n) := by
      rw [Nat.pow_eq, Nat.pow_eq, ← pow_add]
      congr 1
      unfold precision
      omega
    rw [hsplit]
    exact Nat.mul_lt_mul_of_pos_right hhigh (Nat.pow_pos two_pos)
  rw [ofRatio_one_eq hlow hhigh, if_pos hn, carried]
  simp only [if_neg hsmall.ne]
  rw [if_neg (by unfold maxExponent; omega)]
  exact toInt?_mul_unit p (52 - n)

/-- The number nearest to a natural number from `2 ^ 53` on is not below that. -/
theorem le_of_standsFor_ofRatio_one {p : Nat} (h : 2 ^ 53 ≤ p) {q : ℚ}
    (hq : (Number.float (ofRatio false p 1)).StandsFor q) : 2 ^ 53 ≤ q := by
  obtain ⟨n, hlow, hhigh⟩ := exists_powers (show p ≠ 0 by omega)
  have hn : ¬ n ≤ 52 := by
    intro hsmall
    have hpower : 2 ^ (n + 1) ≤ 2 ^ 53 := Nat.pow_le_pow_right two_pos (by omega)
    omega
  rw [ofRatio_one_eq hlow hhigh, if_neg hn] at hq
  have hquotient : 2 ^ 52 ≤ p / Nat.pow 2 (n - 52) := by
    rw [Nat.pow_eq, Nat.le_div_iff_mul_le (Nat.two_pow_pos _), ← pow_add,
      show 52 + (n - 52) = n by omega]
    exact hlow
  have hsignificand := hquotient.trans (div_le_divideToEven _ _)
  calc (2 : ℚ) ^ 53 = ((2 ^ 52 : Nat) : ℚ) * 2 ^ (1 : ℤ) := by norm_num
    _ ≤ (divideToEven p (Nat.pow 2 (n - 52)) : ℚ) * 2 ^ ((n - 52 : Nat) : ℤ) := by
      gcongr
      · exact one_le_two
      · omega
    _ = q := (standsFor_carried hq).symm

theorem toInt?_ofDecimal {p : Nat} (h : p < 2 ^ 53) :
    (ofDecimal false p 0).toInt? = some (p : Int) := by
  have hlength : (Nat.toDigits 10 p).length ≤ 16 :=
    Nat.toDigits_length 10 p 16 (by decide) (h.trans (by decide))
  have hratio := toInt?_ofRatio_one h
  unfold ofDecimal
  by_cases hzero : p = 0
  · subst hzero
    rw [if_pos (Or.inl rfl)]
    rwa [ofRatio, if_pos rfl] at hratio
  · rw [if_neg (by omega), if_neg (by omega), if_pos le_rfl]
    simpa using hratio

theorem le_of_standsFor_ofDecimal {p : Nat} (h : 2 ^ 53 ≤ p) {q : ℚ}
    (hq : (Number.float (ofDecimal false p 0)).StandsFor q) : 2 ^ 53 ≤ q := by
  unfold ofDecimal at hq
  rw [if_neg (by omega)] at hq
  split at hq
  next => exact absurd hq (Number.not_standsFor_infinite _ _)
  next =>
    rw [if_pos le_rfl] at hq
    exact le_of_standsFor_ofRatio_one h (by simpa using hq)

end Binary64

end Transclude
