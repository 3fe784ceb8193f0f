import Mathlib
import Transclude.Number.Basic

/-! # Integers beyond the range of floating point

A quotient is rounded to an infinity when it reaches the middle between the largest
number and the next power of two. So an integer from there on has no floating-point
number, and arithmetic that needs one has no result. -/

namespace Transclude

namespace Binary64

/-- Half the distance of the largest numbers from each other. -/
def topHalf : Nat := 2 ^ 970

/-- The least integer that is rounded to an infinity. -/
def overflow : Nat := (2 ^ 54 - 1) * topHalf

theorem topHalf_pos : 0 < topHalf := by
  unfold topHalf
  positivity

theorem overflow_pos : 0 < overflow := Nat.mul_pos (by decide) topHalf_pos

theorem cast_two_pow (n : Nat) : ((2 ^ n : Nat) : ℚ) = 2 ^ (n : ℤ) := by
  rw [Nat.cast_pow, Nat.cast_two, zpow_natCast]

theorem two_pow_log2_le {n : Nat} (hn : n ≠ 0) : (2 : ℚ) ^ (n.log2 : ℤ) ≤ n := by
  rw [zpow_natCast]
  exact_mod_cast Nat.log2_self_le hn

theorem lt_two_pow_log2 (n : Nat) : (n : ℚ) < 2 ^ ((n.log2 : ℤ) + 1) := by
  rw [← Nat.cast_succ, zpow_natCast]
  exact_mod_cast Nat.lt_log2_self

/-- The difference of the logarithms is that of the quotient, or one more. -/
theorem log2_sub_spec {dividend divisor : Nat} (hdividend : dividend ≠ 0) (hdivisor : divisor ≠ 0) :
    (divisor : ℚ) * 2 ^ ((dividend.log2 : ℤ) - divisor.log2 - 1) ≤ dividend ∧
      (dividend : ℚ) < divisor * 2 ^ ((dividend.log2 : ℤ) - divisor.log2 + 1) := by
  have hne : (2 : ℚ) ≠ 0 := two_ne_zero
  constructor
  · calc (divisor : ℚ) * 2 ^ ((dividend.log2 : ℤ) - divisor.log2 - 1)
      _ ≤ 2 ^ ((divisor.log2 : ℤ) + 1) * 2 ^ ((dividend.log2 : ℤ) - divisor.log2 - 1) := by
        gcongr
        exact (lt_two_pow_log2 divisor).le
      _ = 2 ^ (dividend.log2 : ℤ) := by
        rw [← zpow_add₀ hne]
        congr 1
        ring
      _ ≤ dividend := two_pow_log2_le hdividend
  · calc (dividend : ℚ) < 2 ^ ((dividend.log2 : ℤ) + 1) := lt_two_pow_log2 dividend
      _ = 2 ^ (divisor.log2 : ℤ) * 2 ^ ((dividend.log2 : ℤ) - divisor.log2 + 1) := by
        rw [← zpow_add₀ hne]
        congr 1
        ring
      _ ≤ _ := by
        gcongr
        exact two_pow_log2_le hdivisor

/-- A power is compared with a quotient without fractions: a negative one is moved to the other
side. -/
theorem reaches_power_iff (dividend divisor : Nat) (exponent : ℤ) :
    (if 0 ≤ exponent then divisor * Nat.pow 2 exponent.toNat ≤ dividend
      else divisor ≤ dividend * Nat.pow 2 (-exponent).toNat) ↔
        (divisor : ℚ) * 2 ^ exponent ≤ dividend := by
  have hpow (k : ℤ) (hk : 0 ≤ k) : ((Nat.pow 2 k.toNat : Nat) : ℚ) = 2 ^ k := by
    rw [Nat.pow_eq, Nat.cast_pow, Nat.cast_two, ← zpow_natCast, Int.toNat_of_nonneg hk]
  split
  next hnonneg =>
    rw [← hpow exponent hnonneg, ← Nat.cast_mul, Nat.cast_le]
  next hnegative =>
    rw [← @Nat.cast_le ℚ, Nat.cast_mul, hpow (-exponent) (by omega), zpow_neg,
      ← div_eq_mul_inv, le_div_iff₀ (zpow_pos two_pos _)]

/-- The binary logarithm is rounded down. -/
theorem binaryLog_spec {dividend divisor : Nat} (hdividend : dividend ≠ 0)
    (hdivisor : divisor ≠ 0) :
    (divisor : ℚ) * 2 ^ binaryLog dividend divisor ≤ dividend ∧
      (dividend : ℚ) < divisor * 2 ^ (binaryLog dividend divisor + 1) := by
  obtain ⟨habove, hbelow⟩ := log2_sub_spec hdividend hdivisor
  unfold binaryLog
  generalize (dividend.log2 : ℤ) - divisor.log2 = estimate at hbelow habove
  dsimp only
  have hreached := reaches_power_iff dividend divisor estimate
  by_cases h : (divisor : ℚ) * 2 ^ estimate ≤ dividend
  · rw [if_pos (hreached.mpr h)]
    exact ⟨h, hbelow⟩
  · -- the estimate was one too high
    rw [if_neg (fun h' => h (hreached.mp h'))]
    refine ⟨habove, ?_⟩
    rw [sub_add_cancel]
    exact not_le.mp h

/-- A quotient below `2 ^ 54`, in units of a half, is rounded to `2 ^ 53` from the last half on. -/
theorem divideToEven_eq_top_iff {dividend half : Nat} (hhalf : 0 < half)
    (hlt : dividend < 2 ^ 54 * half) :
    divideToEven dividend (2 * half) = 2 ^ 53 ↔ (2 ^ 54 - 1) * half ≤ dividend := by
  have hdivision := Nat.div_add_mod dividend (2 * half)
  have hrest := Nat.mod_lt dividend (by omega : 2 * half > 0)
  have hquotient : dividend / (2 * half) < 2 ^ 53 := by
    rw [Nat.div_lt_iff_lt_mul (by omega)]
    omega
  unfold divideToEven
  generalize dividend / (2 * half) = quotient at hdivision hquotient
  generalize dividend % (2 * half) = rest at hdivision hrest
  obtain htop | hbelow := (show quotient = 2 ^ 53 - 1 ∨ quotient ≤ 2 ^ 53 - 2 by omega)
  · subst htop
    dsimp only
    split
    next hdown => constructor <;> omega
    next =>
      split
      next hup => constructor <;> omega
      next hmiddle => constructor <;> omega
  · have hproduct : 2 * half * quotient ≤ 2 * half * (2 ^ 53 - 2) :=
      Nat.mul_le_mul_left _ hbelow
    dsimp only
    constructor
    · intro heq
      split at heq
      next => omega
      next =>
        split at heq
        next => omega
        next => omega
    · intro hle
      omega

theorem carried_infinite_iff (negative : Bool) (significand : Nat) (exponent : Int) :
    (∃ sign, carried negative significand exponent = .infinite sign) ↔
      971 < exponent ∨ 971 ≤ exponent ∧ significand = 2 ^ 53 := by
  unfold carried maxExponent precision
  by_cases htop : significand = Nat.pow 2 53
  · rw [if_pos htop]
    dsimp only
    split
    next hlarge => exact ⟨fun _ => Or.inr ⟨by omega, htop⟩, fun _ => ⟨_, rfl⟩⟩
    next hsmall =>
      constructor
      · rintro ⟨_, h⟩
        cases h
      · intro h
        omega
  · rw [if_neg htop]
    dsimp only
    split
    next hlarge => exact ⟨fun _ => Or.inl hlarge, fun _ => ⟨_, rfl⟩⟩
    next hsmall =>
      constructor
      · rintro ⟨_, h⟩
        cases h
      · rintro (h | ⟨_, h⟩)
        · exact (hsmall h).elim
        · exact (htop h).elim

theorem lt_of_binaryLog_lt {dividend divisor : Nat} (hdividend : dividend ≠ 0)
    (hdivisor : divisor ≠ 0) {k : Nat} (h : binaryLog dividend divisor < k) :
    dividend < 2 ^ k * divisor := by
  have hlt := (binaryLog_spec hdividend hdivisor).2
  rw [← @Nat.cast_lt ℚ, Nat.cast_mul, cast_two_pow, mul_comm]
  refine hlt.trans_le ?_
  gcongr
  · exact one_le_two
  · omega

theorem le_of_le_binaryLog {dividend divisor : Nat} (hdividend : dividend ≠ 0)
    (hdivisor : divisor ≠ 0) {k : Nat} (h : k ≤ binaryLog dividend divisor) :
    2 ^ k * divisor ≤ dividend := by
  have hle := (binaryLog_spec hdividend hdivisor).1
  rw [← @Nat.cast_le ℚ, Nat.cast_mul, cast_two_pow, mul_comm]
  refine le_trans ?_ hle
  gcongr
  exact one_le_two

theorem two_pow_mul (k divisor : Nat) :
    2 ^ (970 + k) * divisor = 2 ^ k * (topHalf * divisor) := by
  rw [pow_add, topHalf, Nat.mul_comm (2 ^ 970), Nat.mul_assoc]

theorem isNaN_carried (negative : Bool) (significand : Nat) (exponent : Int) :
    (carried negative significand exponent).isNaN = false := by
  unfold carried
  generalize (if significand = Nat.pow 2 precision then
    (Nat.pow 2 (precision - 1), exponent + 1) else (significand, exponent)) = place
  dsimp only
  split <;> rfl

/-- A quotient is rounded to a number. -/
theorem isNaN_ofRatio (negative : Bool) (dividend divisor : Nat) :
    (ofRatio negative dividend divisor).isNaN = false := by
  unfold ofRatio
  split
  next => rfl
  next => exact isNaN_carried _ _ _

/-- A quotient is rounded to an infinity when it reaches the least integer that is. -/
theorem ofRatio_infinite_iff (negative : Bool) (dividend : Nat) {divisor : Nat}
    (hdivisor : 0 < divisor) :
    (∃ sign, ofRatio negative dividend divisor = .infinite sign) ↔
      overflow * divisor ≤ dividend := by
  have hpositive : 0 < overflow * divisor := Nat.mul_pos overflow_pos hdivisor
  unfold ofRatio
  by_cases hzero : dividend = 0
  · rw [if_pos hzero]
    constructor
    · rintro ⟨_, h⟩
      cases h
    · intro h
      omega
  · rw [if_neg hzero]
    have hlt (k : Nat) (hk : binaryLog dividend divisor < (970 + k : Nat)) :
        dividend < 2 ^ k * (topHalf * divisor) :=
      two_pow_mul k divisor ▸ lt_of_binaryLog_lt hzero hdivisor.ne' hk
    have hle (k : Nat) (hk : (970 + k : Nat) ≤ binaryLog dividend divisor) :
        2 ^ k * (topHalf * divisor) ≤ dividend :=
      two_pow_mul k divisor ▸ le_of_le_binaryLog hzero hdivisor.ne' hk
    have hunit : 0 < topHalf * divisor := Nat.mul_pos topHalf_pos hdivisor
    have hshift (n : Nat) : divisor * Nat.pow 2 ((n : ℤ) + 1).toNat = 2 * (2 ^ n * divisor) := by
      rw [Nat.mul_comm, Nat.pow_eq, ← Nat.mul_assoc, ← pow_succ']
      rfl
    dsimp only
    rw [carried_infinite_iff, overflow, Nat.mul_assoc]
    unfold precision minExponent
    generalize binaryLog dividend divisor = log at hlt hle
    obtain hlog | rfl | hlog := (show log ≤ 1022 ∨ log = 1023 ∨ 1024 ≤ log by omega)
    · have hbelow := hlt 53 (by omega)
      exact ⟨fun h => by omega, fun h => by omega⟩
    · -- only here the rounding decides
      have hmax : max ((1023 : ℤ) - ((53 : Nat) - 1)) (-1074) = (970 : Nat) + 1 := by decide
      have htop : divisor * Nat.pow 2 (((970 : Nat) : ℤ) + 1).toNat = 2 * (topHalf * divisor) :=
        hshift 970
      rw [hmax, if_pos (by decide), htop, divideToEven_eq_top_iff hunit (hlt 54 (by decide))]
      constructor
      · rintro (h | ⟨_, h⟩)
        · exact absurd h (by decide)
        · exact h
      · exact fun h => Or.inr ⟨by decide, h⟩
    · have habove := hle 54 (by omega)
      exact ⟨fun _ => by omega, fun _ => Or.inl (by omega)⟩

end Binary64

namespace Number

/-- An integer has no floating-point number from the least one on that is rounded to an infinity. -/
theorem floatOfInt_eq_error_iff (n : Int) (kind : Fault) :
    floatOfInt n = .error kind ↔ kind = .tooLarge ∧ Binary64.overflow ≤ n.natAbs := by
  have hinfinite : (∃ sign, Binary64.ofInt n = .infinite sign) ↔
      Binary64.overflow ≤ n.natAbs := by
    rw [Binary64.ofInt, Binary64.ofRatio_infinite_iff _ _ one_pos, Nat.mul_one]
  rw [← hinfinite]
  unfold floatOfInt
  cases Binary64.ofInt n with
  | infinite sign => exact ⟨fun h => by cases h; exact ⟨rfl, sign, rfl⟩, fun h => by rw [h.1]⟩
  | finite _ _ _ | notANumber _ => exact ⟨nofun, nofun⟩

/-- The quotient of integers has no floating-point number when it reaches that integer. -/
theorem ratio_infinite_iff (m : Int) {n : Int} (hn : n ≠ 0) :
    (∃ sign, ratio m n = .infinite sign) ↔ Binary64.overflow * n.natAbs ≤ m.natAbs :=
  Binary64.ofRatio_infinite_iff _ _ (Int.natAbs_pos.mpr hn)

end Number

end Transclude
