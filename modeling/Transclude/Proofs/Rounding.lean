import Mathlib
import Transclude.Proofs.Points

/-! # Rounding of quotients

The number nearest to a quotient depends on its value alone. A number is the nearest
one to every quotient between the middles to its neighbours, and a quotient that has
a number of its own is rounded to that. -/

namespace Transclude

namespace Binary64

/-! ## Natural numbers next to a quotient -/

/-- A natural number is the nearest one to a quotient; from halfway it is the even one. -/
def RoundsTo (x : ℚ) (k : Nat) : Prop := |x - k| < 1 / 2 ∨ |x - k| = 1 / 2 ∧ Even k

theorem RoundsTo.le_half {x : ℚ} {k : Nat} (h : RoundsTo x k) : |x - k| ≤ 1 / 2 := by
  obtain h | ⟨h, _⟩ := h
  · exact h.le
  · exact h.le

theorem RoundsTo.unique {x : ℚ} {k l : Nat} (hk : RoundsTo x k) (hl : RoundsTo x l) : k = l := by
  by_contra hne
  wlog hlt : k < l generalizing k l
  · exact this hl hk (Ne.symm hne) (by omega)
  have hgap : (k : ℚ) + 1 ≤ l := by exact_mod_cast hlt
  obtain ⟨hklow, hkhigh⟩ := abs_le.mp hk.le_half
  obtain ⟨hllow, hlhigh⟩ := abs_le.mp hl.le_half
  -- both are as far away as a half, so that both would be even
  have hxk : |x - k| = 1 / 2 := by rw [abs_of_nonneg] <;> linarith
  have hxl : |x - l| = 1 / 2 := by rw [abs_of_nonpos] <;> linarith
  have heven := (hk.resolve_left (by rw [hxk]; exact lt_irrefl _)).2
  have heven' := (hl.resolve_left (by rw [hxl]; exact lt_irrefl _)).2
  have hl : l = k + 1 := by
    have hle : (l : ℚ) ≤ k + 1 := by linarith
    exact_mod_cast le_antisymm hle hgap
  rw [hl] at heven'
  exact (Nat.even_add_one.mp heven') heven

theorem roundsTo_natCast (k : Nat) : RoundsTo k k := by
  left
  rw [sub_self, abs_zero]
  norm_num

/-- A division with rest is rounded by its rest. -/
theorem roundsTo_divideToEven (dividend : Nat) {divisor : Nat} (hdivisor : 0 < divisor) :
    RoundsTo ((dividend : ℚ) / divisor) (divideToEven dividend divisor) := by
  have hpos : (0 : ℚ) < divisor := by exact_mod_cast hdivisor
  have hdivision : (dividend : ℚ) / divisor =
      (dividend / divisor : Nat) + (dividend % divisor : Nat) / divisor := by
    have hcast : (divisor : ℚ) * (dividend / divisor : Nat) + (dividend % divisor : Nat) =
        dividend := by exact_mod_cast Nat.div_add_mod dividend divisor
    rw [← hcast]
    field_simp
  have hrest : (0 : ℚ) ≤ (dividend % divisor : Nat) / divisor := by positivity
  have hrest' : ((dividend % divisor : Nat) : ℚ) / divisor < 1 := by
    rw [div_lt_one hpos]
    exact_mod_cast Nat.mod_lt dividend hdivisor
  have hhalf (r : Nat) : (r : ℚ) / divisor < 1 / 2 ↔ 2 * r < divisor := by
    rw [div_lt_div_iff₀ hpos two_pos, one_mul, mul_comm]
    exact_mod_cast Iff.rfl
  have hhalf' (r : Nat) : 1 / 2 < (r : ℚ) / divisor ↔ divisor < 2 * r := by
    rw [div_lt_div_iff₀ two_pos hpos, one_mul, mul_comm]
    exact_mod_cast Iff.rfl
  have hdown := hhalf (dividend % divisor)
  have hup := hhalf' (dividend % divisor)
  rw [hdivision]
  unfold divideToEven
  dsimp only
  generalize dividend / divisor = quotient
  generalize ((dividend % divisor : Nat) : ℚ) / divisor = rest at *
  split
  next h =>
    left
    rw [add_sub_cancel_left, abs_of_nonneg hrest]
    exact hdown.mpr h
  next h =>
    split
    next h' =>
      left
      push_cast
      rw [add_sub_add_left_eq_sub, abs_of_neg (by linarith)]
      linarith [hup.mpr h']
    next h' =>
      have hmiddle : rest = 1 / 2 :=
        le_antisymm (not_lt.mp (mt hup.mp h')) (not_lt.mp (mt hdown.mp h))
      right
      rw [hmiddle]
      obtain heven | hodd := Nat.even_or_odd quotient
      · rw [Nat.even_iff.mp heven, Nat.add_zero, add_sub_cancel_left]
        exact ⟨abs_of_pos (by norm_num), heven⟩
      · rw [Nat.odd_iff.mp hodd]
        refine ⟨?_, Nat.even_add_one.mpr (Nat.not_even_iff_odd.mpr hodd)⟩
        push_cast
        rw [add_sub_add_left_eq_sub]
        norm_num

/-! ## The place of a quotient -/

/-- The exponent at which a quotient with the given binary logarithm is rounded. -/
def exponentAt (log : Int) : Int := max (log - 52) (-1074)

theorem cast_pow_toNat {k : Int} (hk : 0 ≤ k) : ((Nat.pow 2 k.toNat : Nat) : ℚ) = 2 ^ k := by
  rw [Nat.pow_eq, cast_two_pow, Int.toNat_of_nonneg hk]

/-- The binary logarithm is the only place between whose powers the quotient lies. -/
theorem binaryLog_eq {dividend divisor : Nat} (hdividend : dividend ≠ 0) (hdivisor : divisor ≠ 0)
    {log : Int} (hlow : (2 : ℚ) ^ log ≤ dividend / divisor)
    (hhigh : (dividend : ℚ) / divisor < 2 ^ (log + 1)) : binaryLog dividend divisor = log := by
  have hpos : (0 : ℚ) < divisor := by exact_mod_cast Nat.pos_of_ne_zero hdivisor
  obtain ⟨hle, hlt⟩ := binaryLog_spec hdividend hdivisor
  rw [mul_comm, ← le_div_iff₀ hpos] at hle
  rw [mul_comm, ← div_lt_iff₀ hpos] at hlt
  have hbelow := (zpow_lt_zpow_iff_right₀ one_lt_two).mp (hle.trans_lt hhigh)
  have habove := (zpow_lt_zpow_iff_right₀ one_lt_two).mp (hlow.trans_lt hlt)
  omega

/-- A quotient is rounded to a natural number of units at its place. -/
theorem exists_ofRatio_eq (negative : Bool) {dividend divisor : Nat} (hdividend : dividend ≠ 0)
    (hdivisor : divisor ≠ 0) {log : Int} (hlow : (2 : ℚ) ^ log ≤ dividend / divisor)
    (hhigh : (dividend : ℚ) / divisor < 2 ^ (log + 1)) :
    ∃ significand, RoundsTo ((dividend : ℚ) / divisor / 2 ^ exponentAt log) significand ∧
      ofRatio negative dividend divisor = carried negative significand (exponentAt log) := by
  have hexponent : max (log - ((precision : Nat) - 1 : Int)) minExponent = exponentAt log := by
    unfold precision minExponent exponentAt
    omega
  rw [ofRatio, if_neg hdividend, binaryLog_eq hdividend hdivisor hlow hhigh, hexponent]
  refine ⟨_, ?_, rfl⟩
  split
  next hnonneg =>
    have hround := roundsTo_divideToEven dividend
      (Nat.mul_pos (Nat.pos_of_ne_zero hdivisor) (Nat.two_pow_pos (exponentAt log).toNat))
    rwa [Nat.cast_mul, ← Nat.pow_eq, cast_pow_toNat hnonneg, ← div_div] at hround
  next hnegative =>
    have hround := roundsTo_divideToEven (dividend * Nat.pow 2 (-exponentAt log).toNat)
      (Nat.pos_of_ne_zero hdivisor)
    rwa [Nat.cast_mul, cast_pow_toNat (by omega), zpow_neg, ← div_eq_mul_inv, div_right_comm]
      at hround

theorem ofRatio_eq (negative : Bool) {dividend divisor : Nat} (hdividend : dividend ≠ 0)
    (hdivisor : divisor ≠ 0) {log : Int} (hlow : (2 : ℚ) ^ log ≤ dividend / divisor)
    (hhigh : (dividend : ℚ) / divisor < 2 ^ (log + 1)) {significand : Nat}
    (hrounds : RoundsTo ((dividend : ℚ) / divisor / 2 ^ exponentAt log) significand) :
    ofRatio negative dividend divisor = carried negative significand (exponentAt log) := by
  obtain ⟨other, hother, heq⟩ := exists_ofRatio_eq negative hdividend hdivisor hlow hhigh
  rw [heq, hother.unique hrounds]

/-- A positive quotient lies between two powers of two. -/
theorem exists_log {x : ℚ} (hx : 0 < x) : ∃ log : Int, 2 ^ log ≤ x ∧ x < 2 ^ (log + 1) :=
  ⟨Int.log 2 x, by exact_mod_cast Int.zpow_log_le_self one_lt_two hx,
    by exact_mod_cast Int.lt_zpow_succ_log_self one_lt_two x⟩

theorem log_lt_of_div_lt {x : ℚ} {log exponent k : Int} (hlow : 2 ^ log ≤ x)
    (h : x / 2 ^ exponent < 2 ^ k) : log < exponent + k := by
  rw [div_lt_iff₀ (zpow_pos two_pos _), ← zpow_add₀ two_ne_zero, add_comm] at h
  exact (zpow_lt_zpow_iff_right₀ one_lt_two).mp (hlow.trans_lt h)

theorem le_log_of_le_div {x : ℚ} {log exponent k : Int} (hhigh : x < 2 ^ (log + 1))
    (h : 2 ^ k ≤ x / 2 ^ exponent) : exponent + k ≤ log := by
  rw [le_div_iff₀ (zpow_pos two_pos _), ← zpow_add₀ two_ne_zero, add_comm] at h
  exact Int.le_of_lt_add_one ((zpow_lt_zpow_iff_right₀ one_lt_two).mp (h.trans_lt hhigh))

/-- Quotients of one value are rounded alike. -/
theorem ofRatio_congr (negative : Bool) {p q p' q' : Nat} (hq : q ≠ 0) (hq' : q' ≠ 0)
    (h : (p : ℚ) / q = p' / q') : ofRatio negative p q = ofRatio negative p' q' := by
  have hzero : p = 0 ↔ p' = 0 := by
    have hcast : (p : ℚ) / q = 0 ↔ (p' : ℚ) / q' = 0 := by rw [h]
    simpa [hq, hq'] using hcast
  by_cases hp : p = 0
  · rw [ofRatio, ofRatio, if_pos hp, if_pos (hzero.mp hp)]
  · have hpos : (0 : ℚ) < p / q := by positivity
    obtain ⟨log, hlow, hhigh⟩ := exists_log hpos
    obtain ⟨significand, hrounds, heq⟩ := exists_ofRatio_eq negative hp hq hlow hhigh
    rw [h] at hlow hhigh hrounds
    rw [heq, ofRatio_eq negative (mt hzero.mpr hp) hq' hlow hhigh hrounds]

/-! ## The quotients that are rounded to a number -/

/-- The significand and the exponent of a finite number. -/
structure InFormat (significand : Nat) (exponent : Int) : Prop where
  significand_lt : significand < 2 ^ 53
  le_exponent : -1074 ≤ exponent
  exponent_le : exponent ≤ 971
  normal : 2 ^ 52 ≤ significand ∨ exponent = -1074

theorem carried_of_lt (negative : Bool) {significand : Nat} {exponent : Int}
    (hsignificand : significand < 2 ^ 53) (hexponent : exponent ≤ 971) :
    carried negative significand exponent = .finite negative significand exponent := by
  unfold carried
  rw [if_neg (show significand ≠ Nat.pow 2 precision from hsignificand.ne)]
  dsimp only
  rw [if_neg (by unfold maxExponent; omega)]

theorem carried_top (negative : Bool) {exponent : Int} (hexponent : exponent < 971) :
    carried negative (2 ^ 53) exponent = .finite negative (2 ^ 52) (exponent + 1) := by
  unfold carried
  rw [if_pos (show 2 ^ 53 = Nat.pow 2 precision from rfl)]
  dsimp only
  rw [if_neg (by unfold maxExponent; omega)]
  rfl

/-- What is at most a quarter below a power of two is carried to it at the lower place. -/
theorem roundsTo_two_mul {y : ℚ} (hquarter : 2 ^ 52 - 1 / 4 ≤ y) (hbelow : y < 2 ^ 52) :
    RoundsTo (2 * y) (2 ^ 53) := by
  have hdistance : |2 * y - ((2 ^ 53 : Nat) : ℚ)| = 2 ^ 53 - 2 * y := by
    push_cast
    rw [abs_of_neg (by linarith)]
    ring
  rw [RoundsTo, hdistance]
  obtain hlt | heq := hquarter.lt_or_eq
  · exact Or.inl (by linarith)
  · exact Or.inr ⟨by linarith, by decide⟩

/-- A quotient between the middles to the neighbours of a number is rounded to it. Below a power of
two the neighbour is half as far away. -/
theorem ofRatio_of_roundsTo (negative : Bool) {dividend divisor : Nat} (hdividend : dividend ≠ 0)
    (hdivisor : divisor ≠ 0) {significand : Nat} {exponent : Int}
    (hformat : InFormat significand exponent)
    (hrounds : RoundsTo ((dividend : ℚ) / divisor / 2 ^ exponent) significand)
    (hpower : significand = 2 ^ 52 → -1074 < exponent →
      2 ^ 52 - 1 / 4 ≤ (dividend : ℚ) / divisor / 2 ^ exponent) :
    ofRatio negative dividend divisor = .finite negative significand exponent := by
  have hpos : (0 : ℚ) < dividend / divisor := by positivity
  obtain ⟨log, hlow, hhigh⟩ := exists_log hpos
  obtain ⟨hsignificand, hleast, hmost, hnormal⟩ := hformat
  obtain ⟨hbelow, habove⟩ := abs_le.mp hrounds.le_half
  have hround {exponent' : Int} (heq : exponentAt log = exponent')
      (hexponent : exponent' = exponent) :
      ofRatio negative dividend divisor = .finite negative significand exponent := by
    rw [ofRatio_eq negative hdividend hdivisor hlow hhigh (by rw [heq, hexponent]; exact hrounds),
      heq, hexponent, carried_of_lt negative hsignificand hmost]
  have hdouble : (dividend : ℚ) / divisor / 2 ^ (exponent - 1) =
      2 * ((dividend : ℚ) / divisor / 2 ^ exponent) := by
    rw [zpow_sub_one₀ two_ne_zero]
    field_simp
  have hlog {k : Int} (h : (dividend : ℚ) / divisor / 2 ^ exponent < 2 ^ k) :
      log < exponent + k := log_lt_of_div_lt hlow h
  have hlog' {k : Int} (h : 2 ^ k ≤ (dividend : ℚ) / divisor / 2 ^ exponent) :
      exponent + k ≤ log := le_log_of_le_div hhigh h
  generalize (dividend : ℚ) / divisor / 2 ^ exponent = y at *
  have htop : (significand : ℚ) + 1 ≤ 2 ^ 53 := by exact_mod_cast hsignificand
  obtain hsmall | hlarge := lt_or_ge y (2 ^ 52)
  · have hless := hlog (k := 52) (by exact_mod_cast hsmall)
    obtain hnormal | rfl := hnormal
    · by_cases hexponent : exponent = -1074
      · exact hround (by unfold exponentAt; omega) hexponent.symm
      · -- only the power of two itself has quotients of the lower place around it
        have hpowerOfTwo : significand = 2 ^ 52 := by
          refine le_antisymm ?_ hnormal
          by_contra hgt
          have hge : (2 : ℚ) ^ 52 + 1 ≤ significand := by exact_mod_cast not_le.mp hgt
          linarith
        have hquarter := hpower hpowerOfTwo (by omega)
        have hmore := hlog' (k := 51) (by norm_num; linarith)
        have hplace : exponentAt log = exponent - 1 := by unfold exponentAt; omega
        have hcarry : RoundsTo ((dividend : ℚ) / divisor / 2 ^ exponentAt log) (2 ^ 53) := by
          rw [hplace, hdouble]
          exact roundsTo_two_mul hquarter hsmall
        rw [ofRatio_eq negative hdividend hdivisor hlow hhigh hcarry, hplace,
          carried_top negative (by omega), hpowerOfTwo]
        congr 1
        omega
    · exact hround (by unfold exponentAt; omega) rfl
  · have hmore := hlog' (k := 52) (by exact_mod_cast hlarge)
    have hless := hlog (k := 53) (by
      have hlt : y < 2 ^ 53 := by linarith
      exact_mod_cast hlt)
    exact hround (by unfold exponentAt; omega) rfl

/-- Every finite number that a quotient is rounded to is in the format. -/
theorem inFormat_ofRatio {negative sign : Bool} {dividend divisor significand : Nat}
    {exponent : Int} (hdivisor : divisor ≠ 0)
    (h : ofRatio negative dividend divisor = .finite sign significand exponent) :
    InFormat significand exponent := by
  by_cases hzero : dividend = 0
  · rw [ofRatio, if_pos hzero, zero] at h
    cases h
    exact ⟨by decide, by decide, by decide, Or.inr rfl⟩
  have hpos : (0 : ℚ) < dividend / divisor := by positivity
  obtain ⟨log, hlow, hhigh⟩ := exists_log hpos
  obtain ⟨rounded, hrounds, heq⟩ := exists_ofRatio_eq negative hzero hdivisor hlow hhigh
  obtain ⟨hbelow, habove⟩ := abs_le.mp hrounds.le_half
  have hle : rounded ≤ 2 ^ 53 := by
    have hlt : (dividend : ℚ) / divisor / 2 ^ exponentAt log < 2 ^ (53 : ℤ) := by
      rw [div_lt_iff₀ (zpow_pos two_pos _), ← zpow_add₀ two_ne_zero]
      refine hhigh.trans_le (zpow_le_zpow_right₀ one_le_two ?_)
      unfold exponentAt
      omega
    by_contra hgt
    have hge : (2 : ℚ) ^ (53 : ℤ) + 1 ≤ rounded := by exact_mod_cast not_le.mp hgt
    linarith
  have hnormal : 2 ^ 52 ≤ rounded ∨ exponentAt log = -1074 := by
    by_cases hplace : exponentAt log = -1074
    · exact Or.inr hplace
    · left
      have hge : 2 ^ (52 : ℤ) ≤ (dividend : ℚ) / divisor / 2 ^ exponentAt log := by
        rw [le_div_iff₀ (zpow_pos two_pos _), ← zpow_add₀ two_ne_zero]
        refine (zpow_le_zpow_right₀ one_le_two ?_).trans hlow
        unfold exponentAt at hplace ⊢
        omega
      by_contra hlt
      have hlt : (rounded : ℚ) + 1 ≤ 2 ^ (52 : ℤ) := by exact_mod_cast not_le.mp hlt
      linarith
  have hleast : -1074 ≤ exponentAt log := le_max_right _ _
  have hfinite := mt (carried_infinite_iff negative rounded (exponentAt log)).mpr (by
    rintro ⟨sign', hinfinite⟩
    rw [← heq, h] at hinfinite
    cases hinfinite)
  rw [heq] at h
  obtain hlt | rfl := hle.lt_or_eq
  · rw [carried_of_lt negative hlt (by omega)] at h
    cases h
    exact ⟨hlt, hleast, by omega, hnormal⟩
  · rw [carried_top negative (by omega)] at h
    cases h
    exact ⟨by decide, by omega, by omega, Or.inl le_rfl⟩

/-- A quotient that has a number is rounded to it. -/
theorem ofRatio_exact (negative : Bool) {dividend divisor : Nat} (hdivisor : divisor ≠ 0)
    {significand : Nat} {exponent : Int} (hsignificand : significand < 2 ^ 53)
    (hleast : -1074 ≤ exponent) (hmost : exponent ≤ 971)
    (hvalue : (dividend : ℚ) / divisor = significand * 2 ^ exponent) :
    ∃ k place, ofRatio negative dividend divisor = .finite negative k place ∧
      (k : ℚ) * 2 ^ place = dividend / divisor := by
  by_cases hzero : dividend = 0
  · refine ⟨0, minExponent, by rw [ofRatio, if_pos hzero, zero], ?_⟩
    rw [hzero]
    simp
  have hpos : (0 : ℚ) < dividend / divisor := by positivity
  obtain ⟨log, hlow, hhigh⟩ := exists_log hpos
  have htop : (significand : ℚ) < 2 ^ (53 : ℤ) := by exact_mod_cast hsignificand
  have hlog : log < exponent + 53 := by
    refine (zpow_lt_zpow_iff_right₀ one_lt_two).mp (hlow.trans_lt ?_)
    rw [hvalue, add_comm, zpow_add₀ two_ne_zero]
    exact mul_lt_mul_of_pos_right htop (zpow_pos two_pos _)
  have hplace : exponentAt log ≤ exponent := by unfold exponentAt; omega
  have hquotient : (dividend : ℚ) / divisor / 2 ^ exponentAt log =
      (significand * 2 ^ (exponent - exponentAt log).toNat : Nat) := by
    rw [hvalue, mul_div_assoc, ← zpow_sub₀ two_ne_zero, Nat.cast_mul, cast_two_pow,
      Int.toNat_of_nonneg (by omega)]
  have hfits : significand * 2 ^ (exponent - exponentAt log).toNat < 2 ^ 53 := by
    have hlt : (dividend : ℚ) / divisor / 2 ^ exponentAt log < 2 ^ (53 : ℤ) := by
      rw [div_lt_iff₀ (zpow_pos two_pos _), ← zpow_add₀ two_ne_zero]
      refine hhigh.trans_le (zpow_le_zpow_right₀ one_le_two ?_)
      unfold exponentAt
      omega
    rw [hquotient] at hlt
    exact_mod_cast hlt
  refine ⟨_, exponentAt log, ?_, by rw [← hquotient]; field_simp⟩
  rw [ofRatio_eq negative hzero hdivisor hlow hhigh (hquotient ▸ roundsTo_natCast _),
    carried_of_lt negative hfits (by omega)]

/-! ## Integers -/

theorem natAbs_eq_of_scaled {negative : Bool} {significand : Nat} {exponent k : Int}
    (h : scaled negative significand exponent = k) :
    (significand : ℚ) * 2 ^ exponent = k.natAbs ∧
      k = if negative then -(k.natAbs : Int) else k.natAbs := by
  have hnonneg : (0 : ℚ) ≤ significand * 2 ^ exponent := by positivity
  have habs : ((k.natAbs : Nat) : ℚ) = |(k : ℚ)| := by rw [Nat.cast_natAbs, Int.cast_abs]
  unfold scaled at h
  cases negative with
  | false =>
      rw [if_neg Bool.false_ne_true] at h
      have hk : 0 ≤ k := by exact_mod_cast h ▸ hnonneg
      refine ⟨by rw [habs, ← h, abs_of_nonneg hnonneg], ?_⟩
      rw [if_neg Bool.false_ne_true]
      omega
  | true =>
      rw [if_pos rfl, neg_mul] at h
      have hk : k ≤ 0 := by
        have hcast : (k : ℚ) ≤ 0 := by linarith
        exact_mod_cast hcast
      refine ⟨by rw [habs, ← h, abs_neg, abs_of_nonneg hnonneg], ?_⟩
      rw [if_pos rfl]
      omega

/-- A number that stands for an integer is taken back to it. -/
theorem toInt?_of_standsFor {x : Binary64} {k : Int} (h : (Number.float x).StandsFor k) :
    x.toInt? = some k ∧ x.truncate = k := by
  cases x with
  | infinite negative => exact absurd h (Number.not_standsFor_infinite _ _)
  | notANumber origin => exact absurd h (Number.not_standsFor_notANumber _ _)
  | finite negative significand exponent =>
      obtain ⟨hvalue, hsign⟩ := natAbs_eq_of_scaled ((Number.standsFor_finite _ _ _ _).mp h)
      rw [toInt?, truncate]
      split
      next hnonneg =>
        have hwhole : significand * Nat.pow 2 (exponent - 0).toNat = k.natAbs := by
          rw [← @Nat.cast_inj ℚ, Nat.cast_mul, cast_pow_toNat (by omega), sub_zero, hvalue]
        rw [signedAt, hwhole, ← hsign]
        exact ⟨rfl, rfl⟩
      next hnegative =>
        have hwhole : significand = k.natAbs * Nat.pow 2 (-exponent).toNat := by
          rw [← @Nat.cast_inj ℚ, Nat.cast_mul, cast_pow_toNat (by omega), ← hvalue, mul_assoc,
            ← zpow_add₀ two_ne_zero, add_neg_cancel, zpow_zero, mul_one]
        have hunit : 0 < Nat.pow 2 (-exponent).toNat := Nat.two_pow_pos _
        generalize Nat.pow 2 (-exponent).toNat = unit at hwhole hunit
        subst hwhole
        dsimp only
        rw [Nat.mul_mod_left, if_pos rfl, Nat.mul_div_cancel _ hunit, signedAt]
        simp only [sub_zero, Int.toNat_zero, Nat.pow_eq, pow_zero, Nat.mul_one]
        rw [← hsign]
        exact ⟨rfl, rfl⟩

/-- An integer with a floating-point number: it has at most 53 binary digits before the zeros at its
end, and is in range. -/
def HasFloat (n : Int) : Prop :=
  ∃ (m : Int) (e : Nat), m.natAbs < 2 ^ 53 ∧ e ≤ 971 ∧ n = m * 2 ^ e

/-- The integer nearest to a given one among those with floating-point numbers, and from halfway the
one with a zero as its 53rd binary digit. -/
structure IsNearest (n k : Int) : Prop where
  hasFloat : HasFloat k
  closest : ∀ r, HasFloat r → (n - k).natAbs ≤ (n - r).natAbs
  even : ∀ r, HasFloat r → r ≠ k → (n - r).natAbs = (n - k).natAbs →
    ∃ (m : Int) (e : Nat), m.natAbs ≤ 2 ^ 52 ∧ k = m * 2 ^ e

theorem hasFloat_of_lt {n : Int} (h : n.natAbs < 2 ^ 53) : HasFloat n :=
  ⟨n, 0, h, by omega, by simp⟩

theorem HasFloat.neg {n : Int} (h : HasFloat n) : HasFloat (-n) := by
  obtain ⟨m, e, hm, he, rfl⟩ := h
  exact ⟨-m, e, by rwa [Int.natAbs_neg], he, by rw [Int.neg_mul]⟩

/-- An integer with a floating-point number is the nearest one to itself alone. -/
theorem isNearest_self_iff {n k : Int} (h : HasFloat n) : IsNearest n k ↔ k = n := by
  constructor
  · intro hnear
    have hle := hnear.closest n h
    omega
  · rintro rfl
    exact ⟨h, fun r _ => by omega, fun r _ hne heq => absurd heq (by omega)⟩

theorem IsNearest.neg {n k : Int} (h : IsNearest n k) : IsNearest (-n) (-k) := by
  refine ⟨h.hasFloat.neg, fun r hr => ?_, fun r hr hne heq => ?_⟩
  · have hle := h.closest (-r) hr.neg
    omega
  · obtain ⟨m, e, hm, rfl⟩ := h.even (-r) hr.neg (by omega) (by omega)
    exact ⟨-m, e, by rwa [Int.natAbs_neg], by rw [Int.neg_mul]⟩

/-- An integer with a floating-point number is in range. -/
theorem HasFloat.lt_overflow {n : Int} (h : HasFloat n) : n.natAbs < overflow := by
  obtain ⟨m, e, hm, he, rfl⟩ := h
  rw [Int.natAbs_mul, Int.natAbs_pow]
  have hpower : 2 ^ e ≤ 2 * topHalf := by
    unfold topHalf
    generalize hk : 970 = k at he ⊢
    rw [← pow_succ']
    exact Nat.pow_le_pow_right two_pos (by omega)
  calc m.natAbs * 2 ^ e ≤ (2 ^ 53 - 1) * (2 * topHalf) := Nat.mul_le_mul (by omega) hpower
    _ = (2 ^ 53 - 1) * 2 * topHalf := (Nat.mul_assoc _ _ _).symm
    _ < overflow := Nat.mul_lt_mul_of_pos_right (by decide) topHalf_pos

/-- The integers at which rounding to a number of units is aimed are the nearest ones. -/
theorem RoundsTo.closest {x : ℚ} {s : Nat} (h : RoundsTo x s) (c : Int) (hne : c ≠ s) :
    |x - s| ≤ |x - c| ∧ (|x - c| = |x - s| → Even s) := by
  have hhalf := h.le_half
  have hgap : (1 : ℚ) ≤ |(s : ℚ) - c| := by
    have hint : (1 : ℤ) ≤ |(s : ℤ) - c| := Int.one_le_abs (by omega)
    exact_mod_cast hint
  have htriangle : |(s : ℚ) - c| ≤ |x - s| + |x - c| := by
    rw [abs_sub_comm x s]
    exact abs_sub_le _ _ _
  refine ⟨by linarith, fun heq => ?_⟩
  exact (h.resolve_left (by linarith)).2

/-- What has a floating-point number below the place of another integer is smaller than that. -/
theorem dvd_or_lt_of_hasFloat {r : Int} (h : HasFloat r) (log : Nat) :
    (2 ^ (log - 52) : Int) ∣ r ∨ r < 2 ^ log := by
  obtain ⟨m, e, hm, _, rfl⟩ := h
  by_cases he : log - 52 ≤ e
  · exact Or.inl ((pow_dvd_pow 2 he).mul_left m)
  · right
    have hlt : m < 2 ^ 53 := by omega
    calc m * 2 ^ e < 2 ^ 53 * 2 ^ e := by
          exact mul_lt_mul_of_pos_right hlt (by positivity)
      _ = 2 ^ (53 + e) := by rw [pow_add]
      _ ≤ 2 ^ log := pow_le_pow_right₀ (by norm_num) (by omega)

/-- A natural number from `2 ^ n` on that is rounded to so many units of its place is nearest to
them. -/
theorem isNearest_of_roundsTo {p n s : Nat} (hlow : 2 ^ n ≤ p)
    (hrounds : RoundsTo ((p : ℚ) / 2 ^ (n - 52)) s) (hs : s ≤ 2 ^ 53) (hn : 52 ≤ n)
    (hfloat : HasFloat (s * 2 ^ (n - 52) : Nat)) : IsNearest p (s * 2 ^ (n - 52) : Nat) := by
  have hunit : (0 : ℚ) < 2 ^ (n - 52) := by positivity
  -- distances in units
  have hdistance (c : Int) : ((((p : Int) - c * 2 ^ (n - 52)).natAbs : Nat) : ℚ) =
      |(p : ℚ) / 2 ^ (n - 52) - c| * 2 ^ (n - 52) := by
    calc ((((p : Int) - c * 2 ^ (n - 52)).natAbs : Nat) : ℚ)
        = |(p : ℚ) - c * 2 ^ (n - 52)| := by rw [Nat.cast_natAbs]; push_cast; rfl
      _ = |((p : ℚ) / 2 ^ (n - 52) - c) * 2 ^ (n - 52)| := by
        rw [sub_mul, div_mul_cancel₀ _ hunit.ne']
      _ = |(p : ℚ) / 2 ^ (n - 52) - c| * 2 ^ (n - 52) := by rw [abs_mul, abs_of_pos hunit]
  have hself := hdistance s
  -- what lies below the place of the number is farther away than the power of two below it
  have hfar {r : Int} (hr : HasFloat r) : (∃ c : Int, r = c * 2 ^ (n - 52)) ∨
      ((p : Int) - s * 2 ^ (n - 52)).natAbs < ((p : Int) - r).natAbs := by
    obtain ⟨c, rfl⟩ | hless := dvd_or_lt_of_hasFloat hr n
    · exact Or.inl ⟨c, mul_comm _ _⟩
    · right
      have hpower : ((2 : Int) ^ n) = (2 ^ 52 : Nat) * 2 ^ (n - 52) := by
        rw [Nat.cast_pow, Nat.cast_two, ← pow_add]
        congr 1
        omega
      have hclose : ((p : Int) - s * 2 ^ (n - 52)).natAbs ≤ ((p : Int) - 2 ^ n).natAbs := by
        rw [← @Nat.cast_le ℚ, hpower, hself, hdistance]
        refine mul_le_mul_of_nonneg_right ?_ hunit.le
        by_cases heq : ((2 ^ 52 : Nat) : Int) = s
        · rw [heq]
        · exact (hrounds.closest _ heq).1
      have hp : (2 : Int) ^ n ≤ p := by exact_mod_cast hlow
      omega
  push_cast
  refine ⟨by exact_mod_cast hfloat, fun r hr => ?_, fun r hr hne heq => ?_⟩
  · obtain ⟨c, rfl⟩ | hless := hfar hr
    · rw [← @Nat.cast_le ℚ, hself, hdistance]
      refine mul_le_mul_of_nonneg_right ?_ hunit.le
      by_cases hc : c = s
      · rw [hc]
      · exact (hrounds.closest c hc).1
    · exact hless.le
  · obtain ⟨c, rfl⟩ | hless := hfar hr
    · have hc : c ≠ s := fun hc => hne (by rw [hc])
      rw [← @Nat.cast_inj ℚ, hself, hdistance, mul_left_inj' hunit.ne'] at heq
      obtain ⟨half, rfl⟩ := (hrounds.closest c hc).2 heq
      refine ⟨half, n - 52 + 1, by simpa using (by omega : half ≤ 2 ^ 52), ?_⟩
      push_cast
      ring
    · omega

/-- A natural number in range is rounded to the nearest one with a floating-point number. -/
theorem exists_nearest_natCast {p : Nat} (h : p < overflow) : ∃ k : Nat,
    (Number.float (ofRatio false p 1)).StandsFor k ∧ IsNearest p k := by
  have hfinite : ∀ sign, ofRatio false p 1 ≠ .infinite sign := by
    intro sign heq
    have hle := (ofRatio_infinite_iff false p Nat.one_pos).mp ⟨sign, heq⟩
    rw [Nat.mul_one] at hle
    exact absurd h (not_lt.mpr hle)
  clear h
  by_cases hsmall : p < 2 ^ 53
  · obtain ⟨k, place, heq, hvalue⟩ := @ofRatio_exact false p 1 one_ne_zero p 0 hsmall
      (show -1074 ≤ 0 by decide) (by decide) (by simp)
    refine ⟨p, ?_, (isNearest_self_iff (hasFloat_of_lt (by simpa using hsmall))).mpr rfl⟩
    rw [heq, Number.standsFor_finite, scaled, if_neg Bool.false_ne_true, hvalue]
    simp
  obtain ⟨n, hlow, hhigh⟩ := exists_powers (show p ≠ 0 by omega)
  have hn : 52 < n := by
    by_contra hle
    have hpower : 2 ^ (n + 1) ≤ 2 ^ 53 := Nat.pow_le_pow_right two_pos (by omega)
    omega
  have hround := roundsTo_divideToEven p (Nat.two_pow_pos (n - 52))
  rw [ofRatio_one_eq hlow hhigh, if_neg (by omega)] at hfinite ⊢
  rw [Nat.pow_eq] at hfinite ⊢
  generalize divideToEven p (2 ^ (n - 52)) = s at *
  rw [Nat.cast_pow, Nat.cast_two] at hround
  have hs : s ≤ 2 ^ 53 := by
    have hupper : (p : ℚ) / 2 ^ (n - 52) < 2 ^ 53 := by
      rw [div_lt_iff₀ (by positivity), ← pow_add, show 53 + (n - 52) = n + 1 by omega]
      exact_mod_cast hhigh
    have hle := (abs_le.mp hround.le_half).1
    by_contra hgt
    have hge : (2 : ℚ) ^ 53 + 1 ≤ s := by exact_mod_cast not_le.mp hgt
    linarith
  have hnear := isNearest_of_roundsTo hlow hround hs hn.le
  have hrange := mt (carried_infinite_iff false s ((n - 52 : Nat) : Int)).mpr
    (by simpa using hfinite)
  generalize n - 52 = j at *
  refine ⟨s * 2 ^ j, ?_⟩
  obtain hlt | rfl := hs.lt_or_eq
  · rw [carried_of_lt false hlt (by omega), Number.standsFor_finite]
    refine ⟨by simp [scaled], hnear ⟨s, j, by simpa using hlt, by omega, by push_cast; rfl⟩⟩
  · rw [carried_top false (by omega), Number.standsFor_finite]
    constructor
    · have hpower : ((j : Int) + 1) = ((j + 1 : Nat) : Int) := by push_cast; rfl
      rw [scaled, if_neg Bool.false_ne_true, hpower, zpow_natCast]
      push_cast
      ring
    · refine hnear ⟨2 ^ 52, j + 1, by decide, by omega, ?_⟩
      push_cast
      ring

theorem carried_neg (significand : Nat) (exponent : Int) :
    carried true significand exponent = (carried false significand exponent).neg := by
  unfold carried
  generalize (if significand = Nat.pow 2 precision then
    (Nat.pow 2 (precision - 1), exponent + 1) else (significand, exponent)) = place
  dsimp only
  split <;> rfl

/-- Rounding does not look at the sign. -/
theorem ofRatio_neg (dividend divisor : Nat) :
    ofRatio true dividend divisor = (ofRatio false dividend divisor).neg := by
  unfold ofRatio
  split
  next => rfl
  next => exact carried_neg _ _

theorem standsFor_neg {x : Binary64} {q : ℚ} (h : (Number.float x).StandsFor q) :
    (Number.float x.neg).StandsFor (-q) := by
  cases x with
  | infinite negative => exact absurd h (Number.not_standsFor_infinite _ _)
  | notANumber origin => exact absurd h (Number.not_standsFor_notANumber _ _)
  | finite negative significand exponent =>
      rw [Number.standsFor_finite] at h
      rw [neg, Number.standsFor_finite, ← h]
      cases negative <;> simp [scaled]

/-- An integer in range is converted to the nearest one with a floating-point number. -/
theorem exists_nearest {n : Int} (h : n.natAbs < overflow) : ∃ k : Int,
    (Number.float (ofInt n)).StandsFor k ∧ IsNearest n k := by
  obtain ⟨k, hpoint, hnear⟩ := exists_nearest_natCast h
  rw [ofInt]
  by_cases hn : n < 0
  · refine ⟨-k, ?_, by rw [show n = -(n.natAbs : Int) by omega]; exact hnear.neg⟩
    rw [decide_eq_true hn, ofRatio_neg]
    push_cast
    exact standsFor_neg hpoint
  · refine ⟨k, ?_, by rwa [show n = (n.natAbs : Int) by omega]⟩
    rw [decide_eq_false hn]
    exact hpoint

end Binary64

end Transclude
