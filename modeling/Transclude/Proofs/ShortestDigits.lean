import Mathlib
import Transclude.Proofs.Rounding

/-! # Shortest digits read back

The digits that a floating-point number is written with lie between the middles to its
neighbours, so that reading rounds them to the number again. A grid with seventeen
digits is fine enough for one of its places to lie there. -/

namespace Transclude

namespace Binary64

/-- A number that is rounded to a given one: it lies between the middles to the neighbours of that
one, the lower of which is half as far away below a power of two. -/
structure ReadsBack (significand : Nat) (exponent : Int) (x : ℚ) : Prop where
  rounds : RoundsTo (x / 2 ^ exponent) significand
  power : significand = 2 ^ 52 → -1074 < exponent → 2 ^ 52 - 1 / 4 ≤ x / 2 ^ exponent

/-! ## Reading decimals -/

section

variable {significand : Nat} {exponent : Int} {x : ℚ}

/-- What reads back as a positive number lies within the powers of two of the format. -/
theorem ReadsBack.bounds (h : ReadsBack significand exponent x)
    (hformat : InFormat significand exponent)
    (hpos : 0 < significand) : (2 : ℚ) ^ (-1075 : ℤ) ≤ x ∧ x ≤ 2 ^ (1024 : ℤ) := by
  obtain ⟨hsignificand, hleast, hmost, _⟩ := hformat
  obtain ⟨hlow, hhigh⟩ := abs_le.mp h.rounds.le_half
  have hunit : (0 : ℚ) < 2 ^ exponent := zpow_pos two_pos _
  have hone : (1 : ℚ) ≤ significand := by exact_mod_cast hpos
  have htop : (significand : ℚ) + 1 ≤ 2 ^ (53 : ℤ) := by exact_mod_cast hsignificand
  constructor
  · have hhalf : 1 / 2 ≤ x / 2 ^ exponent := by linarith
    rw [le_div_iff₀ hunit] at hhalf
    refine le_trans ?_ hhalf
    rw [show (1 : ℚ) / 2 = 2 ^ (-1 : ℤ) by norm_num, ← zpow_add₀ two_ne_zero]
    exact zpow_le_zpow_right₀ one_le_two (by omega)
  · have hlarge : x / 2 ^ exponent ≤ 2 ^ (53 : ℤ) := by linarith
    rw [div_le_iff₀ hunit, ← zpow_add₀ two_ne_zero] at hlarge
    exact hlarge.trans (zpow_le_zpow_right₀ one_le_two (by omega))

end

theorem cast_ten_toNat {k : Int} (hk : 0 ≤ k) : ((Nat.pow 10 k.toNat : Nat) : ℚ) = 10 ^ k := by
  rw [Nat.pow_eq, Nat.cast_pow, Nat.cast_ofNat, ← zpow_natCast, Int.toNat_of_nonneg hk]

theorem two_zpow_lt_ten_zpow (n : Nat) : (2 : ℚ) ^ (3 * (n + 1) : ℤ) < 10 ^ ((n : ℤ) + 1) := by
  rw [zpow_mul]
  exact zpow_lt_zpow_left₀ (by omega) (by norm_num) (by norm_num)

/-- A decimal lies between the powers of ten for its number of digits. -/
theorem decimal_bounds {digits : Nat} (hdigits : digits ≠ 0) (scale : Int) :
    (10 : ℚ) ^ (scale + (Nat.toDigits 10 digits).length - 1) ≤ digits * 10 ^ scale ∧
      (digits : ℚ) * 10 ^ scale < 10 ^ (scale + (Nat.toDigits 10 digits).length) := by
  have hten : (10 : ℚ) ≠ 0 := by norm_num
  have hunit : (0 : ℚ) < 10 ^ scale := by positivity
  generalize hlength : (Nat.toDigits 10 digits).length = length
  have hpositive : 0 < length := hlength ▸ Nat.length_toDigits_pos
  obtain ⟨k, rfl⟩ : ∃ k, length = k + 1 := ⟨length - 1, by omega⟩
  have hhigh : digits < 10 ^ (k + 1) :=
    (Nat.length_toDigits_le_iff (by decide) hpositive).mp hlength.le
  have hlow : 10 ^ k ≤ digits := by
    by_contra hlt
    cases k with
    | zero => omega
    | succ k =>
        have hle := (Nat.length_toDigits_le_iff (b := 10) (by decide) (Nat.succ_pos k)).mpr
          (not_le.mp hlt)
        omega
  constructor
  · rw [show scale + (k + 1 : Nat) - 1 = k + scale by push_cast; ring, zpow_add₀ hten]
    refine mul_le_mul_of_nonneg_right ?_ hunit.le
    exact_mod_cast hlow
  · rw [add_comm scale, zpow_add₀ hten]
    refine mul_lt_mul_of_pos_right ?_ hunit
    exact_mod_cast hhigh

/-- A decimal that reads back as a number is read as it. -/
theorem ofDecimal_of_readsBack (negative : Bool) {significand digits : Nat} {exponent scale : Int}
    (hformat : InFormat significand exponent) (hpos : 0 < significand)
    (h : ReadsBack significand exponent (digits * 10 ^ scale)) :
    ofDecimal negative digits scale = .finite negative significand exponent := by
  obtain ⟨hlow, hhigh⟩ := h.bounds hformat hpos
  have hdigits : digits ≠ 0 := by
    rintro rfl
    rw [Nat.cast_zero, zero_mul] at hlow
    exact absurd hlow (not_le.mpr (zpow_pos two_pos _))
  obtain ⟨hbelow, habove⟩ := decimal_bounds hdigits scale
  have hten : (1 : ℚ) < 10 := by norm_num
  unfold ofDecimal
  dsimp only
  generalize scale + ((Nat.toDigits 10 digits).length : Int) = magnitude at hbelow habove ⊢
  have hleast : -400 ≤ magnitude := by
    have hpower : (10 : ℚ) ^ (-400 : ℤ) < 2 ^ (-1075 : ℤ) := by
      rw [zpow_neg, zpow_neg]
      exact inv_strictAnti₀ (zpow_pos two_pos _)
        ((zpow_le_zpow_right₀ one_le_two (by decide)).trans_lt (two_zpow_lt_ten_zpow 399))
    have hlt := (zpow_lt_zpow_iff_right₀ hten).mp (hpower.trans (hlow.trans_lt habove))
    omega
  have hmost : magnitude ≤ 400 := by
    have hpower : (2 : ℚ) ^ (1024 : ℤ) < 10 ^ (400 : ℤ) :=
      (zpow_le_zpow_right₀ one_le_two (by decide)).trans_lt (two_zpow_lt_ten_zpow 399)
    have hlt := (zpow_lt_zpow_iff_right₀ hten).mp ((hbelow.trans hhigh).trans_lt hpower)
    omega
  rw [if_neg (by omega), if_neg (by omega)]
  split
  next hscale =>
    have hvalue : ((digits * Nat.pow 10 scale.toNat : Nat) : ℚ) / (1 : Nat) =
        digits * 10 ^ scale := by
      rw [Nat.cast_mul, cast_ten_toNat hscale, Nat.cast_one, div_one]
    have hwhole : digits * Nat.pow 10 scale.toNat ≠ 0 :=
      Nat.mul_ne_zero hdigits (Nat.pow_pos (by decide)).ne'
    exact ofRatio_of_roundsTo negative hwhole one_ne_zero hformat (hvalue ▸ h.rounds)
      (hvalue ▸ h.power)
  next hscale =>
    have hvalue : (digits : ℚ) / (Nat.pow 10 (-scale).toNat : Nat) = digits * 10 ^ scale := by
      rw [cast_ten_toNat (by omega), zpow_neg, div_inv_eq_mul]
    have hdivisor : Nat.pow 10 (-scale).toNat ≠ 0 := (Nat.pow_pos (by decide)).ne'
    exact ofRatio_of_roundsTo negative hdigits hdivisor hformat (hvalue ▸ h.rounds)
      (hvalue ▸ h.power)

/-! ## Grids -/

/-- The unit of a grid, when the quarters of a last place are whole numbers. -/
def gridUnit (binary exponent : Int) : Nat :=
  Nat.pow 10 (max 0 exponent).toNat * Nat.pow 2 (max 0 (-(binary - 2))).toNat

/-- The quarter of a last place in the same measure. -/
def gridScale (binary exponent : Int) : Nat :=
  Nat.pow 2 (binary - 2 + (max 0 (-(binary - 2))).toNat).toNat *
    Nat.pow 10 (max 0 (-exponent)).toNat

/-- The lower end of what reads back as a number, in quarters of its last place. -/
def lowEnd (significand : Nat) (binary : Int) : Nat :=
  if significand = Nat.pow 2 (precision - 1) ∧ minExponent < binary then 4 * significand - 1
  else 4 * significand - 2

/-- Whether a place of the grid lies between the ends, which belong to even significands. -/
def isBetween (significand : Nat) (binary : Int) (scale x : Nat) : Bool :=
  let low := lowEnd significand binary * scale
  let high := (4 * significand + 2) * scale
  if significand % 2 = 0 then low ≤ x && x ≤ high else low < x && x < high

theorem onGrid?_eq (significand : Nat) (binary exponent : Int) :
    onGrid? significand binary exponent =
      let unit := gridUnit binary exponent
      let scale := gridScale binary exponent
      let floor := 4 * significand * scale / unit
      let nearest := divideToEven (4 * significand * scale) unit
      if isBetween significand binary scale (nearest * unit) then some ⟨nearest, exponent⟩
      else if isBetween significand binary scale (floor * unit) then some ⟨floor, exponent⟩
      else if isBetween significand binary scale ((floor + 1) * unit) then
        some ⟨floor + 1, exponent⟩
      else none :=
  rfl

theorem gridUnit_pos (binary exponent : Int) : 0 < gridUnit binary exponent :=
  Nat.mul_pos (Nat.pow_pos (by decide)) (Nat.two_pow_pos _)

theorem gridScale_pos (binary exponent : Int) : 0 < gridScale binary exponent :=
  Nat.mul_pos (Nat.two_pow_pos _) (Nat.pow_pos (by decide))

theorem gridUnit_eq (binary exponent : Int) :
    (gridUnit binary exponent : ℚ) =
      4 * (10 ^ exponent / 2 ^ binary) * gridScale binary exponent := by
  have hten : (10 : ℚ) ≠ 0 := by norm_num
  have htens : (10 : ℚ) ^ max 0 exponent = 10 ^ exponent * 10 ^ max 0 (-exponent) := by
    rw [← zpow_add₀ hten]
    congr 1
    omega
  have hquarter : (2 : ℚ) ^ (binary - 2) = 2 ^ binary / 4 := by
    rw [zpow_sub₀ two_ne_zero]
    norm_num
  have hbinary : (2 : ℚ) ^ binary ≠ 0 := (zpow_pos two_pos _).ne'
  rw [gridUnit, gridScale, Nat.cast_mul, Nat.cast_mul, cast_ten_toNat (le_max_left _ _),
    cast_ten_toNat (le_max_left _ _), cast_pow_toNat (le_max_left _ _),
    cast_pow_toNat (by omega), htens, Int.toNat_of_nonneg (le_max_left _ _),
    zpow_add₀ two_ne_zero, hquarter]
  field_simp

section

variable {significand digits : Nat} {binary exponent : Int}

/-- A place of the grid in quarters of the last place. -/
theorem mul_gridUnit_eq : ((digits * gridUnit binary exponent : Nat) : ℚ) =
    4 * (digits * 10 ^ exponent / 2 ^ binary) * gridScale binary exponent := by
  rw [Nat.cast_mul, gridUnit_eq]
  ring

theorem le_mul_gridUnit_iff {t : Nat} :
    t * gridScale binary exponent ≤ digits * gridUnit binary exponent ↔
      (t : ℚ) ≤ 4 * (digits * 10 ^ exponent / 2 ^ binary) := by
  have hscale : (0 : ℚ) < gridScale binary exponent := by exact_mod_cast gridScale_pos _ _
  rw [← @Nat.cast_le ℚ, mul_gridUnit_eq, Nat.cast_mul, mul_le_mul_iff_of_pos_right hscale]

theorem mul_gridUnit_le_iff {t : Nat} :
    digits * gridUnit binary exponent ≤ t * gridScale binary exponent ↔
      4 * (digits * 10 ^ exponent / 2 ^ binary) ≤ (t : ℚ) := by
  have hscale : (0 : ℚ) < gridScale binary exponent := by exact_mod_cast gridScale_pos _ _
  rw [← @Nat.cast_le ℚ, mul_gridUnit_eq, Nat.cast_mul, mul_le_mul_iff_of_pos_right hscale]

/-- The lower end is half a last place below the number, or a quarter below a power of two. -/
theorem lowEnd_eq (binary : Int) (hpos : 0 < significand) : (lowEnd significand binary : ℚ) =
    4 * significand - if significand = 2 ^ 52 ∧ -1074 < binary then 1 else 2 := by
  have hpower : significand = Nat.pow 2 (precision - 1) ∧ minExponent < binary ↔
      significand = 2 ^ 52 ∧ -1074 < binary := Iff.rfl
  unfold lowEnd
  simp only [hpower]
  split
  next => push_cast [show 1 ≤ 4 * significand by omega]; ring
  next => push_cast [show 2 ≤ 4 * significand by omega]; ring

theorem readsBack_of_isBetween (hpos : 0 < significand)
    (h : isBetween significand binary (gridScale binary exponent)
      (digits * gridUnit binary exponent) = true) :
    ReadsBack significand binary (digits * 10 ^ exponent) := by
  have hlow := lowEnd_eq binary hpos
  have hleast : 4 * (significand : ℚ) - 2 ≤ lowEnd significand binary := by
    rw [hlow]
    split <;> linarith
  have hpower (hend : (lowEnd significand binary : ℚ) ≤
      4 * (digits * 10 ^ exponent / 2 ^ binary)) (hsignificand : significand = 2 ^ 52)
      (hexponent : -1074 < binary) :
      2 ^ 52 - 1 / 4 ≤ (digits : ℚ) * 10 ^ exponent / 2 ^ binary := by
    rw [hlow, if_pos ⟨hsignificand, hexponent⟩, hsignificand] at hend
    push_cast at hend
    linarith
  unfold isBetween at h
  dsimp only at h
  split at h
  next heven =>
    simp only [Bool.and_eq_true, decide_eq_true_eq, le_mul_gridUnit_iff, mul_gridUnit_le_iff] at h
    obtain ⟨hbelow, habove⟩ := h
    refine ⟨?_, hpower hbelow⟩
    push_cast at habove
    have hclose : |(digits : ℚ) * 10 ^ exponent / 2 ^ binary - significand| ≤ 1 / 2 :=
      abs_le.mpr ⟨by linarith, by linarith⟩
    exact hclose.lt_or_eq.imp_right fun heq => ⟨heq, Nat.even_iff.mpr heven⟩
  next hodd =>
    simp only [Bool.and_eq_true, decide_eq_true_eq, ← not_le, le_mul_gridUnit_iff,
      mul_gridUnit_le_iff] at h
    simp only [not_le] at h
    obtain ⟨hbelow, habove⟩ := h
    refine ⟨Or.inl ?_, hpower hbelow.le⟩
    push_cast at habove
    exact abs_lt.mpr ⟨by linarith, by linarith⟩

theorem isBetween_of_close (hpos : 0 < significand)
    (hclose : |(digits : ℚ) * 10 ^ exponent / 2 ^ binary - significand| < 1 / 2)
    (hpower : significand = 2 ^ 52 →
      |(digits : ℚ) * 10 ^ exponent / 2 ^ binary - significand| < 1 / 4) :
    isBetween significand binary (gridScale binary exponent)
      (digits * gridUnit binary exponent) = true := by
  obtain ⟨hbelow, habove⟩ := abs_lt.mp hclose
  have hlow : (lowEnd significand binary : ℚ) < 4 * (digits * 10 ^ exponent / 2 ^ binary) := by
    rw [lowEnd_eq _ hpos]
    split
    next h => linarith [(abs_lt.mp (hpower h.1)).1]
    next => linarith
  have hhigh : 4 * ((digits : ℚ) * 10 ^ exponent / 2 ^ binary) < (4 * significand + 2 : Nat) := by
    push_cast
    linarith
  unfold isBetween
  dsimp only
  split
  next =>
    simp only [Bool.and_eq_true, decide_eq_true_eq, le_mul_gridUnit_iff, mul_gridUnit_le_iff]
    exact ⟨hlow.le, hhigh.le⟩
  next =>
    simp only [Bool.and_eq_true, decide_eq_true_eq, ← not_le, le_mul_gridUnit_iff,
      mul_gridUnit_le_iff]
    exact ⟨hlow.not_ge, hhigh.not_ge⟩

end

/-- What a grid gives is read back. -/
theorem readsBack_of_onGrid? {significand : Nat} {binary exponent : Int} {decimal : Decimal}
    (hpos : 0 < significand) (h : onGrid? significand binary exponent = some decimal) :
    ReadsBack significand binary (decimal.digits * 10 ^ decimal.exponent) := by
  rw [onGrid?_eq] at h
  dsimp only at h
  split at h
  next hbetween => cases h; exact readsBack_of_isBetween hpos hbetween
  next =>
    split at h
    next hbetween => cases h; exact readsBack_of_isBetween hpos hbetween
    next =>
      split at h
      next hbetween => cases h; exact readsBack_of_isBetween hpos hbetween
      next => cases h

/-- On a grid with seventeen digits for a number one of the places is read back. -/
theorem isSome_onGrid? {significand : Nat} {binary exponent : Int} (hpos : 0 < significand)
    (hsignificand : significand < 2 ^ 53)
    (hfine : (10 : ℚ) ^ (exponent + 16) ≤ significand * 2 ^ binary) :
    (onGrid? significand binary exponent).isSome = true := by
  have hbinary : (0 : ℚ) < 2 ^ binary := zpow_pos two_pos _
  have hten : (0 : ℚ) < 10 ^ exponent := by positivity
  have hunit : (gridUnit binary exponent : ℚ) ≠ 0 := by
    exact_mod_cast (gridUnit_pos binary exponent).ne'
  have hscale : (0 : ℚ) < gridScale binary exponent := by exact_mod_cast gridScale_pos _ _
  have hround := (roundsTo_divideToEven (4 * significand * gridScale binary exponent)
    (gridUnit_pos binary exponent)).le_half
  rw [onGrid?_eq]
  dsimp only
  generalize divideToEven (4 * significand * gridScale binary exponent)
    (gridUnit binary exponent) = nearest at hround ⊢
  have hvalue : ((4 * significand * gridScale binary exponent : Nat) : ℚ) /
      gridUnit binary exponent = significand * 2 ^ binary / 10 ^ exponent := by
    rw [gridUnit_eq]
    push_cast
    field_simp
  rw [hvalue] at hround
  -- the place is away from the number by half a unit of the grid at most
  have hdistance : |(nearest : ℚ) * 10 ^ exponent / 2 ^ binary - significand| * 10 ^ 16 * 2 ≤
      significand := by
    have hfar : |(nearest : ℚ) * 10 ^ exponent / 2 ^ binary - significand| =
        |(significand : ℚ) * 2 ^ binary / 10 ^ exponent - nearest| *
          (10 ^ exponent / 2 ^ binary) := by
      rw [← abs_of_pos (div_pos hten hbinary), ← abs_mul, abs_sub_comm]
      congr 1
      field_simp
    have hgrid : (10 : ℚ) ^ exponent / 2 ^ binary * 10 ^ 16 ≤ significand := by
      rw [zpow_add₀ (by norm_num)] at hfine
      rw [div_mul_eq_mul_div, div_le_iff₀ hbinary]
      exact_mod_cast hfine
    have hhalf := mul_le_mul_of_nonneg_right hround (div_pos hten hbinary).le
    rw [hfar]
    linarith
  have hless : (significand : ℚ) < 2 ^ 53 := by exact_mod_cast hsignificand
  have hbetween : isBetween significand binary (gridScale binary exponent)
      (nearest * gridUnit binary exponent) = true := by
    refine isBetween_of_close hpos (by linarith) fun hpower => ?_
    rw [hpower] at hdistance ⊢
    push_cast at hdistance ⊢
    linarith
  rw [if_pos hbetween]
  rfl

/-- The first grid with a reading is reached before the grids are fine enough. -/
theorem readsBack_firstGrid {significand : Nat} {binary : Int} (hpos : 0 < significand)
    (hsignificand : significand < 2 ^ 53) {count : Nat} {exponent : Int}
    (hfine : (10 : ℚ) ^ (exponent - count + 16) ≤ significand * 2 ^ binary) :
    ReadsBack significand binary ((firstGrid significand binary count exponent).digits *
      10 ^ (firstGrid significand binary count exponent).exponent) := by
  induction count generalizing exponent with
  | zero =>
      obtain ⟨decimal, hdecimal⟩ := Option.isSome_iff_exists.mp
        (isSome_onGrid? hpos hsignificand (by simpa using hfine))
      rw [firstGrid, hdecimal]
      exact readsBack_of_onGrid? hpos hdecimal
  | succ count ih =>
      rw [firstGrid]
      cases hgrid : onGrid? significand binary exponent with
      | some decimal => exact readsBack_of_onGrid? hpos hgrid
      | none =>
          refine ih ?_
          rwa [show exponent - 1 - count + 16 = exponent - (count + 1 : Nat) + 16 by
            push_cast; ring]

/-! ## The place of the first digit -/

/-- Powers of ten and of two next to each other, as far as the format reaches. -/
theorem powers_close : ∀ n < 1100, 10 ^ (n * 30103 / 100000) ≤ 10 * 2 ^ n ∧
    2 ^ n ≤ 10 * 10 ^ (n * 30103 / 100000) := by
  decide +kernel

/-- The estimate from the binary logarithm is too large by one at most. -/
theorem estimate_le {log : Int} (hleast : -1100 < log) (hmost : log < 1100) :
    (10 : ℚ) ^ (Int.fdiv (log * 30103) 100000 - 1) ≤ 2 ^ log := by
  have hten : (10 : ℚ) ≠ 0 := by norm_num
  rw [Int.fdiv_eq_ediv_of_nonneg _ (by decide)]
  obtain ⟨n, rfl | rfl⟩ := log.eq_nat_or_neg
  · have hclose := (powers_close n (by omega)).1
    have hcast : (10 : ℚ) ^ (n * 30103 / 100000) ≤ 10 * 2 ^ n := by exact_mod_cast hclose
    rw [show (n : Int) * 30103 / 100000 = (n * 30103 / 100000 : Nat) by push_cast; rfl,
      zpow_sub_one₀ hten, zpow_natCast, zpow_natCast]
    linarith
  · have hclose := (powers_close n (by omega)).2
    have hcast : (2 : ℚ) ^ n ≤ 10 * 10 ^ (n * 30103 / 100000) := by exact_mod_cast hclose
    have hle : -(n : Int) * 30103 / 100000 - 1 ≤ -((n * 30103 / 100000 + 1 : Nat) : Int) := by
      push_cast
      omega
    refine (zpow_le_zpow_right₀ (by norm_num) hle).trans ?_
    rw [zpow_neg, zpow_neg, zpow_natCast, zpow_natCast]
    refine inv_anti₀ (by positivity) ?_
    rwa [pow_succ, mul_comm]

theorem reaches_ten_iff {dividend divisor : Nat} (hdivisor : 0 < divisor) (e : Int) :
    (if 0 ≤ e then decide (divisor * Nat.pow 10 e.toNat ≤ dividend)
      else decide (divisor ≤ dividend * Nat.pow 10 (-e).toNat)) = true ↔
      (10 : ℚ) ^ e ≤ dividend / divisor := by
  have hpos : (0 : ℚ) < divisor := by exact_mod_cast hdivisor
  have hten : (0 : ℚ) < 10 ^ (-e) := by positivity
  rw [le_div_iff₀ hpos]
  split
  next he => rw [decide_eq_true_iff, ← @Nat.cast_le ℚ, Nat.cast_mul, cast_ten_toNat he, mul_comm]
  next he =>
    rw [decide_eq_true_iff, ← @Nat.cast_le ℚ, Nat.cast_mul, cast_ten_toNat (by omega),
      ← div_le_iff₀ hten, zpow_neg, div_inv_eq_mul, mul_comm]

/-- The power of ten at the first digit is not larger than the number. -/
theorem decimalLog_le {dividend divisor : Nat} (hdividend : dividend ≠ 0) (hdivisor : divisor ≠ 0)
    (hlow : (2 : ℚ) ^ (-1075 : ℤ) ≤ dividend / divisor)
    (hhigh : (dividend : ℚ) / divisor ≤ 2 ^ (1024 : ℤ)) :
    (10 : ℚ) ^ decimalLog dividend divisor ≤ dividend / divisor := by
  have hpos : (0 : ℚ) < dividend / divisor := by positivity
  obtain ⟨log, hle, hlt⟩ := exists_log hpos
  have hleast := (zpow_lt_zpow_iff_right₀ one_lt_two).mp (hlow.trans_lt hlt)
  have hmost := (zpow_le_zpow_iff_right₀ one_lt_two).mp (hle.trans hhigh)
  have hreaches (e : Int) := @reaches_ten_iff dividend divisor (Nat.pos_of_ne_zero hdivisor) e
  unfold decimalLog
  dsimp only
  rw [binaryLog_eq hdividend hdivisor hle hlt]
  have hestimate := estimate_le (show -1100 < log by omega) (by omega)
  generalize Int.fdiv (log * 30103) 100000 = estimate at hestimate ⊢
  simp only [hreaches]
  split
  next h => exact h
  next =>
    split
    next h => exact h
    next => exact hestimate.trans hle

/-- The shortest digits of a number are read back as it. -/
theorem readsBack_shortest {significand : Nat} {exponent : Int}
    (hformat : InFormat significand exponent) (hpos : 0 < significand) :
    ReadsBack significand exponent
      ((shortest significand exponent).digits * 10 ^ (shortest significand exponent).exponent) := by
  have hself : ReadsBack significand exponent (significand * 2 ^ exponent) := by
    have hunit : (2 : ℚ) ^ exponent ≠ 0 := (zpow_pos two_pos _).ne'
    constructor
    · rw [mul_div_cancel_right₀ _ hunit]
      exact roundsTo_natCast significand
    · intro hpower _
      rw [mul_div_cancel_right₀ _ hunit, hpower]
      norm_num
  obtain ⟨hlow, hhigh⟩ := hself.bounds hformat hpos
  refine readsBack_firstGrid hpos hformat.significand_lt ?_
  rw [show (16 : Nat) = (16 : Int) from rfl, Int.sub_add_cancel]
  split
  next hnonneg =>
    have hvalue : ((significand * Nat.pow 2 exponent.toNat : Nat) : ℚ) / (1 : Nat) =
        significand * 2 ^ exponent := by
      rw [Nat.cast_mul, cast_pow_toNat hnonneg, Nat.cast_one, div_one]
    rw [← hvalue] at hlow hhigh ⊢
    exact decimalLog_le (Nat.mul_ne_zero hpos.ne' (Nat.two_pow_pos _).ne') one_ne_zero hlow hhigh
  next hnegative =>
    have hvalue : (significand : ℚ) / (Nat.pow 2 (-exponent).toNat : Nat) =
        significand * 2 ^ exponent := by
      rw [cast_pow_toNat (by omega), zpow_neg, div_inv_eq_mul]
    rw [← hvalue] at hlow hhigh ⊢
    exact decimalLog_le hpos.ne' (Nat.two_pow_pos _).ne' hlow hhigh

end Binary64

end Transclude
