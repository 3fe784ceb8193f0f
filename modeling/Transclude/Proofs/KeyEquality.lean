import Mathlib
import Transclude.Value.Basic

/-! # Equality of keys

Keys are equal when they stand for the same point: numbers and truth values for a
point of the number line, moments for a point of time, all else for itself. So
equality of keys is symmetric and transitive, and a key that is equal to any other
is equal to itself. -/

namespace Transclude

namespace Binary64

/-- The rational number `± significand * 2 ^ exponent`. -/
def scaled (negative : Bool) (significand : Nat) (exponent : Int) : ℚ :=
  (if negative then -(significand : ℚ) else significand) * 2 ^ exponent

/-- In units not above its exponent a significand with its sign is the number. -/
theorem signedAt_eq_scaled {unit exponent : Int} (h : unit ≤ exponent) (negative : Bool)
    (significand : Nat) :
    (signedAt unit negative significand exponent : ℚ) =
      scaled negative significand exponent * 2 ^ (-unit) := by
  have hshift : (2 : ℚ) ^ exponent * 2 ^ (-unit) = 2 ^ (exponent - unit).toNat := by
    rw [← zpow_add₀ two_ne_zero, ← zpow_natCast, Int.toNat_of_nonneg (by omega)]
    rfl
  unfold signedAt scaled
  rw [mul_assoc, hshift]
  cases negative <;> simp

/-- Two numbers in one unit are equal when the numbers are. -/
theorem signedAt_inj {unit p q : Int} (hp : unit ≤ p) (hq : unit ≤ q) {a b : Bool} {m n : Nat} :
    signedAt unit a m p = signedAt unit b n q ↔ scaled a m p = scaled b n q := by
  have hunit : (2 : ℚ) ^ (-unit) ≠ 0 := zpow_ne_zero _ two_ne_zero
  rw [← @Int.cast_inj ℚ, signedAt_eq_scaled hp, signedAt_eq_scaled hq,
    mul_left_inj' hunit]

end Binary64

namespace Number

/-- The point of the number line that a number stands for, where the infinities are its ends. -/
def point? : Number → Option (WithBot (WithTop ℚ))
  | .int n => some ((n : ℚ) : WithTop ℚ)
  | .float (.finite negative significand exponent) =>
    some (Binary64.scaled negative significand exponent : WithTop ℚ)
  | .float (.infinite true) => some ⊥
  | .float (.infinite false) => some (⊤ : WithTop ℚ)
  | .float (.notANumber _) => none

theorem compareInt?_eq_iff (k : Int) (x : Binary64) :
    Binary64.compareInt? k x = some .eq ↔
      ∃ p, point? (.int k) = some p ∧ point? (.float x) = some p := by
  cases x with
  | finite negative significand exponent =>
      have hunit : (k : ℚ) * 2 ^ (-(min 0 exponent)).toNat =
          (k : ℚ) * 2 ^ (-(min 0 exponent)) := by
        rw [← zpow_natCast, Int.toNat_of_nonneg (by omega)]
      have hne : (2 : ℚ) ^ (-(min 0 exponent)) ≠ 0 := zpow_ne_zero _ two_ne_zero
      have hcast : ((k * (Nat.pow 2 (-(min 0 exponent)).toNat : Nat) : Int) : ℚ) =
          (k : ℚ) * 2 ^ (-(min 0 exponent)) := by
        rw [← hunit, Nat.pow_eq]
        push_cast
        rfl
      simp only [Binary64.compareInt?, Option.some.injEq, compare_eq_iff_eq, point?,
        exists_eq_left']
      rw [← @Int.cast_inj ℚ, hcast, Binary64.signedAt_eq_scaled (min_le_right 0 exponent),
        mul_left_inj' hne]
      simp [eq_comm]
  | infinite negative => cases negative <;> simp [Binary64.compareInt?, point?]
  | notANumber origin => simp [Binary64.compareInt?, point?]

theorem floatCompare?_eq_iff (x y : Binary64) :
    Binary64.compare? x y = some .eq ↔
      ∃ p, point? (.float x) = some p ∧ point? (.float y) = some p := by
  cases x with
  | finite a m p =>
      cases y with
      | finite b n q =>
          simp only [Binary64.compare?, Option.some.injEq, compare_eq_iff_eq, point?,
            Binary64.signedAt_inj (min_le_left p q) (min_le_right p q), exists_eq_left']
          simp [eq_comm]
      | infinite b => cases b <;> simp [Binary64.compare?, point?]
      | notANumber origin => simp [Binary64.compare?, point?]
  | infinite a =>
      cases y with
      | finite b n q => cases a <;> simp [Binary64.compare?, point?]
      | infinite b => cases a <;> cases b <;> simp [Binary64.compare?, point?]
      | notANumber origin => simp [Binary64.compare?, point?]
  | notANumber origin => simp [Binary64.compare?, point?]

/-- Numbers have equal values when they stand for one point. -/
theorem equals_iff (a b : Number) :
    a.equals b = true ↔ ∃ p, a.point? = some p ∧ b.point? = some p := by
  unfold equals
  rw [beq_iff_eq]
  cases a with
  | int m =>
      cases b with
      | int n =>
          simp only [compare?, point?, Option.some.injEq, compare_eq_iff_eq, exists_eq_left']
          simp [eq_comm]
      | float y => exact compareInt?_eq_iff m y
  | float x =>
      cases b with
      | int n =>
          have hswap : (Binary64.compareInt? n x).map Ordering.swap = some .eq ↔
              Binary64.compareInt? n x = some .eq := by
            cases Binary64.compareInt? n x with
            | none => simp
            | some order => cases order <;> simp
          rw [compare?, hswap, compareInt?_eq_iff]
          exact exists_congr fun p => and_comm
      | float y => exact floatCompare?_eq_iff x y

end Number

namespace Scalar

/-- What a key without parts stands for. -/
inductive Identity
  /-- A point of the number line. -/
  | point (value : WithBot (WithTop ℚ))
  /-- The place of what is not a number. -/
  | place (path : List Nat)
  /-- A point of time, in seconds and microseconds. -/
  | instant (seconds : Int) (microsecond : Nat)
  | itself (s : Scalar)

/-- Whether it is what a number stands for. -/
def Identity.isNumeric : Identity → Bool
  | .point _ | .place _ => true
  | .instant _ _ | .itself _ => false

/-- What a number stands for as a key. What is not a number and has no place stands for nothing. -/
def numberIdentity? : Number → Option Identity
  | .float (.notANumber origin) => origin.map .place
  | n => n.point?.map .point

/-- What a moment stands for as a key. -/
def momentIdentity (m : Moment) : Identity :=
  match m.zone with
  | some zone => .instant (m.clockSeconds - zone.offset) m.microsecond
  | none => .itself (.moment m)

/-- What a scalar that is no number stands for as a key. -/
def otherIdentity : Scalar → Identity
  | .moment m => momentIdentity m
  | s => .itself s

/-- What a key without parts stands for. -/
def identity? (s : Scalar) : Option Identity :=
  match s.keyNumber? with
  | some n => numberIdentity? n
  | none => some (otherIdentity s)

theorem numberSameKey_iff (a b : Number) :
    a.sameKey b = true ↔ ∃ p, numberIdentity? a = some p ∧ numberIdentity? b = some p := by
  unfold Number.sameKey
  rw [Bool.or_eq_true, Number.equals_iff]
  rcases a with m | (_ | _ | origin) <;> rcases b with n | (_ | _ | other)
  case float.notANumber.float.notANumber =>
    rcases origin with _ | place <;> rcases other with _ | place' <;>
      simp only [Number.point?, numberIdentity?, Binary64.isSameNaN, beq_iff_eq, reduceCtorEq,
        Option.map_none, Option.map_some, Option.some.injEq, exists_eq_left', false_and,
        and_false, exists_false, or_false, false_or, Bool.false_eq_true, Identity.place.injEq]
    exact eq_comm
  all_goals simp [numberIdentity?, Number.point?, Binary64.isSameNaN]

theorem isNumeric_of_numberIdentity? {n : Number} {p : Identity}
    (h : numberIdentity? n = some p) : p.isNumeric = true := by
  unfold numberIdentity? at h
  split at h <;> obtain ⟨_, _, rfl⟩ := Option.map_eq_some_iff.mp h <;> rfl

theorem momentSame_iff (a b : Moment) :
    a.same b = true ↔ momentIdentity a = momentIdentity b := by
  unfold Moment.same momentIdentity
  cases ha : a.zone with
  | none =>
      cases hb : b.zone with
      | none => simp
      | some q =>
          have hne : a ≠ b := fun h => by simp [h, hb] at ha
          simp [hne]
  | some p =>
      cases hb : b.zone with
      | none =>
          have hne : a ≠ b := fun h => by simp [h, hb] at ha
          simp [hne]
      | some q => simp

theorem eq_moment_of_momentIdentity {m : Moment} {s : Scalar}
    (h : momentIdentity m = .itself s) : s = .moment m := by
  unfold momentIdentity at h
  split at h
  next => cases h
  next => exact (Identity.itself.inj h).symm

theorem isNumeric_otherIdentity (s : Scalar) : (otherIdentity s).isNumeric = false := by
  unfold otherIdentity momentIdentity
  split
  next => split <;> rfl
  next => rfl

/-- Scalars other than numbers are equal as keys when they stand for the same. -/
theorem otherIdentity_inj (a b : Scalar) :
    (match a, b with
      | .moment p, .moment q => p.same q
      | a, b => a == b) = true ↔ otherIdentity a = otherIdentity b := by
  split
  next p q => exact momentSame_iff p q
  next hmoments =>
    rw [beq_iff_eq]
    constructor
    · rintro rfl
      rfl
    · intro h
      unfold otherIdentity at h
      split at h <;> split at h
      next => exact (hmoments _ _ rfl rfl).elim
      next => exact (eq_moment_of_momentIdentity h).symm
      next => exact eq_moment_of_momentIdentity h.symm
      next => exact Identity.itself.inj h

/-- Scalars are equal as keys when they stand for the same. -/
theorem sameKey_iff (a b : Scalar) :
    a.sameKey b = true ↔ ∃ p, a.identity? = some p ∧ b.identity? = some p := by
  unfold sameKey identity?
  cases a.keyNumber? with
  | some m =>
      cases b.keyNumber? with
      | some n => exact numberSameKey_iff m n
      | none =>
          simp only [Bool.false_eq_true, false_iff]
          rintro ⟨p, hp, ⟨⟩⟩
          have hnumeric := isNumeric_of_numberIdentity? hp
          rw [isNumeric_otherIdentity] at hnumeric
          cases hnumeric
  | none =>
      cases b.keyNumber? with
      | some n =>
          simp only [Bool.false_eq_true, false_iff]
          rintro ⟨p, ⟨⟩, hp⟩
          have hnumeric := isNumeric_of_numberIdentity? hp
          rw [isNumeric_otherIdentity] at hnumeric
          cases hnumeric
      | none =>
          refine (otherIdentity_inj a b).trans ?_
          constructor
          · exact fun h => ⟨_, rfl, congrArg some h.symm⟩
          · rintro ⟨p, ha, hb⟩
            rw [Option.some.inj ha, Option.some.inj hb]

theorem sameKey_comm (a b : Scalar) : a.sameKey b = b.sameKey a := by
  rw [Bool.eq_iff_iff, sameKey_iff, sameKey_iff]
  exact exists_congr fun p => and_comm

theorem sameKey_trans {a b c : Scalar} (hab : a.sameKey b = true) (hbc : b.sameKey c = true) :
    a.sameKey c = true := by
  rw [sameKey_iff] at *
  obtain ⟨p, ha, hb⟩ := hab
  obtain ⟨q, hb', hc⟩ := hbc
  exact ⟨p, ha, by rw [hc, ← hb', hb]⟩

end Scalar

namespace Key

mutual

theorem same_comm : ∀ a b : Key, a.same b = b.same a
  | .scalar a, .scalar b => Scalar.sameKey_comm a b
  | .sequence as, .sequence bs => by rw [same, same, sameItems_comm as bs]
  | .scalar _, .sequence _ | .sequence _, .scalar _ => by simp only [same]

theorem sameItems_comm : ∀ as bs : List Key, sameItems as bs = sameItems bs as
  | [], [] | [], _ :: _ | _ :: _, [] => by simp only [sameItems]
  | a :: as, b :: bs => by rw [sameItems, sameItems, same_comm a b, sameItems_comm as bs]

end

mutual

theorem same_trans : ∀ {a b c : Key}, a.same b = true → b.same c = true → a.same c = true
  | .scalar a, .scalar b, .scalar c, hab, hbc => by
      rw [same] at hab hbc ⊢
      exact Scalar.sameKey_trans hab hbc
  | .sequence as, .sequence bs, .sequence cs, hab, hbc => by
      rw [same] at hab hbc ⊢
      exact sameItems_trans hab hbc
  | .scalar _, .sequence _, _, hab, _ => by simp [same] at hab
  | .sequence _, .scalar _, _, hab, _ => by simp [same] at hab
  | .scalar _, .scalar _, .sequence _, _, hbc => by simp [same] at hbc
  | .sequence _, .sequence _, .scalar _, _, hbc => by simp [same] at hbc

theorem sameItems_trans : ∀ {as bs cs : List Key},
    sameItems as bs = true → sameItems bs cs = true → sameItems as cs = true
  | [], [], [], _, _ => by simp [sameItems]
  | a :: as, b :: bs, c :: cs, hab, hbc => by
      simp only [sameItems, Bool.and_eq_true] at hab hbc ⊢
      exact ⟨same_trans hab.1 hbc.1, sameItems_trans hab.2 hbc.2⟩
  | [], _ :: _, _, hab, _ => by simp [sameItems] at hab
  | _ :: _, [], _, hab, _ => by simp [sameItems] at hab
  | [], [], _ :: _, _, hbc => by simp [sameItems] at hbc
  | _ :: _, _ :: _, [], _, hbc => by simp [sameItems] at hbc

end

/-- Equal keys are equal to the same keys. -/
theorem same_congr {a b : Key} (h : a.same b = true) (other : Key) :
    a.same other = b.same other := by
  rw [Bool.eq_iff_iff]
  constructor
  · intro hother
    rw [same_comm] at h
    exact same_trans h hother
  · intro hother
    exact same_trans h hother

end Key

end Transclude
