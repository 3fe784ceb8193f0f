import Mathlib
import Transclude.Expr.Scope
import Transclude.Proofs.KeyEquality
import Transclude.Value.Equality

/-! # Strict and loose equality

Both equalities are symmetric, and all that a value needs to be strictly equal to
itself is not to be the number that is none. Values that are strictly equal are
loosely equal as well, unless they are of a kind that loose equality does not know.
Such values it takes for numbers, which they are not, so that they are loosely
equal to nothing, themselves included. -/

namespace Transclude

namespace Number

theorem equals_comm (a b : Number) : a.equals b = b.equals a := by
  rw [Bool.eq_iff_iff, equals_iff, equals_iff]
  exact exists_congr fun p => and_comm

theorem nan_equals (n : Number) : nan.equals n = false := by
  rw [Bool.eq_false_iff, ne_eq, equals_iff]
  rintro ⟨p, hp, _⟩
  cases hp

/-- Only what is not a number stands for no point. -/
theorem point?_eq_none_iff (n : Number) : n.point? = none ↔ n.isNaN = true := by
  rcases n with n | (_ | negative | _)
  · simp [point?, isNaN]
  · simp [point?, isNaN, Binary64.isNaN]
  · cases negative <;> simp [point?, isNaN, Binary64.isNaN]
  · simp [point?, isNaN, Binary64.isNaN]

theorem equals_self (n : Number) : n.equals n = !n.isNaN := by
  rw [Bool.eq_iff_iff, equals_iff, Bool.not_eq_true', ← Bool.not_eq_true, ← point?_eq_none_iff,
    ← ne_eq, Option.ne_none_iff_exists']
  exact exists_congr fun p => and_self_iff

end Number

namespace Moment

theorem same_comm (a b : Moment) : a.same b = b.same a := by
  rw [Bool.eq_iff_iff, Scalar.momentSame_iff, Scalar.momentSame_iff]
  exact eq_comm

theorem same_self (m : Moment) : m.same m = true := (Scalar.momentSame_iff m m).mpr rfl

end Moment

namespace Value

variable {ι : Type}

/-- Whether the value is a tuple or a set, which are compared by what they hold. -/
def isCompound : Value ι → Bool
  | .tuple _ | .set _ => true
  | _ => false

/-- Whether the value is of a kind that loose equality does not know. -/
def isOpaque : Value ι → Bool
  | .scalar (.bytes _) | .scalar (.filter _) | .scalar (.date _) | .scalar (.moment _) => true
  | .tuple _ | .set _ => true
  | _ => false

/-- Whether the value is the number that is none. -/
def isNaN : Value ι → Bool
  | .number n => n.isNaN
  | _ => false

/-! ## Symmetry -/

theorem looseEqualsPlain_comm (a b : Value ι) : looseEqualsPlain a b = looseEqualsPlain b a := by
  by_cases htexts : ∃ s t, a = .str s ∧ b = .str t
  · obtain ⟨s, t, rfl, rfl⟩ := htexts
    exact BEq.comm
  · have hnumbers : ∀ {a b : Value ι}, (¬ ∃ s t, a = .str s ∧ b = .str t) →
        looseEqualsPlain a b = a.toNumber.equals b.toNumber := by
      intro a b hab
      unfold looseEqualsPlain
      split
      next s t => exact (hab ⟨s, t, rfl, rfl⟩).elim
      next => rfl
    rw [hnumbers htexts, hnumbers fun ⟨s, t, hb, ha⟩ => htexts ⟨t, s, ha, hb⟩, Number.equals_comm]

theorem isCompound_of_isContainer {a : Value ι} (h : a.isContainer = true) :
    a.isCompound = false := by
  cases a with
  | list _ _ | map _ _ => rfl
  | _ => cases h

variable [DecidableEq ι]

theorem strictEquals_scalar_comm (s t : Scalar) :
    strictEquals (.scalar s : Value ι) (.scalar t) =
      strictEquals (.scalar t : Value ι) (.scalar s) := by
  cases s with
  | number m =>
      cases t with
      | number n => exact Number.equals_comm m n
      | _ => rfl
  | moment m =>
      cases t with
      | moment n => exact Moment.same_comm m n
      | _ => rfl
  | _ => cases t <;> exact BEq.comm

theorem strictEquals_comm {a b : Value ι} (ha : a.isCompound = false) (hb : b.isCompound = false) :
    strictEquals a b = strictEquals b a := by
  cases a with
  | tuple _ | set _ => cases ha
  | list i _ =>
      cases b with
      | tuple _ | set _ => cases hb
      | scalar s => cases s <;> rfl
      | list j _ => exact BEq.comm
      | map _ _ => rfl
  | map i _ =>
      cases b with
      | tuple _ | set _ => cases hb
      | scalar s => cases s <;> rfl
      | list _ _ => rfl
      | map j _ => exact BEq.comm
  | scalar s =>
      cases b with
      | tuple _ | set _ => cases hb
      | list _ _ | map _ _ => cases s <;> rfl
      | scalar t => exact strictEquals_scalar_comm s t

/-- Loose equality does not depend on the order of the two, not even when it has no answer. -/
theorem looseEquals_comm (a b : Value ι) : looseEquals a b = looseEquals b a := by
  unfold looseEquals
  rw [Bool.or_comm, Bool.and_comm]
  split
  next => rfl
  next =>
    cases ha : a.isContainer <;> cases hb : b.isContainer
    · exact congrArg Except.ok (looseEqualsPlain_comm a b)
    · rfl
    · rfl
    · exact congrArg Except.ok (strictEquals_comm
        (isCompound_of_isContainer ha) (isCompound_of_isContainer hb))

/-! ## Equality of a value with itself -/

theorem strictEquals_self {a : Value ι} (ha : a.isCompound = false) :
    strictEquals a a = !a.isNaN := by
  cases a with
  | tuple _ | set _ => cases ha
  | list i _ | map i _ => exact BEq.rfl
  | scalar s =>
      cases s with
      | number n => exact Number.equals_self n
      | moment m => exact Moment.same_self m
      | _ => exact BEq.rfl

/-! ## Strictly equal values -/

/-- Strictly equal scalars are equal numbers, moments, or one and the same. -/
theorem scalars_of_strictEquals {s t : Scalar}
    (h : strictEquals (.scalar s : Value ι) (.scalar t) = true) :
    (∃ m n, s = .number m ∧ t = .number n ∧ m.equals n = true) ∨
      (∃ m n, s = .moment m ∧ t = .moment n) ∨ s = t := by
  cases s with
  | number m =>
      cases t with
      | number n => exact Or.inl ⟨m, n, rfl, rfl, h⟩
      | _ => exact Or.inr (Or.inr (eq_of_beq h))
  | moment m =>
      cases t with
      | moment n => exact Or.inr (Or.inl ⟨m, n, rfl, rfl⟩)
      | _ => exact Or.inr (Or.inr (eq_of_beq h))
  | _ => cases t <;> exact Or.inr (Or.inr (eq_of_beq h))

theorem looseEquals_scalar_self {s : Scalar} (h : ∀ n, s ≠ .number n) :
    looseEquals (.scalar s : Value ι) (.scalar s) = .ok (!isOpaque (.scalar s : Value ι)) := by
  cases s with
  | number n => exact (h n rfl).elim
  | bool b => cases b <;> rfl
  | str s => exact congrArg Except.ok BEq.rfl
  | _ => rfl

/-- Strictly equal values are loosely equal if loose equality knows their kind, and only then. -/
theorem looseEquals_of_strictEquals {a b : Value ι} (h : strictEquals a b = true) :
    looseEquals a b = .ok (!a.isOpaque) := by
  cases a with
  | scalar s =>
      cases b with
      | scalar t =>
          obtain ⟨m, n, rfl, rfl, hequal⟩ | ⟨m, n, rfl, rfl⟩ | rfl := scalars_of_strictEquals h
          · exact congrArg Except.ok hequal
          · rfl
          · by_cases hnumber : ∃ n, s = .number n
            · obtain ⟨n, rfl⟩ := hnumber
              exact congrArg Except.ok h
            · exact looseEquals_scalar_self fun n hn => hnumber ⟨n, hn⟩
      | _ => cases s <;> cases h
  | tuple as =>
      cases b with
      | tuple bs => rfl
      | scalar t => cases t <;> cases h
      | _ => cases h
  | set as =>
      cases b with
      | set bs => rfl
      | scalar t => cases t <;> cases h
      | _ => cases h
  | list i as =>
      cases b with
      | list j bs => exact congrArg Except.ok h
      | scalar t => cases t <;> cases h
      | _ => cases h
  | map i as =>
      cases b with
      | map j bs => exact congrArg Except.ok h
      | scalar t => cases t <;> cases h
      | _ => cases h

/-! ## Values that loose equality does not know -/

omit [DecidableEq ι] in
/-- What counts as no number is plainly equal to nothing, unless both are texts. -/
theorem looseEqualsPlain_of_isOpaque {a : Value ι} (ha : a.isOpaque = true) (b : Value ι) :
    looseEqualsPlain a b = false := by
  have hnumber : a.toNumber = .nan := by
    cases a with
    | scalar s => cases s <;> first | rfl | cases ha
    | _ => rfl
  have hplain : looseEqualsPlain a b = a.toNumber.equals b.toNumber := by
    unfold looseEqualsPlain
    split
    next => cases ha
    next => rfl
  rw [hplain, hnumber]
  exact Number.nan_equals b.toNumber

/-- A value that loose equality does not know is loosely equal to nothing. -/
theorem looseEquals_of_isOpaque {a : Value ι} (ha : a.isOpaque = true) (b : Value ι) :
    looseEquals a b ≠ .ok true := by
  have hknown : a.isNullish = false ∧ a.isContainer = false := by
    cases a with
    | scalar s => cases s <;> first | exact ⟨rfl, rfl⟩ | cases ha
    | _ => first | exact ⟨rfl, rfl⟩ | cases ha
  unfold looseEquals
  rw [hknown.1, hknown.2, Bool.false_or, Bool.false_and]
  split
  next => nofun
  next =>
    cases b.isContainer with
    | false => rw [looseEqualsPlain_of_isOpaque ha]; nofun
    | true =>
        cases b.toShownText with
        | error kind => nofun
        | ok text =>
            change Except.ok (looseEqualsPlain (.str text) a) ≠ _
            rw [looseEqualsPlain_comm, looseEqualsPlain_of_isOpaque ha]
            nofun

/-- Both equalities of scalars, lists and mappings are symmetric, and strict equality holds between
all values but what is not a number and themselves. Values that are strictly equal are loosely equal
too, apart from those of a kind that loose equality does not know, which are loosely equal to
nothing. -/
theorem equalities_agree {a b : Value ι} (ha : a.isCompound = false) (hb : b.isCompound = false) :
    (strictEquals a b = true → looseEquals a b = .ok (!a.isOpaque)) ∧
      (a.isOpaque = true → looseEquals a b ≠ .ok true) ∧
      strictEquals a b = strictEquals b a ∧ looseEquals a b = looseEquals b a ∧
      strictEquals a a = !a.isNaN :=
  ⟨looseEquals_of_strictEquals, fun h => looseEquals_of_isOpaque h b, strictEquals_comm ha hb,
    looseEquals_comm a b, strictEquals_self ha⟩

/-- Noon in one time zone and one o'clock in the next one are strictly equal, but not loosely. -/
theorem equalities_agree_noon :
    let noon : Located := .scalar (.moment ⟨⟨2001, 1, 1⟩, 12, 0, 0, 0, some ⟨0, "UTC"⟩⟩)
    let one : Located := .scalar (.moment ⟨⟨2001, 1, 1⟩, 13, 0, 0, 0, some ⟨3600, "+01:00"⟩⟩)
    strictEquals noon one = true ∧ looseEquals noon one = .ok false := by
  intro noon one
  have hsame : strictEquals noon one = true := by decide
  exact ⟨hsame, (equalities_agree rfl rfl).1 hsame⟩

/-- A filter is strictly equal to itself, but not loosely. -/
theorem not_equalities_agree :
    ¬ ∀ a b : Located, strictEquals a b = true → looseEquals a b = .ok true := by
  intro h
  have hfilter := h (.scalar (.filter "upper")) (.scalar (.filter "upper")) BEq.rfl
  cases hfilter

end Value

end Transclude
