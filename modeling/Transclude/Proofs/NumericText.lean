import Mathlib
import Transclude.Proofs.DataReferences
import Transclude.Proofs.Digits
import Transclude.Proofs.Equalities
import Transclude.Proofs.Rounding
import Transclude.Proofs.Wrapping

/-! # Texts of integers

A text is converted to a number by way of floating point, so that the decimal text of
an integer stands for the nearest integer that has a floating-point number, or for an
infinity beyond the range of these. Comparisons and differences with the text take
that number, and give what the integer itself would give exactly when it has a
floating-point number. -/

namespace Transclude

namespace Decimal

open Text

/-! ## Plain numbers -/

/-- The characters of numbers that are written without words, blanks and other scripts. -/
def IsPlain (c : Char) : Prop := c.isDigit = true ∨ c ∈ ['.', 'e', '+', '-']

instance : DecidablePred IsPlain := fun _ => inferInstanceAs (Decidable (_ ∨ _))

theorem IsPlain.toNat_lt {c : Char} (h : IsPlain c) : c.toNat < 128 := by
  obtain h | h := h
  · have hrange := Expr.toNat_of_isDigit h
    omega
  · simp only [List.mem_cons, List.not_mem_nil, or_false] at h
    rcases h with rfl | rfl | rfl | rfl <;> decide

/-- A plain character is neither blank nor the first letter of a word for a number, and stays the
same when digits are brought to one script. -/
theorem IsPlain.facts {c : Char} (h : IsPlain c) : isBlank c = false ∧
    c.toLower ∉ ['i', 'n'] ∧ c ≠ '_' ∧ ∀ value ∈ decimalValue? c, Char.ofNat (48 + value) = c := by
  have hall : ∀ n < 128, IsPlain (Char.ofNat n) → isBlank (Char.ofNat n) = false ∧
      (Char.ofNat n).toLower ∉ ['i', 'n'] ∧ Char.ofNat n ≠ '_' ∧
      ∀ value ∈ decimalValue? (Char.ofNat n), Char.ofNat (48 + value) = Char.ofNat n := by decide
  have hc := hall c.toNat h.toNat_lt
  rw [Char.ofNat_toNat] at hc
  exact hc h

theorem asciiDigits_plain {text : List Char} (h : ∀ c ∈ text, IsPlain c) :
    asciiDigits text = text := by
  refine (List.map_congr_left fun c hc => ?_).trans text.map_id
  split
  next value hvalue => exact (h c hc).facts.2.2.2 value hvalue
  next => rfl

theorem mem_of_mem_splitSign {text : List Char} {c : Char} (h : c ∈ (splitSign text).2) :
    c ∈ text := by
  unfold splitSign at h
  split at h
  next => exact List.mem_cons_of_mem _ h
  next => exact List.mem_cons_of_mem _ h
  next => exact h

/-- A text of plain characters is read as a sign and digits with a point and an exponent. -/
theorem read?_plain {text : List Char} (h : ∀ c ∈ text, IsPlain c) :
    read? text = unsigned? (splitSign text).1 (splitSign text).2 := by
  have hmargin : ∀ c ∈ text, isMargin c = false := by
    intro c hc
    rw [isMargin, (h c hc).facts.1, Bool.false_and]
  have hmargins : withoutMargins text = text := dropWhile_ends hmargin
  have hunderscore : '_' ∉ text := fun hmem => (h _ hmem).facts.2.2.1 rfl
  have hword {first : Char} (hfirst : first ∈ ['i', 'n']) (more : List Char) :
      isWordOf (first :: more) (splitSign text).2 = false := by
    rw [isWordOf, beq_eq_false_iff_ne]
    intro heq
    obtain ⟨c, rest, hrest, rfl, -⟩ := List.map_eq_cons_iff.mp heq
    have hmem := mem_of_mem_splitSign (hrest ▸ List.mem_cons_self)
    exact (h c hmem).facts.2.1 hfirst
  rw [read?, hmargins, asciiDigits_plain h, withoutUnderscores?_of_digits hunderscore (by decide)]
  simp only [Option.bind_eq_bind, Option.bind_some, hword (show 'i' ∈ ['i', 'n'] by simp),
    hword (show 'n' ∈ ['i', 'n'] by simp), Bool.or_self, Bool.false_eq_true, if_false]

/-! ## Integers as text -/

theorem isPlain_toString {n : Int} {c : Char} (h : c ∈ (toString n).toList) :
    c ∉ ['.', 'e', 'E'] ∧ IsPlain c := by
  have hdigit {m : Nat} (hmem : c ∈ Nat.toDigits 10 m) : c ∉ ['.', 'e', 'E'] ∧ IsPlain c := by
    have hdigit := Nat.isDigit_of_mem_toDigits (by decide) (by decide) hmem
    refine ⟨?_, Or.inl hdigit⟩
    intro hmark
    simp only [List.mem_cons, List.not_mem_nil, or_false] at hmark
    rcases hmark with rfl | rfl | rfl <;> exact absurd hdigit (by decide)
  rw [Json.toList_toString, List.mem_append] at h
  obtain h | h := h
  · split at h
    next =>
      obtain rfl := List.mem_singleton.mp h
      decide
    next => cases h
  · exact hdigit h

theorem splitSign_toString (n : Int) :
    splitSign (toString n).toList = (decide (n < 0), Nat.toDigits 10 n.natAbs) := by
  rw [Json.toList_toString]
  split
  next hneg => rw [decide_eq_true hneg]; rfl
  next hnonneg =>
    obtain ⟨c, digits, hdigits, hc⟩ := Json.exists_digit_toDigits n.natAbs
    have hrange := Expr.toNat_of_isDigit hc
    have hdigit := splitSign_digit (show c.toNat - 48 ≤ 9 by omega) digits
    rw [show 48 + (c.toNat - 48) = c.toNat by omega, Char.ofNat_toNat] at hdigit
    rw [decide_eq_false hnonneg, List.nil_append, hdigits, hdigit]

theorem unsigned?_toDigits (negative : Bool) (m : Nat) :
    unsigned? negative (Nat.toDigits 10 m) = some (.ofDecimal negative m 0) := by
  refine unsigned?_of_digits (fun c hc => ?_) Nat.toDigits_ne_nil (Json.decimalNumber?_toDigits m)
  have hrange := Expr.toNat_of_isDigit (Nat.isDigit_of_mem_toDigits (by decide) (by decide) hc)
  refine ⟨c.toNat - 48, by omega, ?_⟩
  rw [show 48 + (c.toNat - 48) = c.toNat by omega, Char.ofNat_toNat]

end Decimal

namespace Binary64

theorem sign_of_carried {negative sign : Bool} {significand : Nat} {exponent : Int}
    (h : carried negative significand exponent = .infinite sign) : sign = negative := by
  unfold carried at h
  generalize (if significand = Nat.pow 2 precision then
    (Nat.pow 2 (precision - 1), exponent + 1) else (significand, exponent)) = place at h
  dsimp only at h
  split at h
  next => exact (Binary64.infinite.inj h).symm
  next => cases h

/-- From the least integer on that is rounded to an infinity, the infinity has the sign of the
quotient. -/
theorem ofRatio_eq_infinite (negative : Bool) {dividend divisor : Nat} (hdivisor : 0 < divisor)
    (h : overflow * divisor ≤ dividend) :
    ofRatio negative dividend divisor = .infinite negative := by
  obtain ⟨sign, heq⟩ := (ofRatio_infinite_iff negative dividend hdivisor).mpr h
  have hsign : sign = negative := by
    unfold ofRatio at heq
    split at heq
    next => cases heq
    next => exact sign_of_carried heq
  rw [heq, hsign]

/-- Decimal digits without a fraction are rounded like the integer that they write, however many
they are. -/
theorem ofDecimal_zero (negative : Bool) (digits : Nat) :
    ofDecimal negative digits 0 = ofRatio negative digits 1 := by
  unfold ofDecimal
  by_cases hzero : digits = 0
  · rw [if_pos (Or.inl hzero), ofRatio, if_pos hzero]
  · rw [if_neg (by omega)]
    split
    next hlong =>
      have hlarge : 10 ^ 400 ≤ digits := by
        by_contra hlt
        have hlength := Nat.toDigits_length 10 digits 400 (by decide) (not_le.mp hlt)
        omega
      have hoverflow : overflow * 1 ≤ 10 ^ 400 := by
        unfold overflow topHalf
        decide +kernel
      exact (ofRatio_eq_infinite negative Nat.one_pos (hoverflow.trans hlarge)).symm
    next => simp

end Binary64

/-- The text of an integer with blanks around it is converted to what the integer is rounded to. -/
theorem numberOfText_toString (n : Int) {before after : List Char}
    (hbefore : Text.AllBlank before) (hafter : Text.AllBlank after) :
    numberOfText (before ++ ((toString n).toList ++ after)) =
      match (Binary64.ofInt n).toInt? with
      | some k => .int k
      | none => .float (.ofInt n) := by
  have hplain (c : Char) (hc : c ∈ (toString n).toList) := Decimal.isPlain_toString hc
  have hne : (toString n).toList ≠ [] := by
    rw [Json.toList_toString]
    exact List.append_ne_nil_of_right_ne_nil _ Nat.toDigits_ne_nil
  have htrim : Text.trim (before ++ ((toString n).toList ++ after)) = (toString n).toList :=
    (Text.trimmed_of_forall hne fun c hc => (hplain c hc).2.facts.1).trim_append hbefore hafter
  have hsigns : ((toString n).toList.any fun c => c == '.' || c == 'e' || c == 'E') = false := by
    rw [List.any_eq_false]
    intro c hc
    have hmarks := (hplain c hc).1
    simp only [List.mem_cons, List.not_mem_nil, or_false, not_or] at hmarks
    simp [hmarks]
  have hread : Decimal.read? (toString n).toList = some (.ofInt n) := by
    rw [Decimal.read?_plain fun c hc => (hplain c hc).2, Decimal.splitSign_toString,
      Decimal.unsigned?_toDigits, Binary64.ofDecimal_zero, Binary64.ofInt]
  cases hint : (Binary64.ofInt n).toInt? with
  | none =>
      simp only [numberOfText, htrim, List.isEmpty_iff, hne, if_false, hread, hsigns, hint,
        Bool.false_eq_true]
  | some k =>
      simp only [numberOfText, htrim, List.isEmpty_iff, hne, if_false, hread, hsigns, hint,
        Bool.false_eq_true]

section

variable {n : Int} {before after : List Char} (hbefore : Text.AllBlank before)
  (hafter : Text.AllBlank after)

include hbefore hafter

/-- In range it is converted to the nearest integer that has a floating-point number. -/
theorem exists_numberOfText_toString (h : n.natAbs < Binary64.overflow) : ∃ k,
    Binary64.IsNearest n k ∧
      numberOfText (before ++ ((toString n).toList ++ after)) = .int k := by
  obtain ⟨k, hpoint, hnear⟩ := Binary64.exists_nearest h
  refine ⟨k, hnear, ?_⟩
  rw [numberOfText_toString n hbefore hafter, (Binary64.toInt?_of_standsFor hpoint).1]

/-- Beyond the range it is converted to an infinity. -/
theorem numberOfText_toString_of_le (h : Binary64.overflow ≤ n.natAbs) :
    numberOfText (before ++ ((toString n).toList ++ after)) = .float (.infinite (n < 0)) := by
  have hinfinite : Binary64.ofInt n = .infinite (n < 0) :=
    Binary64.ofRatio_eq_infinite _ Nat.one_pos (by rwa [Nat.mul_one])
  rw [numberOfText_toString n hbefore hafter, hinfinite]
  rfl

/-- An integer with a floating-point number is what its text is converted to. -/
theorem numberOfText_toString_of_hasFloat (h : Binary64.HasFloat n) :
    numberOfText (before ++ ((toString n).toList ++ after)) = .int n := by
  obtain ⟨k, hnear, heq⟩ := exists_numberOfText_toString hbefore hafter h.lt_overflow
  rw [heq, (Binary64.isNearest_self_iff h).mp hnear]

/-- An integer without a floating-point number is not equal to what its text is converted to. -/
theorem equals_numberOfText_toString (h : ¬ Binary64.HasFloat n) :
    (numberOfText (before ++ ((toString n).toList ++ after))).equals (.int n) = false := by
  obtain hlarge | hsmall := le_or_gt Binary64.overflow n.natAbs
  · rw [numberOfText_toString_of_le hbefore hafter hlarge]
    cases decide (n < 0) <;> rfl
  · obtain ⟨k, hnear, heq⟩ := exists_numberOfText_toString hbefore hafter hsmall
    have hne : k ≠ n := fun heq => h (heq ▸ hnear.hasFloat)
    rw [heq, Number.equals, Number.compare?]
    simpa using hne

end

namespace Expr

/-! ## Operations with the text of an integer -/

/-- The expression has the value wherever it stands. -/
def HasValue (scope : Scope) (e : Expr) (value : Located) : Prop :=
  ∀ path, eval scope path e = .ok value

variable {scope : Scope}

theorem hasValue_literal (value : Scalar) : HasValue scope (.literal value) (.scalar value) :=
  fun _ => rfl

/-- Operators other than conjunction and disjunction apply to the values of both operands. -/
theorem eval_strict {op : BinaryOp} (hop : op.isLogical = false) (left right : Expr)
    (path : List Nat) :
    eval scope path (.binary op left right) =
      (do
        let a ← eval scope (0 :: path) left
        let b ← eval scope (1 :: path) right
        applyBinary op a b) := by
  have hor : op ≠ .or := by rintro rfl; cases hop
  have hand : op ≠ .and := by rintro rfl; cases hop
  rw [eval]
  simp [hor, hand]

theorem eval_binary_of_hasValue {op : BinaryOp} (hop : op.isLogical = false) {left right : Expr}
    {a b : Located} (hleft : HasValue scope left a) (hright : HasValue scope right b)
    (path : List Nat) :
    eval scope path (.binary op left right) = applyBinary op a b := by
  rw [eval_strict hop, hleft, hright, ok_bind, ok_bind]

/-- The comparisons of size. -/
def sizeOperators : List BinaryOp := [.less, .atMost, .greater, .atLeast]

theorem applyBinary_size {op : BinaryOp} (hop : op ∈ sizeOperators) (a b : Located) :
    applyBinary op a b = .ok (.bool (compareValues op a b)) := by
  simp only [sizeOperators, List.mem_cons, List.not_mem_nil, or_false] at hop
  rcases hop with rfl | rfl | rfl | rfl <;> rfl

theorem isLogical_size : ∀ op ∈ sizeOperators, op.isLogical = false := by decide

/-- Unless both values are texts they are compared as numbers. -/
theorem compareValues_eq {op : BinaryOp} {a b : Located}
    (h : (∀ s, a ≠ .str s) ∨ ∀ s, b ≠ .str s) :
    compareValues op a b = (a.toNumber.compare? b.toNumber).elim false (satisfies op) := by
  unfold compareValues
  split
  next s t => exact (h.elim (· s rfl) (· t rfl)).elim
  next => cases a.toNumber.compare? b.toNumber <;> rfl

theorem compareValues_congr {op : BinaryOp} {a a' b : Located} (hb : ∀ s, b ≠ .str s)
    (h : a.toNumber = a'.toNumber) :
    compareValues op a b = compareValues op a' b ∧
      compareValues op b a = compareValues op b a' := by
  rw [compareValues_eq (.inr hb), compareValues_eq (.inr hb), compareValues_eq (.inl hb),
    compareValues_eq (.inl hb), h]
  exact ⟨rfl, rfl⟩

/-- Values that stand for one number are compared alike with what is no text. -/
theorem eval_size_congr {op : BinaryOp} (hop : op ∈ sizeOperators) {left left' other : Expr}
    {a a' : Located} (hleft : HasValue scope left a) (hleft' : HasValue scope left' a')
    (h : a.toNumber = a'.toNumber) (hother : ∀ path s, eval scope path other ≠ .ok (.str s))
    (path : List Nat) :
    eval scope path (.binary op left other) = eval scope path (.binary op left' other) ∧
      eval scope path (.binary op other left) = eval scope path (.binary op other left') := by
  simp only [eval_strict (isLogical_size op hop), hleft _, hleft' _, ok_bind]
  have hvalue (path : List Nat) {b : Located} (hb : eval scope path other = .ok b) :=
    @compareValues_congr op a a' b (fun s hs => hother path s (hs ▸ hb)) h
  constructor
  · cases hb : eval scope (1 :: path) other with
    | error reason => rfl
    | ok b =>
        rw [ok_bind, ok_bind, applyBinary_size hop, applyBinary_size hop, (hvalue _ hb).1]
  · cases hb : eval scope (0 :: path) other with
    | error reason => rfl
    | ok b =>
        rw [ok_bind, ok_bind, applyBinary_size hop, applyBinary_size hop, (hvalue _ hb).2]

/-- The text of an integer between blanks. -/
def spaced (before after : List Char) (n : Int) : Located :=
  .str (String.ofList (before ++ ((toString n).toList ++ after)))

/-- The difference of an expression and zero. -/
def lessZero (e : Expr) : Expr := .binary .sub e (.literal (.number (.int 0)))

/-- One expression stands for a number like another one: they are equal, the difference of the first
one and zero is the second one, and both compare alike with what is no text. -/
structure ActsAs (scope : Scope) (text number : Expr) : Prop where
  equal : HasValue scope (.binary .equal text number) (.bool true)
  equal_reversed : HasValue scope (.binary .equal number text) (.bool true)
  difference : HasValue scope (.binary .strictEqual (lessZero text) number) (.bool true)
  compared : ∀ op ∈ sizeOperators, ∀ other,
    (∀ path s, eval scope path other ≠ .ok (.str s)) → ∀ path,
      eval scope path (.binary op text other) = eval scope path (.binary op number other) ∧
        eval scope path (.binary op other text) = eval scope path (.binary op other number)

section

variable {n : Int} {before after : List Char} (hbefore : Text.AllBlank before)
  (hafter : Text.AllBlank after)

theorem toNumber_spaced (before after : List Char) (n : Int) :
    (spaced before after n).toNumber =
      numberOfText (before ++ ((toString n).toList ++ after)) := by
  rw [spaced, Value.toNumber, String.toList_ofList]

include hbefore hafter

theorem toNumber_spaced_sub_zero :
    (spaced before after n).toNumber.sub (.int 0) = .ok (spaced before after n).toNumber := by
  rw [toNumber_spaced]
  obtain hlarge | hsmall := le_or_gt Binary64.overflow n.natAbs
  · rw [numberOfText_toString_of_le hbefore hafter hlarge]
    cases decide (n < 0) <;> rfl
  · obtain ⟨k, -, heq⟩ := exists_numberOfText_toString hbefore hafter hsmall
    rw [heq, Number.sub, Number.lift, sub_zero]

/-- The text is equal to the integer, and its difference with zero is, when the number that it is
converted to is equal to the integer. -/
theorem eval_equal_spaced {text number : Expr} (htext : HasValue scope text (spaced before after n))
    (hnumber : HasValue scope number (.number (.int n))) :
    HasValue scope (.binary .equal text number)
        (.bool ((spaced before after n).toNumber.equals (.int n))) ∧
      HasValue scope (.binary .equal number text)
        (.bool ((spaced before after n).toNumber.equals (.int n))) ∧
      HasValue scope (.binary .strictEqual (lessZero text) number)
        (.bool ((spaced before after n).toNumber.equals (.int n))) := by
  refine ⟨fun path => ?_, fun path => ?_, fun path => ?_⟩
  · rw [eval_binary_of_hasValue rfl htext hnumber]
    rfl
  · rw [eval_binary_of_hasValue rfl hnumber htext, Number.equals_comm]
    rfl
  · have hdifference : HasValue scope (lessZero text)
        (.number (spaced before after n).toNumber) := by
      intro path
      have hzero : (Value.number (.int 0) : Located).toNumber = .int 0 := rfl
      rw [lessZero, eval_binary_of_hasValue rfl htext (hasValue_literal _), applyBinary, hzero,
        toNumber_spaced_sub_zero hbefore hafter]
      rfl
    rw [eval_binary_of_hasValue rfl hdifference hnumber]
    rfl

/-- The decimal text of an integer, with blanks around it, stands for the integer exactly when that
has a floating-point number. Otherwise it is converted to the nearest integer that has one, and
beyond the range of floating point to an infinity. -/
theorem integer_text_converts {text number : Expr}
    (htext : HasValue scope text (spaced before after n))
    (hnumber : HasValue scope number (.number (.int n))) :
    (Binary64.HasFloat n →
      (spaced before after n).toNumber = .int n ∧ ActsAs scope text number) ∧
    (¬ Binary64.HasFloat n →
      HasValue scope (.binary .equal text number) (.bool false) ∧
        HasValue scope (.binary .strictEqual (lessZero text) number) (.bool false)) ∧
    (n.natAbs < Binary64.overflow →
      ∃ k, Binary64.IsNearest n k ∧ (spaced before after n).toNumber = .int k) ∧
    (Binary64.overflow ≤ n.natAbs →
      (spaced before after n).toNumber = .float (.infinite (n < 0))) := by
  obtain ⟨hequal, hreversed, hdifference⟩ := eval_equal_spaced hbefore hafter htext hnumber
  rw [toNumber_spaced] at hequal hreversed hdifference ⊢
  refine ⟨fun h => ?_, fun h => ?_, exists_numberOfText_toString hbefore hafter,
    numberOfText_toString_of_le hbefore hafter⟩
  · have hvalue := numberOfText_toString_of_hasFloat hbefore hafter h
    have hself : (Number.int n).equals (.int n) = true := Number.equals_self _
    rw [hvalue, hself] at hequal hreversed hdifference
    refine ⟨hvalue, hequal, hreversed, hdifference, fun op hop other hother => ?_⟩
    refine eval_size_congr hop htext hnumber ?_ hother
    rw [toNumber_spaced, hvalue]
    rfl
  · rw [equals_numberOfText_toString hbefore hafter h] at hequal hdifference
    exact ⟨hequal, hdifference⟩

end

theorem integer_text_converts_padded :
    Text.AllBlank [' '] ∧ Text.AllBlank ['\n'] ∧ Binary64.HasFloat (-(2 ^ 60)) ∧
      ActsAs [] (.literal (.str " -1152921504606846976\n"))
        (.literal (.number (.int (-(2 ^ 60))))) := by
  have hblank : Text.AllBlank [' '] := by decide
  have hbreak : Text.AllBlank ['\n'] := by decide
  have hfloat : Binary64.HasFloat (-(2 ^ 60)) := ⟨-1, 60, by decide, by decide, by decide⟩
  have htext : HasValue [] (.literal (.str " -1152921504606846976\n"))
      (spaced [' '] ['\n'] (-(2 ^ 60))) := by
    have hspelled : spaced [' '] ['\n'] (-(2 ^ 60)) = .str " -1152921504606846976\n" :=
      congrArg Value.str (by decide)
    exact hspelled ▸ hasValue_literal _
  exact ⟨hblank, hbreak, hfloat,
    ((integer_text_converts hblank hbreak htext (hasValue_literal _)).1 hfloat).2⟩

/-- The least positive integer without a floating-point number is not equal to its text. -/
theorem not_integer_text_converts :
    (Value.str "9007199254740993" : Located).toNumber = .int 9007199254740992 ∧
      HasValue [] (.binary .equal (.literal (.str "9007199254740993"))
        (.literal (.number (.int 9007199254740993)))) (.bool false) := by
  have hnumber : (Value.str "9007199254740993" : Located).toNumber = .int 9007199254740992 := by
    decide +kernel
  have hequal : (Value.str "9007199254740993" : Located).toNumber.equals
      (.int 9007199254740993) = false := by
    rw [hnumber]
    decide
  refine ⟨hnumber, fun path => ?_⟩
  rw [eval_binary_of_hasValue rfl (hasValue_literal _) (hasValue_literal _)]
  exact congrArg (fun equal => (.ok (.bool equal) : Evaluation Located)) hequal

end Expr

end Transclude
