import Mathlib
import Transclude.Expr.Eval
import Transclude.Proofs.Outcome
import Transclude.Proofs.Overflow

/-! # Operations without an answer

An expression reads properties, writes values as text, tests positions and does
arithmetic. Each of these fails for certain values, and then no error is reported: a
list is no key of a mapping, a superscript is no position in a list, JSON has no name
for a date as a key, an integer may be beyond the range of floating point, and an
infinite dividend leaves no remainder. -/

namespace Transclude

/-- Two steps that fail for one reason fail in sequence when either does. -/
theorem bind_eq_error_iff {ε α β : Type} {first : Except ε α} {next : α → Except ε β}
    {only reason : ε} {p q : Prop} (hfirst : ∀ e, first = .error e ↔ e = only ∧ p)
    (hnext : ∀ a, next a = .error reason ↔ reason = only ∧ q) :
    (first >>= next) = .error reason ↔ reason = only ∧ (p ∨ q) := by
  cases first with
  | ok a =>
      have hp : ¬ p := fun hp => nomatch (hfirst only).mpr ⟨rfl, hp⟩
      rw [ok_bind, hnext, or_iff_right hp]
  | error e =>
      obtain ⟨rfl, hp⟩ := (hfirst e).mp rfl
      rw [error_bind, Except.error.injEq, and_iff_left (Or.inl hp)]
      exact eq_comm

/-! ## Keys, positions and texts -/

/-- A key that JSON has a name for. -/
def Key.IsNamed : Key → Prop
  | .scalar .null | .scalar (.bool _) | .scalar (.number _) | .str _ => True
  | _ => False

theorem Json.keyName_eq_error_iff (key : Key) (kind : Fault) :
    Json.keyName key = .error kind ↔ kind = .wrongType ∧ ¬ key.IsNamed := by
  cases key with
  | sequence items =>
      simp only [Json.keyName, Key.IsNamed, Except.error.injEq, not_false_eq_true, and_true]
      exact eq_comm
  | scalar s =>
      cases s with
      | null | bool _ | number _ | str _ => simp [Json.keyName, Key.IsNamed]
      | undefined | bytes _ | filter _ | date _ | moment _ =>
          simp only [Json.keyName, Key.IsNamed, Except.error.injEq, not_false_eq_true, and_true]
          exact eq_comm

namespace Value

variable {ι : Type}

/-- Values that are no keys: sets, lists and mappings, and what holds one in tuples. -/
inductive NoKey : Value ι → Prop
  | set (members : List Key) : NoKey (.set members)
  | list (identity : ι) (items : List (Value ι)) : NoKey (.list identity items)
  | map (identity : ι) (entries : Entries ι) : NoKey (.map identity entries)
  | item {items : List (Value ι)} {item : Value ι} (hmem : item ∈ items) (hitem : NoKey item) :
    NoKey (.tuple items)

/-- Values that hold a mapping with a key that JSON has no name for. -/
inductive Unwritable : Value ι → Prop
  | key {identity : ι} {entries : Entries ι} {key : Key} {value : Value ι}
    (hmem : (key, value) ∈ entries) (hkey : ¬ key.IsNamed) : Unwritable (.map identity entries)
  | entry {identity : ι} {entries : Entries ι} {key : Key} {value : Value ι}
    (hmem : (key, value) ∈ entries) (hvalue : Unwritable value) : Unwritable (.map identity entries)
  | item {identity : ι} {items : List (Value ι)} {item : Value ι} (hmem : item ∈ items)
    (hitem : Unwritable item) : Unwritable (.list identity items)
  | tupleItem {items : List (Value ι)} {item : Value ι} (hmem : item ∈ items)
    (hitem : Unwritable item) : Unwritable (.tuple items)

mutual

theorem toKey?_eq_none_iff : ∀ value : Value ι, toKey? value = none ↔ value.NoKey
  | .scalar s => by
      rw [toKey?]
      exact ⟨nofun, nofun⟩
  | .set members => ⟨fun _ => .set members, fun _ => by rw [toKey?]⟩
  | .list identity items => ⟨fun _ => .list identity items, fun _ => by rw [toKey?]⟩
  | .map identity entries => ⟨fun _ => .map identity entries, fun _ => by rw [toKey?]⟩
  | .tuple items => by
      rw [toKey?, Option.map_eq_none_iff, toKeys?_eq_none_iff items]
      constructor
      · rintro ⟨item, hmem, hitem⟩
        exact .item hmem hitem
      · intro h
        cases h with
        | item hmem hitem => exact ⟨_, hmem, hitem⟩

theorem toKeys?_eq_none_iff : ∀ items : List (Value ι),
    toKeys? items = none ↔ ∃ item ∈ items, item.NoKey
  | [] => by
      rw [toKeys?]
      exact ⟨nofun, fun h => by simp at h⟩
  | item :: rest => by
      have hitem := toKey?_eq_none_iff item
      have hrest := toKeys?_eq_none_iff rest
      simp only [toKeys?, List.mem_cons, exists_eq_or_imp, ← hitem, ← hrest]
      cases toKey? item <;> cases toKeys? rest <;> simp

end

theorem unwritable_map_iff {identity : ι} {entries : Entries ι} :
    (Value.map identity entries).Unwritable ↔
      ∃ entry ∈ entries, ¬ entry.1.IsNamed ∨ entry.2.Unwritable := by
  constructor
  · intro h
    cases h with
    | key hmem hkey => exact ⟨_, hmem, Or.inl hkey⟩
    | entry hmem hvalue => exact ⟨_, hmem, Or.inr hvalue⟩
  · rintro ⟨entry, hmem, hkey | hvalue⟩
    · exact .key hmem hkey
    · exact .entry hmem hvalue

theorem unwritable_list_iff {identity : ι} {items : List (Value ι)} :
    (Value.list identity items).Unwritable ↔ ∃ item ∈ items, item.Unwritable := by
  constructor
  · intro h
    cases h with
    | item hmem hitem => exact ⟨_, hmem, hitem⟩
  · rintro ⟨item, hmem, hitem⟩
    exact .item hmem hitem

theorem unwritable_tuple_iff {items : List (Value ι)} :
    (Value.tuple items).Unwritable ↔ ∃ item ∈ items, item.Unwritable := by
  constructor
  · intro h
    cases h with
    | tupleItem hmem hitem => exact ⟨_, hmem, hitem⟩
  · rintro ⟨item, hmem, hitem⟩
    exact .tupleItem hmem hitem

mutual

theorem toJson_eq_error_iff (kind : Fault) : ∀ value : Value ι,
    toJson value = .error kind ↔ kind = .wrongType ∧ value.Unwritable
  | .scalar s => by
      rw [toJson]
      exact ⟨nofun, nofun⟩
  | .set members => by
      rw [toJson]
      exact ⟨nofun, nofun⟩
  | .tuple items => by
      rw [toJson, bind_pure_eq_error, toJsonItems_eq_error_iff kind items, unwritable_tuple_iff]
  | .list identity items => by
      rw [toJson, bind_pure_eq_error, toJsonItems_eq_error_iff kind items, unwritable_list_iff]
  | .map identity entries => by
      rw [toJson, bind_pure_eq_error, toJsonEntries_eq_error_iff kind entries, unwritable_map_iff]

theorem toJsonItems_eq_error_iff (kind : Fault) : ∀ items : List (Value ι),
    toJsonItems items = .error kind ↔ kind = .wrongType ∧ ∃ item ∈ items, item.Unwritable
  | [] => by
      rw [toJsonItems]
      exact ⟨nofun, fun h => by simp at h⟩
  | item :: rest => by
      simp only [toJsonItems, List.mem_cons, exists_eq_or_imp]
      refine bind_eq_error_iff (fun e => toJson_eq_error_iff e item) fun a => ?_
      rw [bind_pure_eq_error, toJsonItems_eq_error_iff kind rest]

theorem toJsonEntries_eq_error_iff (kind : Fault) : ∀ entries : Entries ι,
    toJsonEntries entries = .error kind ↔
      kind = .wrongType ∧ ∃ entry ∈ entries, ¬ entry.1.IsNamed ∨ entry.2.Unwritable
  | [] => by
      rw [toJsonEntries]
      exact ⟨nofun, fun h => by simp at h⟩
  | (key, value) :: rest => by
      simp only [toJsonEntries, List.mem_cons, exists_eq_or_imp, or_assoc]
      refine bind_eq_error_iff (fun e => Json.keyName_eq_error_iff key e) fun name => ?_
      refine bind_eq_error_iff (fun e => toJson_eq_error_iff e value) fun shown => ?_
      rw [bind_pure_eq_error, toJsonEntries_eq_error_iff kind rest]

end

mutual

theorem toText_eq_error_iff (kind : Fault) : ∀ value : Value ι,
    toText value = .error kind ↔ kind = .wrongType ∧ value.Unwritable
  | .scalar s => by
      rw [toText]
      exact ⟨nofun, nofun⟩
  | .set members => by
      rw [toText]
      exact ⟨nofun, nofun⟩
  | .tuple items => by
      rw [toText, bind_pure_eq_error, toTexts_eq_error_iff kind items, unwritable_tuple_iff]
  | .list identity items => by
      rw [toText, bind_pure_eq_error, toTexts_eq_error_iff kind items, unwritable_list_iff]
  | .map identity entries => by
      rw [toText, toJson_eq_error_iff]

theorem toTexts_eq_error_iff (kind : Fault) : ∀ items : List (Value ι),
    toTexts items = .error kind ↔ kind = .wrongType ∧ ∃ item ∈ items, item.Unwritable
  | [] => by
      rw [toTexts]
      exact ⟨nofun, fun h => by simp at h⟩
  | item :: rest => by
      simp only [toTexts, List.mem_cons, exists_eq_or_imp]
      refine bind_eq_error_iff (fun e => toText_eq_error_iff e item) fun a => ?_
      rw [bind_pure_eq_error, toTexts_eq_error_iff kind rest]

end

theorem toShownText_eq_error_iff (kind : Fault) (value : Value ι) :
    toShownText value = .error kind ↔ kind = .wrongType ∧ value.Unwritable := by
  cases value with
  | scalar s =>
      cases s with
      | null | undefined => exact ⟨nofun, nofun⟩
      | _ => exact toText_eq_error_iff kind _
  | _ => exact toText_eq_error_iff kind _

/-- A text of digits one of which stands in no decimal notation, such as a superscript. -/
structure BareDigits (text : List Char) : Prop where
  nonempty : text ≠ []
  digits : ∀ c ∈ text, Text.isDigitLike c = true
  bare : ∃ c ∈ text, Text.isDecimalDigit c = false

theorem decimalNumber?_eq_none_iff (digits : List Char) :
    Text.decimalNumber? digits = none ↔ ∃ c ∈ digits, Text.isDecimalDigit c = false := by
  unfold Text.decimalNumber?
  generalize 0 = start
  induction digits generalizing start with
  | nil => exact ⟨nofun, fun h => by simp at h⟩
  | cons c rest ih =>
      rw [List.foldlM_cons]
      simp only [List.mem_cons, exists_eq_or_imp, Text.isDecimalDigit]
      cases Text.decimalValue? c with
      | none => simp
      | some n =>
          simp only [Option.map_some, Option.isSome_some, Bool.true_eq_false, false_or]
          exact ih (10 * start + n)

theorem position?_eq_error_iff (key : Value ι) (kind : Fault) :
    key.position? = .error kind ↔
      ∃ s, key = .str s ∧ kind = .badValue ∧ BareDigits s.toList := by
  cases key with
  | scalar s =>
      cases s with
      | str s =>
          have hnone := decimalNumber?_eq_none_iff s.toList
          rw [position?]
          split
          next hplain =>
            constructor
            · nofun
            · rintro ⟨_, h, _, hbare⟩
              cases h
              rw [Bool.or_eq_true, List.isEmpty_iff, Bool.not_eq_true', ← Bool.not_eq_true,
                List.all_eq_true] at hplain
              exact (hplain.elim hbare.nonempty fun h => h hbare.digits).elim
          next hdigits =>
            rw [Bool.or_eq_true, List.isEmpty_iff, Bool.not_eq_true', not_or,
              Bool.not_eq_false, List.all_eq_true] at hdigits
            cases hnumber : Text.decimalNumber? s.toList with
            | some n =>
                constructor
                · nofun
                · rintro ⟨_, h, _, hbare⟩
                  cases h
                  rw [hnone.mpr hbare.bare] at hnumber
                  cases hnumber
            | none =>
                constructor
                · intro h
                  cases h
                  exact ⟨s, rfl, rfl, hdigits.1, hdigits.2, hnone.mp hnumber⟩
                · rintro ⟨_, _, rfl, _⟩
                  rfl
      | _ => exact ⟨nofun, by rintro ⟨_, h, _⟩; cases h⟩
  | _ => exact ⟨nofun, by rintro ⟨_, h, _⟩; cases h⟩

/-- A value with items at positions: a list, a tuple or a text. -/
def IsSequence : Value ι → Prop
  | .list _ _ | .tuple _ | .str _ => True
  | _ => False

/-- The items of a sequence. -/
def items? : Value ι → Option (List (Value ι))
  | .list _ items | .tuple items => some items
  | .str s => some (s.toList.map fun c => .str (String.ofList [c]))
  | _ => none

theorem isSequence_iff {value : Value ι} :
    value.IsSequence ↔ ∃ items, value.items? = some items := by
  cases value with
  | scalar s => cases s <;> simp [IsSequence, items?]
  | _ => simp [IsSequence, items?]

theorem getProperty_of_items? {value : Value ι} {items : List (Value ι)}
    (h : value.items? = some items) (key : Value ι) :
    value.getProperty key = itemProperty items key := by
  cases value with
  | scalar s =>
      cases s with
      | str s =>
          cases h
          rfl
      | _ => cases h
  | list _ _ | tuple _ =>
      cases h
      rfl
  | set _ | map _ _ => cases h

theorem getProperty_of_items?_eq_none {value : Value ι} (h : value.items? = none)
    (hmap : value.isMap = false) (key : Value ι) : value.getProperty key = .ok .undefined := by
  cases value with
  | scalar s =>
      cases s with
      | str s => cases h
      | _ => rfl
  | list _ _ | tuple _ => cases h
  | map _ _ => cases hmap
  | set _ => rfl

theorem itemProperty_eq_error_iff (items : List (Value ι)) (key : Value ι) (kind : Fault) :
    itemProperty items key = .error kind ↔
      ∃ s, key = .str s ∧ kind = .badValue ∧ BareDigits s.toList := by
  unfold itemProperty
  split
  next =>
    constructor
    · nofun
    · rintro ⟨_, h, _, hbare⟩
      cases h
      have hletter : Text.isDigitLike 'l' = false := by decide
      rw [hbare.digits 'l' (by decide)] at hletter
      cases hletter
  next => rw [bind_pure_eq_error, position?_eq_error_iff]

theorem entryProperty_eq_error_iff (entries : Entries ι) (key : Value ι) (kind : Fault) :
    entryProperty entries key = .error kind ↔ kind = .wrongType ∧ key.NoKey := by
  rw [← toKey?_eq_none_iff]
  unfold entryProperty
  cases key.toKey? with
  | none => exact ⟨fun h => by cases h; exact ⟨rfl, rfl⟩, fun h => by rw [h.1]⟩
  | some k =>
      dsimp only
      split
      next => exact ⟨nofun, nofun⟩
      next =>
        split
        next => exact ⟨nofun, nofun⟩
        next => exact ⟨nofun, nofun⟩
        next => exact ⟨nofun, nofun⟩

/-- Reading a property fails for what is no key of a mapping, and for digits that are no position in
a sequence. -/
theorem getProperty_eq_error_iff (value key : Value ι) (kind : Fault) :
    value.getProperty key = .error kind ↔
      (kind = .wrongType ∧ value.isMap = true ∧ key.NoKey) ∨
        ∃ s, key = .str s ∧ kind = .badValue ∧ value.IsSequence ∧ BareDigits s.toList := by
  cases hitems : value.items? with
  | some items =>
      have hsequence : value.IsSequence := isSequence_iff.mpr ⟨items, hitems⟩
      have hmap : value.isMap = false := by
        cases value with
        | map _ _ => cases hitems
        | _ => rfl
      simp [getProperty_of_items? hitems, itemProperty_eq_error_iff, hsequence, hmap]
  | none =>
      have hsequence : ¬ value.IsSequence := by simp [isSequence_iff, hitems]
      cases hmap : value.isMap with
      | true =>
          cases value with
          | map identity entries => simp [getProperty, entryProperty_eq_error_iff, hsequence]
          | _ => cases hmap
      | false => simp [getProperty_of_items?_eq_none hitems hmap, hsequence]

end Value

/-! ## Numbers -/

namespace Number

/-- An integer without a floating-point number. -/
def TooLarge : Number → Prop
  | .int n => Binary64.overflow ≤ n.natAbs
  | .float _ => False

/-- An integer. -/
def IsInt : Number → Prop
  | .int _ => True
  | .float _ => False

/-- Arithmetic without a result. -/
inductive Fails : BinaryOp → Number → Number → Fault → Prop
  /-- An integer that meets a floating-point number is brought to floating point. -/
  | mixed {op : BinaryOp} {a b : Number} (hop : op ∈ [.add, .sub, .mul, .div])
    (hdivisor : op = .div → b.isZero = false) (hmixed : ¬ (a.IsInt ∧ b.IsInt))
    (hlarge : a.TooLarge ∨ b.TooLarge) : Fails op a b .tooLarge
  /-- A quotient of integers is taken in floating point. -/
  | quotient {m n : Int} (hdivisor : n ≠ 0) (hlarge : Binary64.overflow * n.natAbs ≤ m.natAbs) :
    Fails .div (.int m) (.int n) .tooLarge
  /-- A remainder is taken in floating point, also that of integers. -/
  | remainder {a b : Number} (hdivisor : b.isZero = false) (hlarge : a.TooLarge ∨ b.TooLarge) :
    Fails .rem a b .tooLarge
  /-- An infinite dividend leaves no remainder, unless the divisor is not a number. -/
  | infinite {negative : Bool} {b : Number} (hdivisor : b.isZero = false)
    (hnumber : b.isNaN = false)
    (hsmall : ¬ b.TooLarge) : Fails .rem (.float (.infinite negative)) b .badValue

theorem toFloat_eq_error_iff (a : Number) (kind : Fault) :
    a.toFloat = .error kind ↔ kind = .tooLarge ∧ a.TooLarge := by
  cases a with
  | int n => exact floatOfInt_eq_error_iff n kind
  | float x => exact ⟨nofun, fun h => h.2.elim⟩

/-- Operands in floating point. -/
theorem toFloats_eq_error_iff {α : Type} (f : Binary64 → Binary64 → α) (a b : Number)
    (kind : Fault) :
    (a.toFloat >>= fun x => b.toFloat >>= fun y => pure (f x y)) = .error kind ↔
      kind = .tooLarge ∧ (a.TooLarge ∨ b.TooLarge) :=
  bind_eq_error_iff (toFloat_eq_error_iff a) fun x => by
    rw [bind_pure_eq_error, toFloat_eq_error_iff]

theorem fails_iff_of_mixed {op : BinaryOp} (hop : op ∈ [.add, .sub, .mul, .div]) {a b : Number}
    (hdivisor : op = .div → b.isZero = false) (hmixed : ¬ (a.IsInt ∧ b.IsInt)) (kind : Fault) :
    Fails op a b kind ↔ kind = .tooLarge ∧ (a.TooLarge ∨ b.TooLarge) := by
  constructor
  · intro h
    cases h with
    | mixed _ _ _ hlarge => exact ⟨rfl, hlarge⟩
    | quotient _ _ => exact (hmixed ⟨trivial, trivial⟩).elim
    | remainder _ _ | infinite _ _ _ => simp at hop
  · rintro ⟨rfl, hlarge⟩
    exact .mixed hop hdivisor hmixed hlarge

/-- Sums, differences and products of integers are exact. -/
theorem lift_eq_error_iff {op : BinaryOp} (hop : op ∈ [.add, .sub, .mul])
    (exact : Int → Int → Int) (rounded : Binary64 → Binary64 → Binary64) (a b : Number)
    (kind : Fault) : lift exact rounded a b = .error kind ↔ Fails op a b kind := by
  have hop' : op ∈ [.add, .sub, .mul, .div] := by
    fin_cases hop <;> decide
  have hdivisor : op = .div → b.isZero = false := by
    rintro rfl
    simp at hop
  cases a with
  | int m =>
      cases b with
      | int n =>
          constructor
          · nofun
          · intro h
            cases h with
            | mixed _ _ hmixed _ => exact (hmixed ⟨trivial, trivial⟩).elim
            | quotient _ _ | remainder _ _ => simp at hop
      | float y =>
          rw [fails_iff_of_mixed hop' hdivisor And.right]
          exact toFloats_eq_error_iff _ _ _ kind
  | float x =>
      rw [fails_iff_of_mixed hop' hdivisor And.left]
      exact toFloats_eq_error_iff _ _ _ kind

theorem add_eq_error_iff (a b : Number) (kind : Fault) :
    a.add b = .error kind ↔ Fails .add a b kind := lift_eq_error_iff (by decide) _ _ a b kind

theorem sub_eq_error_iff (a b : Number) (kind : Fault) :
    a.sub b = .error kind ↔ Fails .sub a b kind := lift_eq_error_iff (by decide) _ _ a b kind

theorem mul_eq_error_iff (a b : Number) (kind : Fault) :
    a.mul b = .error kind ↔ Fails .mul a b kind := lift_eq_error_iff (by decide) _ _ a b kind

theorem quotient_eq_error_iff (m : Int) {n : Int} (hn : n ≠ 0) (kind : Fault) :
    (match ratio m n with
      | .infinite _ => .error .tooLarge
      | x => .ok (match x.toInt? with | some k => .int k | none => .float x) :
        Except Fault Number) = .error kind ↔ Fails .div (.int m) (.int n) kind := by
  have hinfinite := ratio_infinite_iff m hn
  constructor
  · intro h
    split at h
    next sign hratio =>
      cases h
      exact .quotient hn (hinfinite.mp ⟨sign, hratio⟩)
    next => cases h
  · intro h
    cases h with
    | mixed _ _ hmixed _ => exact (hmixed ⟨trivial, trivial⟩).elim
    | quotient _ hlarge =>
        obtain ⟨sign, hratio⟩ := hinfinite.mpr hlarge
        rw [hratio]

theorem div_eq_error_iff (a b : Number) (kind : Fault) :
    a.div b = .error kind ↔ Fails .div a b kind := by
  unfold div
  cases hzero : b.isZero with
  | true =>
      constructor
      · nofun
      · intro h
        cases h with
        | mixed _ hdivisor _ _ => rw [hdivisor rfl] at hzero; cases hzero
        | quotient hdivisor _ => exact (hdivisor (eq_of_beq hzero)).elim
  | false =>
      cases a with
      | int m =>
          cases b with
          | int n => exact quotient_eq_error_iff m (ne_of_beq_false hzero) kind
          | float y =>
              rw [fails_iff_of_mixed (by decide) (fun _ => hzero) And.right]
              exact toFloats_eq_error_iff _ _ _ kind
      | float x =>
          rw [fails_iff_of_mixed (by decide) (fun _ => hzero) And.left]
          exact toFloats_eq_error_iff _ _ _ kind

/-- Only an infinite dividend leaves no remainder. -/
theorem remainder_eq_error_iff (x y : Binary64) (kind : Fault) :
    remainder x y = .error kind ↔
      kind = .badValue ∧ (∃ negative, x = .infinite negative) ∧ y.isNaN = false := by
  cases x with
  | infinite negative =>
      cases y with
      | notANumber origin => exact ⟨nofun, fun h => nomatch h.2.2⟩
      | finite _ _ _ | infinite _ =>
          constructor
          · intro h
            cases h
            exact ⟨rfl, ⟨negative, rfl⟩, rfl⟩
          · rintro ⟨rfl, _⟩
            rfl
  | finite _ _ _ | notANumber _ => exact ⟨nofun, by rintro ⟨_, ⟨_, h⟩, _⟩; cases h⟩

theorem isNaN_of_toFloat {b : Number} {y : Binary64} (h : b.toFloat = .ok y) :
    y.isNaN = b.isNaN := by
  cases b with
  | float x =>
      cases h
      rfl
  | int n =>
      have hfloat : floatOfInt n = .ok y := h
      have hnumber : (Binary64.ofInt n).isNaN = false := Binary64.isNaN_ofRatio _ _ _
      unfold floatOfInt at hfloat
      split at hfloat
      next => cases hfloat
      next =>
        cases hfloat
        exact hnumber

theorem eq_of_toFloat_infinite {a : Number} {negative : Bool}
    (h : a.toFloat = .ok (.infinite negative)) : a = .float (.infinite negative) := by
  cases a with
  | float x =>
      cases h
      rfl
  | int n =>
      have hfloat : floatOfInt n = .ok (.infinite negative) := h
      unfold floatOfInt at hfloat
      cases hvalue : Binary64.ofInt n with
      | infinite sign => rw [hvalue] at hfloat; cases hfloat
      | finite _ _ _ | notANumber _ => rw [hvalue] at hfloat; cases hfloat

theorem rem_eq_error_iff (a b : Number) (kind : Fault) :
    a.rem b = .error kind ↔ Fails .rem a b kind := by
  unfold rem
  cases hzero : b.isZero with
  | true =>
      constructor
      · nofun
      · intro h
        cases h with
        | mixed hop _ _ _ => simp at hop
        | remainder hdivisor _ | infinite hdivisor _ _ => rw [hdivisor] at hzero; cases hzero
  | false =>
      rw [if_neg Bool.false_ne_true, Transclude.bind_eq_error]
      constructor
      · rintro (ha | ⟨x, ha, h⟩)
        · obtain ⟨rfl, hlarge⟩ := (toFloat_eq_error_iff a kind).mp ha
          exact .remainder hzero (Or.inl hlarge)
        · obtain hb | ⟨y, hb, h⟩ := Transclude.bind_eq_error.mp h
          · obtain ⟨rfl, hlarge⟩ := (toFloat_eq_error_iff b kind).mp hb
            exact .remainder hzero (Or.inr hlarge)
          · obtain h | ⟨r, _, h⟩ := Transclude.bind_eq_error.mp h
            · -- both operands have floating-point numbers, so that only infinity is left
              obtain ⟨rfl, ⟨negative, rfl⟩, hnumber⟩ := (remainder_eq_error_iff x y kind).mp h
              obtain rfl := eq_of_toFloat_infinite ha
              refine .infinite hzero ((isNaN_of_toFloat hb).symm.trans hnumber) fun hlarge => ?_
              rw [(toFloat_eq_error_iff b .tooLarge).mpr ⟨rfl, hlarge⟩] at hb
              cases hb
            · cases a <;> cases b <;> cases h
      · intro h
        cases h with
        | mixed hop _ _ _ => simp at hop
        | remainder _ hlarge =>
            cases ha : a.toFloat with
            | error e =>
                obtain ⟨rfl, _⟩ := (toFloat_eq_error_iff a e).mp ha
                exact Or.inl rfl
            | ok x =>
                have hb : b.TooLarge := hlarge.resolve_left fun hlarge => by
                  rw [(toFloat_eq_error_iff a .tooLarge).mpr ⟨rfl, hlarge⟩] at ha
                  cases ha
                rw [(toFloat_eq_error_iff b .tooLarge).mpr ⟨rfl, hb⟩]
                exact Or.inr ⟨x, rfl, rfl⟩
        | infinite _ hnumber hsmall =>
            cases hb : b.toFloat with
            | error e => exact (hsmall ((toFloat_eq_error_iff b e).mp hb).2).elim
            | ok y =>
                refine Or.inr ⟨_, rfl, ?_⟩
                rw [ok_bind, (remainder_eq_error_iff _ y .badValue).mpr
                  ⟨rfl, ⟨_, rfl⟩, (isNaN_of_toFloat hb).trans hnumber⟩]
                rfl

end Number

end Transclude
