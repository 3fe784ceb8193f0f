import Mathlib
import Transclude.Proofs.Flattening
import Transclude.Proofs.Operations

/-! # Faults of expressions

Which operations an evaluation gets to, and that it ends with a fault just when one of
them has no answer. An operation is got to when all that is evaluated before it has a
value. -/

namespace Transclude

/-- An item of a list is got to when each item before it gives a value. -/
structure GetsTo {ε α β : Type} (f : Nat → α → Except ε β) (items : List α) (i : Nat) (item : α) :
    Prop where
  here : items[i]? = some item
  before : ∀ j < i, ∀ other, items[j]? = some other → ∃ value, f j other = .ok value

/-- One of the items that are got to fails: the first one, or a later one if the first gives a
value. -/
theorem exists_getsTo_cons_iff {ε α β : Type} {f : Nat → α → Except ε β} {first : α}
    {rest : List α} {p : Nat → α → Prop} :
    (∃ i item, GetsTo f (first :: rest) i item ∧ p i item) ↔
      p 0 first ∨ ∃ value, f 0 first = .ok value ∧
        ∃ i item, GetsTo (fun j => f (j + 1)) rest i item ∧ p (i + 1) item := by
  constructor
  · rintro ⟨i, item, ⟨hhere, hbefore⟩, hp⟩
    cases i with
    | zero =>
        cases hhere
        exact Or.inl hp
    | succ i =>
        obtain ⟨value, hvalue⟩ := hbefore 0 (Nat.succ_pos i) first rfl
        refine Or.inr ⟨value, hvalue, i, item, ⟨hhere, ?_⟩, hp⟩
        intro j hj other hother
        exact hbefore (j + 1) (Nat.succ_lt_succ hj) other hother
  · rintro (hp | ⟨value, hvalue, i, item, ⟨hhere, hbefore⟩, hp⟩)
    · exact ⟨0, first, ⟨rfl, fun j hj => (Nat.not_lt_zero j hj).elim⟩, hp⟩
    · refine ⟨i + 1, item, ⟨hhere, ?_⟩, hp⟩
      intro j hj other hother
      cases j with
      | zero =>
          cases hother
          exact ⟨value, hvalue⟩
      | succ j => exact hbefore j (Nat.lt_of_succ_lt_succ hj) other hother

theorem not_getsTo_nil {ε α β : Type} {f : Nat → α → Except ε β} {i : Nat} {item : α} :
    ¬ GetsTo f [] i item := fun h => nomatch h.here

namespace Expr

open Value

/-- What an evaluation asks of values. -/
inductive Operation
  | property (object key : Located)
  | text (value : Located)
  | position (number : Number)
  | arithmetic (op : BinaryOp) (a b : Number)

/-- Operations without an answer. -/
inductive Operation.Fails : Operation → Fault → Prop
  | key {origin : Origin} {entries : Entries Origin} {key : Located} (hkey : key.NoKey) :
    Fails (.property (.map origin entries) key) .wrongType
  | index {object : Located} {s : String} (hobject : object.IsSequence)
    (hdigits : BareDigits s.toList) : Fails (.property object (.str s)) .badValue
  | text {value : Located} (hvalue : value.Unwritable) : Fails (.text value) .wrongType
  | position {n : Number} (hlarge : n.TooLarge) : Fails (.position n) .tooLarge
  | arithmetic {op : BinaryOp} {a b : Number} {kind : Fault} (hfails : Number.Fails op a b kind) :
    Fails (.arithmetic op a b) kind

theorem property_fails_iff (object key : Located) (kind : Fault) :
    (Operation.property object key).Fails kind ↔ object.getProperty key = .error kind := by
  rw [getProperty_eq_error_iff]
  constructor
  · intro h
    cases h with
    | key hkey => exact Or.inl ⟨rfl, rfl, hkey⟩
    | index hobject hdigits => exact Or.inr ⟨_, rfl, rfl, hobject, hdigits⟩
  · rintro (⟨rfl, hmap, hkey⟩ | ⟨s, rfl, rfl, hobject, hdigits⟩)
    · cases object with
      | map origin entries => exact .key hkey
      | _ => cases hmap
    · exact .index hobject hdigits

theorem isPosition_eq_error_iff (n : Number) (length : Nat) (kind : Fault) :
    isPosition n length = .error kind ↔ (Operation.position n).Fails kind := by
  have hfails : (Operation.position n).Fails kind ↔ kind = .tooLarge ∧ n.TooLarge := by
    constructor
    · intro h
      cases h with
      | position hlarge => exact ⟨rfl, hlarge⟩
    · rintro ⟨rfl, hlarge⟩
      exact .position hlarge
  rw [hfails, ← Number.toFloat_eq_error_iff, isPosition, Transclude.bind_eq_error]
  refine or_iff_left ?_
  rintro ⟨x, _, h⟩
  split at h <;> cases h

theorem text_fails_iff (value : Located) (kind : Fault) :
    (Operation.text value).Fails kind ↔ kind = .wrongType ∧ value.Unwritable := by
  constructor
  · intro h
    cases h with
    | text hvalue => exact ⟨rfl, hvalue⟩
  · rintro ⟨rfl, hvalue⟩
    exact .text hvalue

theorem toText_eq_error_iff (value : Located) (kind : Fault) :
    value.toText = .error kind ↔ (Operation.text value).Fails kind := by
  rw [text_fails_iff, Value.toText_eq_error_iff]

theorem toShownText_eq_error_iff (value : Located) (kind : Fault) :
    value.toShownText = .error kind ↔ (Operation.text value).Fails kind := by
  rw [text_fails_iff, Value.toShownText_eq_error_iff]

/-! ## Operators -/

/-- A text. -/
def IsText : Located → Prop
  | .str _ => True
  | _ => False

/-- A list or a tuple. -/
def IsList : Located → Prop
  | .list _ _ | .tuple _ => True
  | _ => False

/-- What an operator asks of its operands. -/
inductive Applies : BinaryOp → Located → Located → Operation → Prop
  /-- A list or mapping counts by its text when it is loosely compared with something else. -/
  | left {op : BinaryOp} {a b : Located} (hop : op = .equal ∨ op = .unequal)
    (ha : a.isContainer = true) (hb : b.isContainer = false) (hnull : b.isNullish = false) :
    Applies op a b (.text a)
  | right {op : BinaryOp} {a b : Located} (hop : op = .equal ∨ op = .unequal)
    (ha : a.isContainer = false) (hb : b.isContainer = true) (hnull : a.isNullish = false) :
    Applies op a b (.text b)
  /-- What is searched for in a list is a position, and a text anywhere else. -/
  | position {key container : Located} (hcontainer : IsList container) :
    Applies .isIn key container (.position key.toNumber)
  | search {key container : Located} (hcontainer : ¬ IsList container) :
    Applies .isIn key container (.text key)
  /-- A sum with a text is one of texts. -/
  | first {a b : Located} (htext : IsText a ∨ IsText b) : Applies .add a b (.text a)
  | second {a b : Located} (htext : IsText a ∨ IsText b) {s : String} (ha : a.toShownText = .ok s) :
    Applies .add a b (.text b)
  | arithmetic {op : BinaryOp} {a b : Located} (hop : op ∈ [.add, .sub, .mul, .div, .rem])
    (htext : op = .add → ¬ (IsText a ∨ IsText b)) :
    Applies op a b (.arithmetic op a.toNumber b.toNumber)

theorem isNullish_of_isContainer {value : Located} (h : value.isContainer = true) :
    value.isNullish = false := by
  cases value with
  | list _ _ | map _ _ => rfl
  | _ => cases h

theorem looseEquals_eq_error_iff {op : BinaryOp} (hop : op = .equal ∨ op = .unequal)
    (a b : Located) (kind : Fault) :
    a.looseEquals b = .error kind ↔
      ∃ operation, Applies op a b operation ∧ operation.Fails kind := by
  have happlies : (∃ operation, Applies op a b operation ∧ operation.Fails kind) ↔
      (a.isContainer = true ∧ b.isContainer = false ∧ b.isNullish = false ∧
          (Operation.text a).Fails kind) ∨
        (a.isContainer = false ∧ b.isContainer = true ∧ a.isNullish = false ∧
          (Operation.text b).Fails kind) := by
    constructor
    · rintro ⟨operation, happlies, hfails⟩
      cases happlies with
      | left _ ha hb hnull => exact Or.inl ⟨ha, hb, hnull, hfails⟩
      | right _ ha hb hnull => exact Or.inr ⟨ha, hb, hnull, hfails⟩
      | arithmetic harith _ => rcases hop with rfl | rfl <;> simp at harith
      | position _ | search _ | first _ | second _ _ => simp at hop
    · rintro (⟨ha, hb, hnull, hfails⟩ | ⟨ha, hb, hnull, hfails⟩)
      · exact ⟨_, .left hop ha hb hnull, hfails⟩
      · exact ⟨_, .right hop ha hb hnull, hfails⟩
  rw [happlies, ← toShownText_eq_error_iff, ← toShownText_eq_error_iff]
  unfold looseEquals
  cases ha : a.isNullish with
  | true =>
      have hcontainer : a.isContainer = false := by
        cases hcontainer : a.isContainer with
        | false => rfl
        | true => rw [isNullish_of_isContainer hcontainer] at ha; cases ha
      simp [hcontainer]
  | false =>
      cases hb : b.isNullish with
      | true =>
          have hcontainer : b.isContainer = false := by
            cases hcontainer : b.isContainer with
            | false => rfl
            | true => rw [isNullish_of_isContainer hcontainer] at hb; cases hb
          simp [hcontainer]
      | false =>
          rw [Bool.or_false, if_neg Bool.false_ne_true]
          cases a.isContainer <;> cases b.isContainer
          · simp
          · exact bind_pure_eq_error.trans (by simp)
          · exact bind_pure_eq_error.trans (by simp)
          · simp

/-- Nothing can be searched for in a set or a scalar. -/
theorem contains_refused {key container : Located}
    (h : contains key container = do
      .error (.error (.notSearchable (← key.toText) (← container.toShownText))))
    (hcontainer : ¬ container.Unwritable) (kind : Fault) :
    contains key container = .error (.fault kind) ↔ (Operation.text key).Fails kind := by
  rw [h, Transclude.bind_eq_error, liftM_eq_fault, toText_eq_error_iff]
  refine or_iff_left ?_
  rintro ⟨s, _, h⟩
  rw [Transclude.bind_eq_error, liftM_eq_fault, toShownText_eq_error_iff, text_fails_iff] at h
  obtain ⟨_, hvalue⟩ | ⟨_, _, h⟩ := h
  · exact hcontainer hvalue
  · cases h

theorem contains_fault_iff (key container : Located) (kind : Fault) :
    contains key container = .error (.fault kind) ↔
      ∃ operation, Applies .isIn key container operation ∧ operation.Fails kind := by
  have hlist (hcontainer : IsList container) :
      (∃ operation, Applies .isIn key container operation ∧ operation.Fails kind) ↔
        (Operation.position key.toNumber).Fails kind := by
    constructor
    · rintro ⟨operation, happlies, hfails⟩
      cases happlies with
      | position _ => exact hfails
      | search hother => exact (hother hcontainer).elim
      | left hop _ _ _ | right hop _ _ _ => simp at hop
      | arithmetic hop _ => simp at hop
    · exact fun hfails => ⟨_, .position hcontainer, hfails⟩
  have hother (hcontainer : ¬ IsList container) :
      (∃ operation, Applies .isIn key container operation ∧ operation.Fails kind) ↔
        (Operation.text key).Fails kind := by
    constructor
    · rintro ⟨operation, happlies, hfails⟩
      cases happlies with
      | position hlist => exact (hcontainer hlist).elim
      | search _ => exact hfails
      | left hop _ _ _ | right hop _ _ _ => simp at hop
      | arithmetic hop _ => simp at hop
    · exact fun hfails => ⟨_, .search hcontainer, hfails⟩
  cases container with
  | map origin entries =>
      rw [hother (fun h => h), ← toText_eq_error_iff, contains, bind_pure_eq_error, liftM_eq_fault]
  | list origin items =>
      rw [hlist trivial, ← isPosition_eq_error_iff, contains, liftM_eq_fault]
  | tuple items =>
      rw [hlist trivial, ← isPosition_eq_error_iff, contains, liftM_eq_fault]
  | set members =>
      exact (contains_refused rfl (fun h => by cases h) kind).trans (hother (fun h => h)).symm
  | scalar s =>
      exact (contains_refused rfl (fun h => by cases h) kind).trans (hother (fun h => h)).symm

theorem sum_of_text {a b : Located} (h : IsText a ∨ IsText b) :
    sum a b = do return .str ((← a.toShownText) ++ (← b.toShownText)) := by
  unfold sum
  split
  next => rfl
  next => rfl
  next hfirst hsecond =>
    obtain h | h := h
    · unfold IsText at h
      split at h
      next s => exact (hfirst s rfl).elim
      next => exact h.elim
    · unfold IsText at h
      split at h
      next s => exact (hsecond s rfl).elim
      next => exact h.elim

theorem sum_of_numbers {a b : Located} (h : ¬ (IsText a ∨ IsText b)) :
    sum a b = do return .number (← a.toNumber.add b.toNumber) := by
  unfold sum
  split
  next => exact (h (Or.inl trivial)).elim
  next => exact (h (Or.inr trivial)).elim
  next => rfl

theorem sum_eq_error_iff (a b : Located) (kind : Fault) :
    sum a b = .error kind ↔ ∃ operation, Applies .add a b operation ∧ operation.Fails kind := by
  by_cases htext : IsText a ∨ IsText b
  · rw [sum_of_text htext, Transclude.bind_eq_error]
    constructor
    · rintro (h | ⟨s, ha, h⟩)
      · exact ⟨_, .first htext, (toShownText_eq_error_iff a kind).mp h⟩
      · exact ⟨_, .second htext ha, (toShownText_eq_error_iff b kind).mp (bind_pure_eq_error.mp h)⟩
    · rintro ⟨operation, happlies, hfails⟩
      cases happlies with
      | first _ => exact Or.inl ((toShownText_eq_error_iff a kind).mpr hfails)
      | second _ ha =>
          exact Or.inr ⟨_, ha,
            bind_pure_eq_error.mpr ((toShownText_eq_error_iff b kind).mpr hfails)⟩
      | arithmetic _ hnone => exact (hnone rfl htext).elim
      | left hop _ _ _ | right hop _ _ _ => simp at hop
  · rw [sum_of_numbers htext, bind_pure_eq_error, Number.add_eq_error_iff]
    constructor
    · exact fun h => ⟨_, .arithmetic (by decide) fun _ => htext, .arithmetic h⟩
    · rintro ⟨operation, happlies, hfails⟩
      cases happlies with
      | arithmetic _ _ =>
          cases hfails with
          | arithmetic h => exact h
      | first h | second h _ => exact (htext h).elim
      | left hop _ _ _ | right hop _ _ _ => simp at hop

/-- Arithmetic other than sums takes its operands as numbers. -/
theorem arithmetic_fails_iff {op : BinaryOp} (hop : op ∈ [.sub, .mul, .div, .rem])
    (a b : Located) (kind : Fault) :
    (∃ operation, Applies op a b operation ∧ operation.Fails kind) ↔
      Number.Fails op a.toNumber b.toNumber kind := by
  constructor
  · rintro ⟨operation, happlies, hfails⟩
    cases happlies with
    | arithmetic _ _ =>
        cases hfails with
        | arithmetic h => exact h
    | left hequal _ _ _ | right hequal _ _ _ => rcases hequal with rfl | rfl <;> simp at hop
    | position _ | search _ | first _ | second _ _ => simp at hop
  · intro h
    refine ⟨_, .arithmetic (List.mem_cons_of_mem _ hop) ?_, .arithmetic h⟩
    rintro rfl
    simp at hop

/-- Logical operators, comparisons and strict equality ask nothing of their operands. -/
theorem not_applies {op : BinaryOp} (hop : op ∈ [.or, .and, .strictEqual, .strictUnequal, .less,
    .atMost, .greater, .atLeast]) {a b : Located} {operation : Operation} :
    ¬ Applies op a b operation := by
  intro h
  cases h with
  | left hequal _ _ _ | right hequal _ _ _ => rcases hequal with rfl | rfl <;> simp at hop
  | arithmetic harith _ => fin_cases harith <;> simp at hop
  | position _ | search _ | first _ | second _ _ => simp at hop

theorem applyBinary_fault_iff (op : BinaryOp) (a b : Located) (kind : Fault) :
    applyBinary op a b = .error (.fault kind) ↔
      ∃ operation, Applies op a b operation ∧ operation.Fails kind := by
  have hnone {value : Located} (hop : op ∈ [.or, .and, .strictEqual, .strictUnequal, .less,
      .atMost, .greater, .atLeast]) (happly : applyBinary op a b = .ok value) :
      applyBinary op a b = .error (.fault kind) ↔
        ∃ operation, Applies op a b operation ∧ operation.Fails kind := by
    rw [happly]
    constructor
    · nofun
    · rintro ⟨operation, happlies, _⟩
      exact (not_applies hop happlies).elim
  cases op with
  | or | and | strictEqual | strictUnequal | less | atMost | greater | atLeast =>
      exact hnone (by decide) rfl
  | equal | unequal =>
      rw [applyBinary, bind_pure_eq_error, liftM_eq_fault]
      exact looseEquals_eq_error_iff (by decide) a b kind
  | isIn =>
      rw [applyBinary, bind_pure_eq_error]
      exact contains_fault_iff a b kind
  | add =>
      rw [applyBinary, liftM_eq_fault]
      exact sum_eq_error_iff a b kind
  | sub =>
      rw [arithmetic_fails_iff (by decide), ← Number.sub_eq_error_iff]
      rw [applyBinary, bind_pure_eq_error, liftM_eq_fault]
  | mul =>
      rw [arithmetic_fails_iff (by decide), ← Number.mul_eq_error_iff]
      rw [applyBinary, bind_pure_eq_error, liftM_eq_fault]
  | div =>
      rw [arithmetic_fails_iff (by decide), ← Number.div_eq_error_iff]
      rw [applyBinary, bind_pure_eq_error, liftM_eq_fault]
  | rem =>
      rw [arithmetic_fails_iff (by decide), ← Number.rem_eq_error_iff]
      rw [applyBinary, bind_pure_eq_error, liftM_eq_fault]

/-- What the reading of a property asks of values: those without properties are refused with the
text of the key. -/
inductive Accesses : Located → Located → Operation → Prop
  | refused {object key : Located} (hobject : object.isNullish = true) :
    Accesses object key (.text key)
  | property {object key : Located} (hobject : object.isNullish = false) :
    Accesses object key (.property object key)

theorem readProperty_fault_iff (object key : Located) (kind : Fault) :
    readProperty object key = .error (.fault kind) ↔
      ∃ operation, Accesses object key operation ∧ operation.Fails kind := by
  unfold readProperty
  cases hobject : object.isNullish with
  | false =>
      rw [if_neg Bool.false_ne_true, liftM_eq_fault, ← property_fails_iff]
      constructor
      · exact fun h => ⟨_, .property hobject, h⟩
      · rintro ⟨operation, hreads, hfails⟩
        cases hreads with
        | refused h => rw [h] at hobject; cases hobject
        | property _ => exact hfails
  | true =>
      have hshown : ¬ object.Unwritable := by
        cases object with
        | scalar s => exact fun h => by cases h
        | _ => cases hobject
      rw [if_pos rfl, Transclude.bind_eq_error, liftM_eq_fault, toShownText_eq_error_iff,
        text_fails_iff, or_iff_right fun h => hshown h.2]
      constructor
      · rintro ⟨_, _, h⟩
        rw [Transclude.bind_eq_error, liftM_eq_fault, toText_eq_error_iff] at h
        obtain h | ⟨_, _, h⟩ := h
        · exact ⟨_, .refused hobject, h⟩
        · cases h
      · rintro ⟨operation, hreads, hfails⟩
        cases hreads with
        | property h => rw [h] at hobject; cases hobject
        | refused _ =>
            cases htext : object.toShownText with
            | error e =>
                exact (hshown ((Value.toShownText_eq_error_iff e object).mp htext).2).elim
            | ok shown =>
                refine ⟨shown, rfl, ?_⟩
                rw [Transclude.bind_eq_error, liftM_eq_fault, toText_eq_error_iff]
                exact Or.inl hfails

/-! ## Expressions -/

/-- Whether the left operand of a logical operator is its value. -/
def decides (op : BinaryOp) (a : Located) : Bool :=
  op = .or && a.isTruthy || op = .and && !a.isTruthy

/-- The operations that the evaluation of an expression at a place gets to. -/
inductive Performs (scope : Scope) : List Nat → Expr → Operation → Prop
  | item {path : List Nat} {items : List Expr} {i : Nat} {item : Expr} {operation : Operation}
    (hitem : GetsTo (fun j e => eval scope (j :: path) e) items i item)
    (h : Performs scope (i :: path) item operation) : Performs scope path (.array items) operation
  | memberObject {path : List Nat} {object : Expr} {name : String} {operation : Operation}
    (h : Performs scope (0 :: path) object operation) :
    Performs scope path (.member object name) operation
  | member {path : List Nat} {object : Expr} {name : String} {value : Located}
    {operation : Operation} (hobject : eval scope (0 :: path) object = .ok value)
    (h : Accesses value (.str name) operation) : Performs scope path (.member object name) operation
  | indexObject {path : List Nat} {object key : Expr} {operation : Operation}
    (h : Performs scope (0 :: path) object operation) :
    Performs scope path (.index object key) operation
  | indexKey {path : List Nat} {object key : Expr} {a : Located} {operation : Operation}
    (hobject : eval scope (0 :: path) object = .ok a)
    (h : Performs scope (1 :: path) key operation) :
    Performs scope path (.index object key) operation
  | index {path : List Nat} {object key : Expr} {a b : Located} {operation : Operation}
    (hobject : eval scope (0 :: path) object = .ok a) (hkey : eval scope (1 :: path) key = .ok b)
    (h : Accesses a b operation) : Performs scope path (.index object key) operation
  | operand {path : List Nat} {op : UnaryOp} {operand : Expr} {operation : Operation}
    (hname : (op = .typeOf && isUnknownName scope operand) = false)
    (h : Performs scope (0 :: path) operand operation) :
    Performs scope path (.unary op operand) operation
  | left {path : List Nat} {op : BinaryOp} {left right : Expr} {operation : Operation}
    (h : Performs scope (0 :: path) left operation) :
    Performs scope path (.binary op left right) operation
  | right {path : List Nat} {op : BinaryOp} {left right : Expr} {a : Located}
    {operation : Operation} (hleft : eval scope (0 :: path) left = .ok a)
    (hopen : decides op a = false) (h : Performs scope (1 :: path) right operation) :
    Performs scope path (.binary op left right) operation
  | binary {path : List Nat} {op : BinaryOp} {left right : Expr} {a b : Located}
    {operation : Operation} (hleft : eval scope (0 :: path) left = .ok a)
    (hopen : decides op a = false) (hright : eval scope (1 :: path) right = .ok b)
    (h : Applies op a b operation) : Performs scope path (.binary op left right) operation
  | test {path : List Nat} {test consequent alternate : Expr} {operation : Operation}
    (h : Performs scope (0 :: path) test operation) :
    Performs scope path (.conditional test consequent alternate) operation
  | consequent {path : List Nat} {test consequent alternate : Expr} {value : Located}
    {operation : Operation} (htest : eval scope (0 :: path) test = .ok value)
    (htrue : value.isTruthy = true) (h : Performs scope (1 :: path) consequent operation) :
    Performs scope path (.conditional test consequent alternate) operation
  | alternate {path : List Nat} {test consequent alternate : Expr} {value : Located}
    {operation : Operation} (htest : eval scope (0 :: path) test = .ok value)
    (hfalse : value.isTruthy = false) (h : Performs scope (2 :: path) alternate operation) :
    Performs scope path (.conditional test consequent alternate) operation
  | group {path : List Nat} {inner : Expr} {operation : Operation}
    (h : Performs scope (0 :: path) inner operation) : Performs scope path (.group inner) operation

/-- The evaluation gets to an operation that fails. -/
def Breaks (scope : Scope) (path : List Nat) (e : Expr) (kind : Fault) : Prop :=
  ∃ operation, Performs scope path e operation ∧ operation.Fails kind

theorem evalItems_eq_error_iff (scope : Scope) (path : List Nat) (position : Nat)
    (items : List Expr) (reason : Halt EvalError) :
    evalItems scope path position items = .error reason ↔
      ∃ i item, GetsTo (fun j e => eval scope ((position + j) :: path) e) items i item ∧
        eval scope ((position + i) :: path) item = .error reason := by
  induction items generalizing position with
  | nil =>
      rw [evalItems]
      constructor
      · nofun
      · rintro ⟨_, _, h, _⟩
        exact (not_getsTo_nil h).elim
  | cons item rest ih =>
      rw [evalItems, exists_getsTo_cons_iff, Transclude.bind_eq_error]
      simp only [bind_pure_eq_error, ih, Nat.add_zero, Nat.add_assoc, Nat.add_comm 1]

section

variable {scope : Scope} {path : List Nat} {kind : Fault}

theorem breaks_array_iff {items : List Expr} : Breaks scope path (.array items) kind ↔
    ∃ i item, GetsTo (fun j e => eval scope (j :: path) e) items i item ∧
      Breaks scope (i :: path) item kind := by
  constructor
  · rintro ⟨operation, hperforms, hfails⟩
    cases hperforms with
    | @item _ _ i item _ hitem h => exact ⟨i, item, hitem, operation, h, hfails⟩
  · rintro ⟨i, item, hitem, operation, h, hfails⟩
    exact ⟨operation, .item hitem h, hfails⟩

theorem breaks_member_iff {object : Expr} {name : String} :
    Breaks scope path (.member object name) kind ↔
      Breaks scope (0 :: path) object kind ∨
        ∃ value, eval scope (0 :: path) object = .ok value ∧
          ∃ operation, Accesses value (.str name) operation ∧ operation.Fails kind := by
  constructor
  · rintro ⟨operation, hperforms, hfails⟩
    cases hperforms with
    | memberObject h => exact .inl ⟨operation, h, hfails⟩
    | member hobject h => exact .inr ⟨_, hobject, operation, h, hfails⟩
  · rintro (⟨operation, h, hfails⟩ | ⟨value, hobject, operation, h, hfails⟩)
    · exact ⟨operation, .memberObject h, hfails⟩
    · exact ⟨operation, .member hobject h, hfails⟩

theorem breaks_index_iff {object key : Expr} : Breaks scope path (.index object key) kind ↔
    Breaks scope (0 :: path) object kind ∨
      ∃ a, eval scope (0 :: path) object = .ok a ∧
        (Breaks scope (1 :: path) key kind ∨
          ∃ b, eval scope (1 :: path) key = .ok b ∧
            ∃ operation, Accesses a b operation ∧ operation.Fails kind) := by
  constructor
  · rintro ⟨operation, hperforms, hfails⟩
    cases hperforms with
    | indexObject h => exact .inl ⟨operation, h, hfails⟩
    | indexKey hobject h => exact .inr ⟨_, hobject, .inl ⟨operation, h, hfails⟩⟩
    | index hobject hkey h => exact .inr ⟨_, hobject, .inr ⟨_, hkey, operation, h, hfails⟩⟩
  · rintro (⟨operation, h, hfails⟩ | ⟨a, hobject, ⟨operation, h, hfails⟩ |
      ⟨b, hkey, operation, h, hfails⟩⟩)
    · exact ⟨operation, .indexObject h, hfails⟩
    · exact ⟨operation, .indexKey hobject h, hfails⟩
    · exact ⟨operation, .index hobject hkey h, hfails⟩

theorem breaks_unary_iff {op : UnaryOp} {operand : Expr} :
    Breaks scope path (.unary op operand) kind ↔
      (op = .typeOf && isUnknownName scope operand) = false ∧
        Breaks scope (0 :: path) operand kind := by
  constructor
  · rintro ⟨operation, hperforms, hfails⟩
    cases hperforms with
    | operand hname h => exact ⟨hname, operation, h, hfails⟩
  · rintro ⟨hname, operation, h, hfails⟩
    exact ⟨operation, .operand hname h, hfails⟩

theorem breaks_binary_iff {op : BinaryOp} {left right : Expr} :
    Breaks scope path (.binary op left right) kind ↔
      Breaks scope (0 :: path) left kind ∨
        ∃ a, eval scope (0 :: path) left = .ok a ∧ decides op a = false ∧
          (Breaks scope (1 :: path) right kind ∨
            ∃ b, eval scope (1 :: path) right = .ok b ∧
              ∃ operation, Applies op a b operation ∧ operation.Fails kind) := by
  constructor
  · rintro ⟨operation, hperforms, hfails⟩
    cases hperforms with
    | left h => exact .inl ⟨operation, h, hfails⟩
    | right hleft hopen h => exact .inr ⟨_, hleft, hopen, .inl ⟨operation, h, hfails⟩⟩
    | binary hleft hopen hright h =>
        exact .inr ⟨_, hleft, hopen, .inr ⟨_, hright, operation, h, hfails⟩⟩
  · rintro (⟨operation, h, hfails⟩ | ⟨a, hleft, hopen, ⟨operation, h, hfails⟩ |
      ⟨b, hright, operation, h, hfails⟩⟩)
    · exact ⟨operation, .left h, hfails⟩
    · exact ⟨operation, .right hleft hopen h, hfails⟩
    · exact ⟨operation, .binary hleft hopen hright h, hfails⟩

theorem breaks_conditional_iff {test consequent alternate : Expr} :
    Breaks scope path (.conditional test consequent alternate) kind ↔
      Breaks scope (0 :: path) test kind ∨
        ∃ value, eval scope (0 :: path) test = .ok value ∧
          if value.isTruthy then Breaks scope (1 :: path) consequent kind
          else Breaks scope (2 :: path) alternate kind := by
  constructor
  · rintro ⟨operation, hperforms, hfails⟩
    cases hperforms with
    | test h => exact .inl ⟨operation, h, hfails⟩
    | consequent htest htrue h =>
        exact .inr ⟨_, htest, (if_pos htrue).mpr ⟨operation, h, hfails⟩⟩
    | alternate htest hfalse h =>
        refine .inr ⟨_, htest, ?_⟩
        rw [hfalse, if_neg Bool.false_ne_true]
        exact ⟨operation, h, hfails⟩
  · rintro (⟨operation, h, hfails⟩ | ⟨value, htest, h⟩)
    · exact ⟨operation, .test h, hfails⟩
    · split at h
      next htrue =>
        obtain ⟨operation, h, hfails⟩ := h
        exact ⟨operation, .consequent htest htrue h, hfails⟩
      next hfalse =>
        obtain ⟨operation, h, hfails⟩ := h
        exact ⟨operation, .alternate htest (Bool.not_eq_true _ ▸ hfalse) h, hfails⟩

theorem breaks_group_iff {inner : Expr} :
    Breaks scope path (.group inner) kind ↔ Breaks scope (0 :: path) inner kind := by
  constructor
  · rintro ⟨operation, hperforms, hfails⟩
    cases hperforms with
    | group h => exact ⟨operation, h, hfails⟩
  · rintro ⟨operation, h, hfails⟩
    exact ⟨operation, .group h, hfails⟩

end

theorem eval_binary (scope : Scope) (path : List Nat) (op : BinaryOp) (left right : Expr) :
    eval scope path (.binary op left right) =
      eval scope (0 :: path) left >>= fun a =>
        if decides op a then pure a
        else eval scope (1 :: path) right >>= fun b => applyBinary op a b := by
  rw [eval]
  rfl

/-- The evaluation of an expression ends with a fault when it gets to an operation that fails. -/
theorem eval_fault_iff (scope : Scope) (path : List Nat) (e : Expr) (kind : Fault) :
    eval scope path e = .error (.fault kind) ↔ Breaks scope path e kind := by
  induction e using Expr.induction generalizing path with
  | literal value =>
      rw [eval]
      constructor
      · nofun
      · rintro ⟨_, h, _⟩
        cases h
  | array items ih =>
      rw [eval, bind_pure_eq_error, evalItems_eq_error_iff, breaks_array_iff]
      simp only [Nat.zero_add]
      refine exists_congr fun i => exists_congr fun item => and_congr_right fun hitem => ?_
      exact ih item (List.mem_of_getElem? hitem.here) (i :: path)
  | identifier name =>
      rw [eval, readName]
      constructor
      · intro h
        split at h <;> cases h
      · rintro ⟨_, h, _⟩
        cases h
  | member object name ih =>
      rw [eval, Transclude.bind_eq_error, ih, breaks_member_iff]
      simp only [readProperty_fault_iff]
  | index object key ihobject ihkey =>
      rw [eval, Transclude.bind_eq_error, ihobject, breaks_index_iff]
      simp only [Transclude.bind_eq_error, ihkey, readProperty_fault_iff]
  | unary op operand ih =>
      rw [eval, breaks_unary_iff]
      cases hname : (op = .typeOf && isUnknownName scope operand : Bool) with
      | true => exact iff_of_false nofun fun h => Bool.noConfusion h.1
      | false => rw [if_neg Bool.false_ne_true, bind_pure_eq_error, ih, eq_self, true_and]
  | binary op left right ihleft ihright =>
      rw [eval_binary, Transclude.bind_eq_error, ihleft, breaks_binary_iff]
      refine or_congr_right (exists_congr fun a => and_congr_right fun _ => ?_)
      cases hopen : decides op a with
      | true => exact iff_of_false nofun fun h => Bool.noConfusion h.1
      | false =>
          rw [if_neg Bool.false_ne_true, eq_self, true_and]
          simp only [Transclude.bind_eq_error, ihright, applyBinary_fault_iff]
  | conditional test consequent alternate ihtest ihconsequent ihalternate =>
      rw [eval, Transclude.bind_eq_error, ihtest, breaks_conditional_iff]
      refine or_congr_right (exists_congr fun value => and_congr_right fun _ => ?_)
      cases value.isTruthy with
      | true => exact ihconsequent (1 :: path)
      | false => exact ihalternate (2 :: path)
  | group inner ih => rw [eval, ih, breaks_group_iff]

end Expr

end Transclude
