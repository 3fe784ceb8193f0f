import Mathlib
import Transclude.Proofs.Keys
import Transclude.Proofs.Outcome
import Transclude.Proofs.Substitution

/-! # References to data

A name is never a position, so that following a path of names always comes to a
value, which is `undefined` where something is missing. What becomes of a
reference depends on that value alone. -/

namespace Transclude

namespace Text

theorem bounds_of_start {c : Char} (h : isIdentifierStart c = true) :
    c.toNat < 128 ∧ c.isDigit = false := by
  have hvalue : c.toNat = c.val.toNat := rfl
  simp only [isIdentifierStart, Bool.or_eq_true, beq_iff_eq] at h
  rcases h with (h | rfl) | rfl
  · have hletter : (decide (c.val ≥ 'A'.val ∧ c.val ≤ 'Z'.val) ||
        (c.val ≥ 'a'.val && c.val ≤ 'z'.val)) = true := h
    simp only [Bool.or_eq_true, Bool.and_eq_true, decide_eq_true_eq, ge_iff_le,
      UInt32.le_iff_toNat_le, UInt32.reduceToNat, Char.reduceVal] at hletter
    refine ⟨by omega, ?_⟩
    rw [Char.isDigit, Bool.and_eq_false_iff, decide_eq_false_iff_not, decide_eq_false_iff_not,
      ge_iff_le, UInt32.le_iff_toNat_le, UInt32.le_iff_toNat_le]
    simp only [UInt32.reduceToNat, Char.reduceVal]
    omega
  · decide
  · decide

/-- No name begins with a digit of any kind. -/
theorem isDigitLike_of_start {c : Char} (h : isIdentifierStart c = true) :
    isDigitLike c = false := by
  obtain ⟨hbound, hdigit⟩ := bounds_of_start h
  have hdecimal : isDecimalDigit c = false := by
    simp [isDecimalDigit, decimalValue?, hdigit, hbound]
  have hranges : bareDigitRanges.all (fun range => 128 ≤ range.1) = true := by decide
  have hbare : bareDigitRanges.contains c = false := by
    rw [Ranges.contains, List.any_eq_false]
    intro range hrange
    have hfirst := of_decide_eq_true (List.all_eq_true.mp hranges range hrange)
    simp only [Bool.and_eq_true, decide_eq_true_eq]
    omega
  rw [isDigitLike, hdecimal, hbare]
  rfl

end Text

namespace Value

variable {ι : Type} {name : List Char}

/-- The length of what has one, under its name. -/
def lengthNamed (length : Nat) (name : String) : Value ι :=
  if name = "length" then .number (.int length) else .undefined

/-- The part of a value under a name, `undefined` when there is none. -/
def named (value : Value ι) (name : String) : Value ι :=
  match value with
  | .map _ entries => (Entries.get? entries (.str name)).getD (lengthNamed entries.length name)
  | .list _ items | .tuple items => lengthNamed items.length name
  | .str s => lengthNamed s.toList.length name
  | _ => .undefined

theorem position?_name (h : Variable.IsName name) :
    position? (.str (String.ofList name) : Value ι) = .ok none := by
  obtain ⟨c, rest, rfl, hstart, _⟩ := h
  simp [position?, Text.isDigitLike_of_start hstart]

theorem itemProperty_of_ne {items : List (Value ι)} {key : Value ι} (h : key ≠ .str "length") :
    itemProperty items key = itemAt items <$> key.position? := by
  unfold itemProperty
  split
  next => exact absurd rfl h
  next => rw [map_eq_pure_bind]

theorem itemProperty_eq_itemAt {items : List (Value ι)} {key : Value ι} (h : key ≠ .str "length")
    {position : Option Int} (hposition : key.position? = .ok position) :
    itemProperty items key = .ok (itemAt items position) := by
  rw [itemProperty_of_ne h, hposition]
  rfl

theorem itemProperty_name (h : Variable.IsName name) (items : List (Value ι)) :
    itemProperty items (.str (String.ofList name)) =
      .ok (lengthNamed items.length (String.ofList name)) := by
  by_cases hlength : String.ofList name = "length"
  · rw [hlength]
    rfl
  · have hkey : (.str (String.ofList name) : Value ι) ≠ .str "length" := by simpa using hlength
    rw [itemProperty_eq_itemAt hkey (position?_name h), lengthNamed, if_neg hlength]
    rfl

theorem entryProperty_name (entries : Entries ι) (name : String) :
    entryProperty entries (.str name) =
      .ok ((Entries.get? entries (.str name)).getD (lengthNamed entries.length name)) := by
  unfold entryProperty lengthNamed
  simp only [toKey?]
  cases Entries.get? entries (.str name) with
  | some value => rfl
  | none =>
      by_cases hlength : name = "length"
      · subst hlength
        rfl
      · rw [if_neg hlength]
        dsimp only
        split
        next heq => cases heq
        next heq =>
          injection heq with heq
          injection heq with heq
          exact absurd heq hlength
        next => rfl

/-- The property under a name never fails. -/
theorem getProperty_name (h : Variable.IsName name) (value : Value ι) :
    value.getProperty (.str (String.ofList name)) = .ok (value.named (String.ofList name)) := by
  cases value with
  | map identity entries => exact entryProperty_name entries _
  | list identity items => exact itemProperty_name h items
  | tuple items => exact itemProperty_name h items
  | set members => rfl
  | scalar s =>
      cases s with
      | str s =>
          rw [getProperty, itemProperty_name h, List.length_map]
          rfl
      | _ => rfl

theorem foldl_named_undefined (names : List String) :
    names.foldl named (.undefined : Value ι) = .undefined := by
  induction names with
  | nil => rfl
  | cons name rest ih => exact ih

theorem lookupPath_undefined (path : List String) :
    lookupPath (.undefined : Value ι) path = .ok .undefined := by
  cases path <;> rfl

/-- Each segment is looked up in what the one before it gives. -/
theorem lookupPath_cons (value : Value ι) (segment : String) (rest : List String) :
    value.lookupPath (segment :: rest) =
      (value.getProperty (.str segment) >>= fun property => property.lookupPath rest) := by
  rw [lookupPath.eq_def]
  dsimp only
  split
  next => exact (lookupPath_undefined rest).symm
  next => exact (lookupPath_undefined rest).symm
  next => rfl

/-- Following names always comes to a value. -/
theorem lookupPath_names {names : List (List Char)} (h : ∀ name ∈ names, Variable.IsName name)
    (value : Value ι) :
    value.lookupPath (names.map String.ofList) =
      .ok ((names.map String.ofList).foldl named value) := by
  induction names generalizing value with
  | nil => rfl
  | cons name rest ih =>
      obtain ⟨hname, hrest⟩ := List.forall_mem_cons.mp h
      rw [List.map_cons, lookupPath_cons, getProperty_name hname, ok_bind, ih hrest,
        List.foldl_cons]

end Value

namespace Variable

/-- What becomes of a reference, by the value that its names lead to. -/
def ofNames (data : Data) (names : List (List Char)) : Outcome :=
  match names.map String.ofList with
  | [] => .kept
  | first :: others =>
    match Entries.get? data (.str first) with
    | none => .kept
    | some value => ofValue (others.foldl Value.named value)

/-- The outcome of a dotted path is that of its names, and no fault. -/
theorem outcome_dotted {names : List (List Char)} (h : ∀ name ∈ names, IsName name)
    (hne : names ≠ []) (data : Data) : outcome data (dotted names) = .ok (ofNames data names) := by
  have hlookup := Value.lookupPath_names h (.map (.ofPlace []) data)
  unfold outcome ofNames
  rw [(isPath_of_isName h hne).splitOn_dotted]
  cases names with
  | nil => exact absurd rfl hne
  | cons first others =>
      rw [List.map_cons] at hlookup ⊢
      dsimp only
      rw [Entries.hasKey_eq_isSome]
      cases hfirst : Entries.get? data (.str (String.ofList first)) with
      | none => rfl
      | some value =>
          rw [hlookup, List.foldl_cons, Value.named, hfirst]
          rfl

end Variable

end Transclude
