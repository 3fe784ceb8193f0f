import Mathlib
import Transclude.Expr.Condition
import Transclude.Loop.Render
import Transclude.Proofs.Digits
import Transclude.Proofs.Overlay

/-! # Membership, enumeration and access

A key leads to at most one place of a list or mapping, from which it reads an
element. A loop over keys takes one key for each place. The test of membership asks
another question, whether the text of a key is a key itself or its number lies in a
list, and gives another answer for some keys: it overlooks keys of a mapping that are
no texts, and it finds what only looks like a key. -/

namespace Transclude

namespace Entries

variable {ι : Type}

/-- The place of a key among the entries. -/
def place? (entries : Entries ι) (key : Key) : Option Nat :=
  List.findIdx? (fun entry => entry.1.same key) entries

/-- The place of the text of a number. -/
def numeralPlace? (entries : Entries ι) : Scalar → Option Nat
  | .number n => place? entries (.str n.toText)
  | _ => none

theorem get?_eq_place? (entries : Entries ι) (key : Key) :
    get? entries key = (place? entries key).bind fun i => (List.map (·.2) entries)[i]? := by
  induction entries with
  | nil => rfl
  | cons entry rest ih =>
      obtain ⟨other, value⟩ := entry
      have hplace : place? ((other, value) :: rest) key =
          if other.same key then some 0 else (place? rest key).map (· + 1) := List.findIdx?_cons
      rw [get?_cons, ih, hplace]
      split
      next => rfl
      next => cases place? rest key <;> rfl

theorem isSome_place? (entries : Entries ι) (key : Key) :
    (place? entries key).isSome = hasKey entries key := by
  rw [place?, List.findIdx?_isSome, hasKey]

/-- A key with a place has the value that stands there. -/
theorem exists_get?_of_place? {entries : Entries ι} {key : Key} {i : Nat}
    (h : place? entries key = some i) :
    ∃ value, (List.map (·.2) entries)[i]? = some value ∧ get? entries key = some value := by
  have hget := get?_eq_place? entries key
  have hsome : (get? entries key).isSome = true := by
    rw [← hasKey_eq_isSome, ← isSome_place?, h]
    rfl
  rw [h, Option.bind_some] at hget
  obtain ⟨value, hvalue⟩ := Option.isSome_iff_exists.mp hsome
  exact ⟨value, hget ▸ hvalue, hvalue⟩

theorem get?_of_place?_none {entries : Entries ι} {key : Key} (h : place? entries key = none) :
    get? entries key = none := by
  rw [get?_eq_place?, h, Option.bind_none]

theorem isSome_numeralPlace? (entries : Entries ι) (key : Scalar) :
    (numeralPlace? entries key).isSome = true ↔
      (∃ n, key = .number n) ∧ hasKey entries (.str key.toText) = true := by
  cases key with
  | number n => simp [numeralPlace?, isSome_place?, Scalar.toText]
  | _ => simp [numeralPlace?]

/-- A mapping whose keys are different scalars. -/
structure Keyed (entries : Entries ι) : Prop where
  scalar : ∀ key ∈ keys entries, ∃ s, key = .scalar s
  distinct : Key.Distinct (keys entries)
  selfSame : ∀ key ∈ keys entries, key.same key = true

/-- Every key leads to the place where it stands. -/
theorem Keyed.map_place? {entries : Entries ι} (h : Keyed entries) :
    (keys entries).map (place? entries) = (List.range (List.length entries)).map some := by
  refine List.ext_getElem (by simp [keys]) fun i hi hrange => ?_
  simp only [List.length_map] at hi
  have hlength : (keys entries).length = List.length entries := by simp [keys]
  rw [List.getElem_map, List.getElem_map, List.getElem_range, place?,
    List.findIdx?_eq_some_iff_getElem]
  refine ⟨hlength ▸ hi, ?_, fun j hji => ?_⟩
  · simpa [keys] using h.selfSame (keys entries)[i] (List.getElem_mem hi)
  · have hdifferent := List.pairwise_iff_getElem.mp h.distinct j i (by omega) hi hji
    simpa [keys] using hdifferent

end Entries

namespace Value

variable {ι : Type}

/-- The elements of a list or mapping in order. -/
def elements : Value ι → List (Value ι)
  | .list _ items => items
  | .map _ entries => entries.map (·.2)
  | _ => []

/-- The place among the elements of a list or mapping that a key leads to. A number that is no key
of a mapping leads to the place of its text, and a position of a list leads to itself. -/
def place? (key : Scalar) : Value ι → Option Nat
  | .map _ entries =>
    (Entries.place? entries (.scalar key)).or (Entries.numeralPlace? entries key)
  | .list _ items =>
    match (scalar key : Value ι).position? with
    | .ok (some p) => if 0 ≤ p ∧ p < items.length then some p.toNat else none
    | _ => none
  | _ => none

/-- A key of a mapping whose text is no key of it. -/
def Overlooked (key : Scalar) : Value ι → Prop
  | .map _ entries =>
    Entries.hasKey entries (.scalar key) = true ∧ Entries.hasKey entries (.str key.toText) = false
  | .scalar _ | .tuple _ | .set _ | .list _ _ => False

/-- What is neither a number nor a key of a mapping, while its text is a key; or what is no position
of a list, while its number lies among the positions. -/
def Feigned (key : Scalar) : Value ι → Prop
  | .map _ entries =>
    (∀ n, key ≠ .number n) ∧ Entries.hasKey entries (.scalar key) = false ∧
      Entries.hasKey entries (.str key.toText) = true
  | .list _ items =>
    (∀ p, (scalar key : Value ι).position? ≠ .ok (some p)) ∧
      (scalar key : Value ι).toNumber.Within items.length
  | .scalar _ | .tuple _ | .set _ => False

theorem isSome_place?_map (key : Scalar) (identity : ι) (entries : Entries ι) :
    ((map identity entries).place? key).isSome = true ↔
      Entries.hasKey entries (.scalar key) = true ∨
        (∃ n, key = .number n) ∧ Entries.hasKey entries (.str key.toText) = true := by
  rw [place?, Option.isSome_or, Bool.or_eq_true, Entries.isSome_place?,
    Entries.isSome_numeralPlace?]

/-! ## Access -/

theorem position?_length : (str "length" : Value ι).position? = .ok none := by
  have hletter : Text.isDigitLike 'l' = false := by decide
  simp [position?, hletter]

/-- What a key reads from a mapping stands at its place. -/
theorem exists_entryProperty {entries : Entries ι} {key : Scalar} {i : Nat}
    (h : (Entries.place? entries (.scalar key)).or (Entries.numeralPlace? entries key) = some i) :
    ∃ value, (entries.map (·.2))[i]? = some value ∧
      entryProperty entries (.scalar key) = .ok value := by
  unfold entryProperty
  rw [toKey?]
  dsimp only
  rw [Option.or_eq_some_iff] at h
  rcases h with h | ⟨hnone, h⟩
  · obtain ⟨value, hvalue, hget⟩ := Entries.exists_get?_of_place? h
    rw [hget]
    exact ⟨value, hvalue, rfl⟩
  · cases key with
    | number n =>
        obtain ⟨value, hvalue, hget⟩ := Entries.exists_get?_of_place? h
        rw [Entries.get?_of_place?_none hnone]
        dsimp only
        rw [hget]
        exact ⟨value, hvalue, rfl⟩
    | _ => cases h

theorem entryProperty_of_no_place {entries : Entries ι} {key : Scalar}
    (h : (Entries.place? entries (.scalar key)).or (Entries.numeralPlace? entries key) = none)
    (hkey : key ≠ .str "length") : entryProperty entries (.scalar key) = .ok .undefined := by
  rw [Option.or_eq_none_iff] at h
  unfold entryProperty
  rw [toKey?]
  dsimp only
  rw [Entries.get?_of_place?_none h.1]
  cases key with
  | number n =>
      have hnone : Entries.get? entries (.str n.toText) = none :=
        Entries.get?_of_place?_none h.2
      dsimp only
      rw [hnone]
  | str s =>
      dsimp only
      split
      next => contradiction
      next heq =>
        cases heq
        exact absurd rfl hkey
      next => rfl
  | _ => rfl

/-- A key reads the element at its place. -/
theorem exists_getProperty {container : Value ι} {key : Scalar} {i : Nat}
    (h : container.place? key = some i) :
    ∃ value, container.elements[i]? = some value ∧
      container.getProperty (.scalar key) = .ok value := by
  cases container with
  | list identity items =>
      rw [place?] at h
      split at h
      next p hp =>
        split at h
        next hrange =>
          obtain rfl := Option.some.inj h
          have hkey : (scalar key : Value ι) ≠ .str "length" := by
            rintro heq
            rw [heq, position?_length] at hp
            cases hp
          have hitem : items[p.toNat]? = some items[p.toNat] :=
            List.getElem?_eq_getElem (by omega)
          refine ⟨items[p.toNat], hitem, ?_⟩
          rw [getProperty, itemProperty_eq_itemAt hkey hp, itemAt, if_pos hrange.1, hitem]
          rfl
        next => cases h
      next => cases h
  | map identity entries => exact exists_entryProperty h
  | scalar _ | tuple _ | set _ => cases h

/-- A key without a place reads nothing, unless it is a text of digits that are no number. -/
theorem getProperty_of_no_place {container : Value ι} {key : Scalar}
    (hcontainer : container.isContainer = true) (h : container.place? key = none)
    (hkey : key ≠ .str "length") :
    container.getProperty (.scalar key) = .ok .undefined ∨
      (∃ s, key = .str s ∧ BareDigits s.toList) ∧
        container.getProperty (.scalar key) = .error .badValue := by
  cases container with
  | list identity items =>
      have hscalar : (scalar key : Value ι) ≠ .str "length" := by simpa using hkey
      rw [getProperty]
      cases hposition : (scalar key : Value ι).position? with
      | error kind =>
          obtain ⟨s, hs, rfl, hdigits⟩ := (position?_eq_error_iff _ _).mp hposition
          rw [itemProperty_of_ne hscalar, hposition]
          exact Or.inr ⟨⟨s, by simpa using hs, hdigits⟩, rfl⟩
      | ok position =>
          left
          rw [itemProperty_eq_itemAt hscalar hposition]
          cases position with
          | none => rfl
          | some p =>
              rw [place?, hposition] at h
              dsimp only at h
              rw [itemAt]
              split
              next hp =>
                have hout : items.length ≤ p.toNat := by
                  by_contra hin
                  rw [if_pos (by omega)] at h
                  cases h
                rw [List.getElem?_eq_none hout]
                rfl
              next => rfl
  | map identity entries => exact Or.inl (entryProperty_of_no_place h hkey)
  | scalar _ | tuple _ | set _ => cases hcontainer

end Value

/-! ## Membership -/

namespace Expr

theorem contains_map (key : Scalar) (identity : Origin) (entries : Entries Origin) :
    contains (.scalar key) (.map identity entries) =
      .ok (Entries.hasKey entries (.str key.toText)) := by
  rw [contains, Value.toText]
  rfl

/-- The test of membership finds the numbers that lie in a list. -/
theorem contains_list_eq_true_iff (key : Scalar) (identity : Origin) {items : List Located}
    (hlength : items.length ≤ 2 ^ 53) :
    contains (.scalar key) (.list identity items) = .ok true ↔
      (Value.scalar key : Located).toNumber.Within items.length := by
  have hoverflow : items.length ≤ Binary64.overflow :=
    (hlength.trans (by decide)).trans (Nat.le_mul_of_pos_right (2 ^ 54 - 1) Binary64.topHalf_pos)
  rw [← isPosition_eq_true_iff _ hoverflow, contains]
  cases isPosition (Value.scalar key : Located).toNumber items.length with
  | ok value => exact (show (Except.ok value : Evaluation Bool) = .ok true ↔ _ by simp)
  | error kind => exact ⟨nofun, nofun⟩

/-- A position lies in a list when the number of its key does. -/
theorem within_of_position? {key : Scalar} {p : Int}
    (hposition : (Value.scalar key : Located).position? = .ok (some p)) {length : Nat}
    (hlength : length ≤ 2 ^ 53) :
    (Value.scalar key : Located).toNumber.Within length ↔ 0 ≤ p ∧ p < length := by
  cases key with
  | number n => exact Number.within_of_toInt? (Except.ok.inj hposition) length
  | str s =>
      rw [Value.position?] at hposition
      split at hposition
      next => cases hposition
      next hdigits =>
        rw [Bool.or_eq_true, List.isEmpty_iff, not_or] at hdigits
        split at hposition
        next n hnumber =>
          obtain rfl : (n : Int) = p := by simpa using hposition
          rw [Value.toNumber, within_numberOfText_digits hdigits.1 hnumber hlength]
          omega
        next => cases hposition
  | _ => cases hposition

/-- What `k in c` says of a key and a container. -/
def membership (key : Scalar) (container : Located) : Except (Halt Error) Located :=
  evalText "k in c".toList [("k", .scalar key), ("c", container)]

/-- What `c[k]` reads from a container at a key. -/
def access (key : Scalar) (container : Located) : Except (Halt Error) Located :=
  evalText "c[k]".toList [("k", .scalar key), ("c", container)]

theorem membership_eq (key : Scalar) (container : Located) :
    membership key container =
      (do return .bool (← contains (.scalar key) container) : Evaluation Located).mapError
        (Halt.map .eval) := by
  have hparse : parse "k in c".toList =
      .ok (.binary .isIn (.identifier "k") (.identifier "c")) := by cbv
  rw [membership, evalText, hparse]
  rfl

theorem membership_eq_true_iff (key : Scalar) (container : Located) :
    membership key container = .ok (.bool true) ↔ contains (.scalar key) container = .ok true := by
  rw [membership_eq]
  cases contains (.scalar key) container with
  | ok value => simp [bind, Except.bind, pure, Except.pure, Except.mapError]
  | error halt => exact ⟨nofun, nofun⟩

theorem access_eq {container : Located} (hcontainer : container.isContainer = true)
    (key : Scalar) :
    access key container =
      match container.getProperty (.scalar key) with
      | .ok value => .ok value
      | .error kind => .error (.fault kind) := by
  have hparse : parse "c[k]".toList = .ok (.index (.identifier "c") (.identifier "k")) := by cbv
  have hnullish : container.isNullish = false := by
    cases container with
    | list _ _ | map _ _ => rfl
    | scalar _ | tuple _ | set _ => cases hcontainer
  have heval : eval [("k", .scalar key), ("c", container)] []
      (.index (.identifier "c") (.identifier "k")) = readProperty container (.scalar key) := rfl
  rw [access, evalText, hparse]
  dsimp only
  rw [heval, readProperty, hnullish]
  cases container.getProperty (.scalar key) <;> rfl

/-- In a mapping the test finds what is feigned and misses what is overlooked, but nothing else. -/
theorem contains_map_exceptions (key : Scalar) (identity : Origin) (entries : Entries Origin) :
    (contains (.scalar key) (.map identity entries) = .ok true ∧
        (Value.map identity entries).place? key = none ↔
      (Value.map identity entries).Feigned key) ∧
    (contains (.scalar key) (.map identity entries) ≠ .ok true ∧
        ((Value.map identity entries).place? key).isSome = true ↔
      (Value.map identity entries).Overlooked key) := by
  rw [contains_map, ← Option.not_isSome_iff_eq_none, Value.isSome_place?_map, Value.Feigned,
    Value.Overlooked, ← not_exists, ne_eq, Except.ok.injEq, Bool.eq_false_iff, Bool.eq_false_iff]
  by_cases hnumber : ∃ n, key = .number n
  · simp only [hnumber, true_and, not_true_eq_false, false_and, iff_false]
    exact ⟨fun h => h.2 (Or.inr h.1),
      fun h => ⟨h.2.resolve_right h.1, h.1⟩, fun h => ⟨h.2, Or.inl h.1⟩⟩
  · simp only [hnumber, false_and, or_false, not_false_eq_true, true_and]
    exact ⟨and_comm, and_comm⟩

/-- In a list the test finds every position, and what is feigned. -/
theorem contains_list_exceptions (key : Scalar) (identity : Origin) {items : List Located}
    (hlength : items.length ≤ 2 ^ 53) :
    (contains (.scalar key) (.list identity items) = .ok true ∧
        (Value.list identity items).place? key = none ↔
      (Value.list identity items).Feigned key) ∧
    (contains (.scalar key) (.list identity items) ≠ .ok true ∧
        ((Value.list identity items).place? key).isSome = true ↔
      (Value.list identity items).Overlooked key) := by
  rw [ne_eq, contains_list_eq_true_iff key identity hlength, Value.Feigned, Value.Overlooked,
    Value.place?]
  by_cases hposition : ∃ p, (Value.scalar key : Located).position? = .ok (some p)
  · obtain ⟨p, hp⟩ := hposition
    rw [within_of_position? hp hlength, hp]
    dsimp only
    by_cases hrange : 0 ≤ p ∧ p < items.length
    · simp [hrange]
    · simp [hrange]
  · have hnone : ∀ p, (Value.scalar key : Located).position? ≠ .ok (some p) := by
      simpa using hposition
    split
    next p hp => exact absurd hp (hnone p)
    next => simp [hnone]

/-! ## Enumeration -/

/-- Keys that lead to the places in order have a place each. -/
theorem exists_place_of_mem {place : Scalar → Option Nat} {keys : List Scalar} {count : Nat}
    (hplaces : keys.map place = (List.range count).map some) {key : Scalar} (hkey : key ∈ keys) :
    ∃ i, place key = some i := by
  have hplace : place key ∈ (List.range count).map some := by
    rw [← hplaces]
    exact List.mem_map_of_mem hkey
  obtain ⟨i, _, hi⟩ := List.mem_map.mp hplace
  exact ⟨i, hi.symm⟩

theorem position?_positionName (i : Nat) :
    (Value.str (toString i) : Located).position? = .ok (some (i : Int)) := by
  have htext : (toString i).toList = Nat.toDigits 10 i := by simp
  have hdigits : ((Nat.toDigits 10 i).all Text.isDigitLike) = true := by
    rw [List.all_eq_true]
    intro c hc
    have hdigit :=
      isDecimalDigit_of_isDigit (Nat.isDigit_of_mem_toDigits (by decide) (by decide) hc)
    rw [Text.isDigitLike, hdigit, Bool.true_or]
  rw [Value.position?, htext, hdigits, Json.decimalNumber?_toDigits]
  simp [Nat.toDigits_ne_nil]

/-- A list is gone through by the texts of its positions. -/
theorem map_place?_list (identity : Origin) (items : List Located) :
    ((List.range items.length).map fun i => Scalar.str (toString i)).map
        (Value.list identity items).place? =
      (List.range items.length).map some := by
  rw [List.map_map]
  refine List.map_congr_left fun i hi => ?_
  have hrange := List.mem_range.mp hi
  simp only [Function.comp_apply, Value.place?]
  rw [position?_positionName]
  dsimp only
  rw [if_pos (by omega), Int.toNat_natCast]

/-- A mapping of scalars is gone through by its keys. -/
theorem exists_keys_map (identity : Origin) {entries : Entries Origin} (h : Entries.Keyed entries) :
    ∃ keys : List Scalar,
      entries.map (fun entry => (Value.ofKey entry.1 : Located)) = keys.map .scalar ∧
        keys.map (Value.map identity entries).place? =
          (List.range entries.length).map some := by
  have hscalars : Entries.keys entries ∈ Set.range (List.map Key.scalar) := by
    rw [Set.range_list_map]
    intro key hkey
    obtain ⟨s, rfl⟩ := h.scalar key hkey
    exact ⟨s, rfl⟩
  obtain ⟨keys, hkeys⟩ := hscalars
  have hplaces : (keys.map fun key => Entries.place? entries (.scalar key)) =
      (List.range entries.length).map some := by
    rw [← h.map_place?, ← hkeys, List.map_map]
    rfl
  refine ⟨keys, ?_, ?_⟩
  · have hvalues : entries.map (fun entry => (Value.ofKey entry.1 : Located)) =
        (Entries.keys entries).map Value.ofKey := by
      rw [Entries.keys, List.map_map]
      rfl
    rw [hvalues, ← hkeys, List.map_map]
    rfl
  · rw [← hplaces]
    refine List.map_congr_left fun key hkey => ?_
    -- the key is one of the mapping, so that its text is not looked for
    obtain ⟨i, hi⟩ := exists_place_of_mem hplaces hkey
    rw [Value.place?, hi, Option.some_or]

/-- The keys of a loop lead to the places of the elements, each to the one in its turn. -/
theorem exists_enumerated {container : Located} (hcontainer : container.isContainer = true)
    (hkeyed : ∀ identity entries, container = .map identity entries → Entries.Keyed entries) :
    ∃ keys : List Scalar, Loop.enumerate .keys container = .ok (keys.map .scalar) ∧
      keys.map container.place? = (List.range container.elements.length).map some := by
  cases container with
  | list identity items =>
      refine ⟨_, ?_, map_place?_list identity items⟩
      simp [Loop.enumerate, Loop.keysOf, Loop.positionNames]
  | map identity entries =>
      obtain ⟨keys, hkeys, hplaces⟩ := exists_keys_map identity (hkeyed identity entries rfl)
      refine ⟨keys, ?_, ?_⟩
      · rw [Loop.enumerate, Loop.keysOf, hkeys]
      · rw [hplaces, Value.elements, List.length_map]
  | scalar _ | tuple _ | set _ => cases hcontainer

theorem enumerate_values {container : Located} (hcontainer : container.isContainer = true) :
    Loop.enumerate .values container = .ok container.elements := by
  cases container with
  | list _ _ | map _ _ => rfl
  | scalar _ | tuple _ | set _ => cases hcontainer

theorem access_of_place {container : Located} (hcontainer : container.isContainer = true)
    {key : Scalar} {i : Nat} (h : container.place? key = some i) :
    ∃ value, container.elements[i]? = some value ∧ access key container = .ok value := by
  obtain ⟨value, hvalue, hread⟩ := Value.exists_getProperty h
  exact ⟨value, hvalue, by rw [access_eq hcontainer, hread]⟩

/-- Keys that lead to the places of the elements in order read the elements in order. -/
theorem access_enumerated {container : Located} (hcontainer : container.isContainer = true)
    {keys : List Scalar}
    (hplaces : keys.map container.place? = (List.range container.elements.length).map some) :
    List.Forall₂ (fun key value => access key container = .ok value) keys container.elements := by
  have hlength : keys.length = container.elements.length := by
    simpa using congrArg List.length hplaces
  refine List.forall₂_iff_get.mpr ⟨hlength, fun i hkey helement => ?_⟩
  have hplace : container.place? keys[i] = some i := by
    have hi := congrArg (·[i]?) hplaces
    simpa [hkey, helement] using hi
  obtain ⟨value, hvalue, hread⟩ := access_of_place hcontainer hplace
  rw [List.getElem?_eq_getElem helement, Option.some.injEq] at hvalue
  subst hvalue
  exact hread

/-- The test of membership errs on what is feigned and on what is overlooked. -/
theorem membership_exceptions {container : Located} (hcontainer : container.isContainer = true)
    (hlength : container.elements.length ≤ 2 ^ 53) (key : Scalar) :
    (membership key container = .ok (.bool true) ∧ container.place? key = none ↔
      container.Feigned key) ∧
    (membership key container ≠ .ok (.bool true) ∧ (container.place? key).isSome = true ↔
      container.Overlooked key) := by
  rw [ne_eq, membership_eq_true_iff]
  cases container with
  | list identity items => exact contains_list_exceptions key identity hlength
  | map identity entries => exact contains_map_exceptions key identity entries
  | scalar _ | tuple _ | set _ => cases hcontainer

/-- Membership and access agree on the keys of a list or mapping but for those that the test of
membership overlooks or feigns, and a loop over the keys reads each element once. -/
theorem membership_agrees {container : Located} (hcontainer : container.isContainer = true)
    (hlength : container.elements.length ≤ 2 ^ 53) :
    (∀ key i, container.place? key = some i →
      ∃ value, container.elements[i]? = some value ∧ access key container = .ok value) ∧
    (∀ key, key ≠ .str "length" → container.place? key = none →
      access key container = .ok .undefined ∨
        (∃ s, key = .str s ∧ Value.BareDigits s.toList) ∧
          access key container = .error (.fault .badValue)) ∧
    (∀ key,
      (membership key container = .ok (.bool true) ∧ container.place? key = none ↔
        container.Feigned key) ∧
      (membership key container ≠ .ok (.bool true) ∧ (container.place? key).isSome = true ↔
        container.Overlooked key)) ∧
    parseHeader "k in c".toList = .ok (.forEach "k" .keys (.identifier "c")) ∧
    Loop.enumerate .values container = .ok container.elements ∧
    ((∀ identity entries, container = .map identity entries → Entries.Keyed entries) →
      ∃ keys : List Scalar, Loop.enumerate .keys container = .ok (keys.map .scalar) ∧
        keys.map container.place? = (List.range container.elements.length).map some ∧
        List.Forall₂ (fun key value => access key container = .ok value) keys container.elements ∧
        ∀ key ∈ keys,
          membership key container = .ok (.bool true) ↔ ¬ container.Overlooked key) := by
  refine ⟨fun key i h => access_of_place hcontainer h, fun key hkey h => ?_,
    membership_exceptions hcontainer hlength, by cbv, enumerate_values hcontainer,
    fun hkeyed => ?_⟩
  · rcases Value.getProperty_of_no_place hcontainer h hkey with hread | ⟨hdigits, hread⟩
    · exact Or.inl (by rw [access_eq hcontainer, hread])
    · exact Or.inr ⟨hdigits, by rw [access_eq hcontainer, hread]⟩
  · obtain ⟨keys, henumerate, hplaces⟩ := exists_enumerated hcontainer hkeyed
    refine ⟨keys, henumerate, hplaces, access_enumerated hcontainer hplaces, fun key hkey => ?_⟩
    obtain ⟨i, hi⟩ := exists_place_of_mem hplaces hkey
    have hsome : (container.place? key).isSome = true := by
      rw [hi]
      rfl
    rw [← (membership_exceptions hcontainer hlength key).2]
    simp [hsome]

/-- A mapping with a number as its key. -/
def numbered : Located := .map (.data []) [(.scalar (.number (.int 1)), .str "a")]

theorem keyed_numbered :
    ∀ identity entries, numbered = .map identity entries → Entries.Keyed entries := by
  rintro identity entries ⟨⟩
  refine ⟨fun key hkey => ⟨_, List.mem_singleton.mp hkey⟩, List.pairwise_singleton _ _, ?_⟩
  intro key hkey
  obtain rfl := List.mem_singleton.mp hkey
  rfl

theorem membership_agrees_numbered :
    numbered.isContainer = true ∧ numbered.elements.length ≤ 2 ^ 53 ∧
      (∀ identity entries, numbered = .map identity entries → Entries.Keyed entries) ∧
      ∃ keys : List Scalar, Loop.enumerate .keys numbered = .ok (keys.map .scalar) ∧
        List.Forall₂ (fun key value => access key numbered = .ok value) keys [.str "a"] := by
  obtain ⟨-, -, -, -, -, hkeys⟩ := @membership_agrees numbered rfl (by decide)
  obtain ⟨keys, henumerate, -, hread, -⟩ := hkeys keyed_numbered
  exact ⟨rfl, by decide, keyed_numbered, keys, henumerate, hread⟩

/-- A loop takes the number from the mapping and reads its element, but the test of membership does
not find it. -/
theorem not_membership_agrees :
    Loop.enumerate .keys numbered = .ok [.number (.int 1)] ∧
      access (.number (.int 1)) numbered = .ok (.str "a") ∧
      numbered.place? (.number (.int 1)) = some 0 ∧
      membership (.number (.int 1)) numbered = .ok (.bool false) :=
  ⟨rfl, by cbv, by decide, by cbv⟩

end Expr

end Transclude
