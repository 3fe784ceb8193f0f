import Mathlib
import Transclude.Render

/-! # Keys of data

The data of a document have the keys of what they are made from and no others, so
that a name without a value stays one through a whole rendering. What the parameter
has at a name is copied into them, unless mappings are merged there. -/

namespace Transclude

namespace Entries

variable {ι : Type} {key : Key}

theorem hasKey_insert {entries : Entries ι} {other : Key} (value : Value ι)
    (hother : other.same key = false) :
    hasKey (insert entries other value) key = hasKey entries key := by
  induction entries with
  | nil => simp [insert, hasKey, hother]
  | cons entry rest ih =>
      obtain ⟨k, v⟩ := entry
      rw [insert]
      split
      next => simp [hasKey]
      next =>
        unfold hasKey at ih ⊢
        rw [List.any_cons, List.any_cons, ih]

theorem hasKey_mapEntryIdentities {κ : Type} (f : ι → κ) (entries : Entries ι) :
    hasKey (Value.mapEntryIdentities f entries) key = hasKey entries key := by
  induction entries with
  | nil => simp [Value.mapEntryIdentities, hasKey]
  | cons entry rest ih =>
      obtain ⟨k, v⟩ := entry
      unfold hasKey at ih ⊢
      rw [Value.mapEntryIdentities, List.any_cons, List.any_cons, ih]

theorem hasKey_eq_isSome (entries : Entries ι) (key : Key) :
    hasKey entries key = (get? entries key).isSome := by
  rw [get?, Option.isSome_map, Bool.eq_iff_iff, List.find?_isSome, hasKey, List.any_eq_true]

end Entries

theorem Data.hasKey_mergeFrom {key : Key} {base override : Data} (position : Nat)
    (hbase : Entries.hasKey base key = false) (hoverride : Entries.hasKey override key = false) :
    Entries.hasKey (Data.mergeFrom position base override) key = false := by
  induction override generalizing position base with
  | nil => rwa [Data.mergeFrom]
  | cons entry rest ih =>
      obtain ⟨k, v⟩ := entry
      unfold Entries.hasKey at hoverride
      rw [List.any_cons, Bool.or_eq_false_iff] at hoverride
      rw [Data.mergeFrom]
      refine ih _ ?_ hoverride.2
      rwa [Entries.hasKey_insert _ hoverride.1]

/-- A document has no key but those of what its data are made from. -/
theorem Frame.hasKey_dataOf {key : Key} {shared : Data} {parameter : Option Data}
    (hcontent : Key.same (.str Frame.contentName) key = false)
    (hshared : Entries.hasKey shared key = false)
    (hparameter : Entries.hasKey (parameter.getD []) key = false) (text : List Char) :
    Entries.hasKey (Frame.dataOf shared parameter text) key = false := by
  rw [Frame.dataOf, Entries.hasKey_insert _ hcontent]
  refine Data.hasKey_mergeFrom _ ?_ hparameter
  rwa [Entries.hasKey_mapEntryIdentities]

theorem Renderer.hasKey_sharedData {key : Key} {renderer : Renderer}
    (hroot : Key.same (.str Settings.webRootName) key = false)
    (hcontext : Entries.hasKey renderer.settings.context key = false) (document : Document) :
    Entries.hasKey (renderer.sharedData document) key = false := by
  unfold Renderer.sharedData
  dsimp only
  split
  next => exact hcontext
  next => rwa [Entries.hasKey_insert _ hroot]

/-! ## Values at names -/

/-- A text is the same key as itself only. -/
theorem Key.same_str {key : Key} {name : String} :
    key.same (.str name) = true ↔ key = .str name := by
  rcases key with s | items
  · cases s <;> simp [Key.same, Scalar.sameKey, Scalar.keyNumber?]
  · simp [Key.same]

theorem Key.str_same {key : Key} {name : String} :
    Key.same (.str name) key = true ↔ key = .str name := by
  rcases key with s | items
  · cases s with
    | str other =>
        simp only [Key.same, Scalar.sameKey, Scalar.keyNumber?, beq_iff_eq, Key.scalar.injEq]
        exact eq_comm
    | _ => simp [Key.same, Scalar.sameKey, Scalar.keyNumber?]
  · simp [Key.same]

theorem Entries.get?_cons {ι : Type} (key : Key) (value : Value ι) (rest : Entries ι)
    (other : Key) :
    get? ((key, value) :: rest) other = if key.same other then some value else get? rest other := by
  unfold get?
  rw [List.find?_cons]
  cases key.same other <;> rfl

theorem Entries.get?_insert_str {ι : Type} (entries : Entries ι) (key : Key) (value : Value ι)
    (name : String) :
    get? (insert entries key value) (.str name) =
      if key.same (.str name) then some value else get? entries (.str name) := by
  induction entries with
  | nil => exact get?_cons key value [] _
  | cons entry rest ih =>
      obtain ⟨k, v⟩ := entry
      rw [insert]
      split
      next hsame =>
        -- the entry keeps its key, which is the name when the new one is
        have hname : k.same (.str name) = key.same (.str name) := by
          rw [Bool.eq_iff_iff, Key.same_str, Key.same_str]
          constructor
          · rintro rfl
            exact Key.str_same.mp hsame
          · rintro rfl
            exact Key.same_str.mp hsame
        rw [get?_cons, get?_cons, hname]
        split <;> rfl
      next hsame =>
        rw [get?_cons, get?_cons, ih]
        by_cases hkey : k.same (.str name) = true
        · have hother : ¬ key.same (.str name) = true := by
            rw [Key.same_str] at hkey ⊢
            rintro rfl
            exact hsame (Key.same_str.mpr hkey)
          rw [if_pos hkey, if_neg hother, if_pos hkey]
        · rw [if_neg hkey, if_neg hkey]

theorem Value.over_of_not_isMap {value : Datum} (h : value.isMap = false) (current : Option Datum) :
    Value.over current value = value := by
  cases value with
  | map mark entries => cases h
  | _ => rfl

theorem Data.get?_mergeFrom_of_not_hasKey {override : Data} {name : String}
    (h : Entries.hasKey override (.str name) = false) (position : Nat) (base : Data) :
    Entries.get? (Data.mergeFrom position base override) (.str name) =
      Entries.get? base (.str name) := by
  induction override generalizing position base with
  | nil => rfl
  | cons entry rest ih =>
      obtain ⟨key, value⟩ := entry
      rw [Entries.hasKey, List.any_cons, Bool.or_eq_false_iff] at h
      rw [Data.mergeFrom, ih h.2, Entries.get?_insert_str, if_neg (by simp [h.1])]

/-- What is laid over a mapping at a name is there as a copy, unless it is merged with what was. -/
theorem Data.exists_get?_mergeFrom {override : Data} {name : String} {value : Datum}
    (hdistinct : override.Pairwise fun first second => first.1.same second.1 = false)
    (hvalue : Entries.get? override (.str name) = some value) (hmap : value.isMap = false)
    (position : Nat) (base : Data) :
    ∃ copy, Entries.get? (Data.mergeFrom position base override) (.str name) =
      some (value.copied copy) := by
  induction override generalizing position base with
  | nil => cases hvalue
  | cons entry rest ih =>
      obtain ⟨key, other⟩ := entry
      obtain ⟨hfirst, hrest⟩ := List.pairwise_cons.mp hdistinct
      rw [Data.mergeFrom]
      by_cases hkey : key = .str name
      · subst hkey
        obtain rfl : other = value := by
          rw [Entries.get?_cons, if_pos (Key.same_str.mpr rfl)] at hvalue
          exact Option.some.inj hvalue
        have hlast : Entries.hasKey rest (.str name) = false := by
          rw [Entries.hasKey, List.any_eq_false]
          intro entry hentry
          have hne := hfirst entry hentry
          rw [Bool.eq_false_iff, ne_eq, Key.str_same] at hne
          rwa [Key.same_str]
        refine ⟨position, ?_⟩
        rw [get?_mergeFrom_of_not_hasKey hlast, Entries.get?_insert_str,
          if_pos (Key.same_str.mpr rfl), Value.over_of_not_isMap hmap]
      · rw [Entries.get?_cons, if_neg (mt Key.same_str.mp hkey)] at hvalue
        exact ih hrest hvalue _ _

theorem Frame.exists_get?_dataOf (shared : Data) {parameter : Data} {name : String} {value : Datum}
    (hdistinct : parameter.Pairwise fun first second => first.1.same second.1 = false)
    (hvalue : Entries.get? parameter (.str name) = some value) (hmap : value.isMap = false)
    (hname : name ≠ contentName) :
    ∃ copy, ∀ text,
      Entries.get? (dataOf shared (some parameter) text) (.str name) = some (value.copied copy) := by
  obtain ⟨copy, hcopy⟩ := Data.exists_get?_mergeFrom hdistinct hvalue hmap 1
    (Value.mapEntryIdentities (Mark.copied 0) shared)
  refine ⟨copy, fun text => ?_⟩
  have hcontent : Key.same (.str contentName) (.str name) = false := by
    rw [Bool.eq_false_iff, ne_eq, Key.same_str]
    rintro ⟨⟩
    exact hname rfl
  rw [dataOf, Entries.get?_insert_str, hcontent]
  exact hcopy

/-- The value of a name in the scope of data. -/
theorem Scope.get?_ofData (data : Data) (name : String) :
    (Scope.ofData data).get? name =
      (Entries.get? data (.str name)).map (Value.mapIdentity fun mark => .data mark.place) := by
  induction data with
  | nil => rfl
  | cons entry rest ih =>
      obtain ⟨key, value⟩ := entry
      rw [Entries.get?_cons]
      unfold ofData at ih ⊢
      rw [List.filterMap_cons]
      by_cases hkey : key = .str name
      · subst hkey
        rw [if_pos (Key.same_str.mpr rfl)]
        simp [get?]
      · rw [if_neg (mt Key.same_str.mp hkey), ← ih]
        split
        next => rfl
        next binding heq =>
          dsimp only at heq
          split at heq
          next other =>
            cases heq
            have hne : other ≠ name := fun hother => hkey (by rw [hother])
            simp [get?, hne]
          next => cases heq

end Transclude
