import Mathlib
import Transclude.Proofs.References
import Transclude.Value.Equality

/-! # Values under other identities

Lists and mappings are told apart by their identities, which serve for nothing else.
With other identities a value has the same text, truth and number; its properties
are the same ones with other identities; and it is equal to the same values as long
as different identities stay different. -/

namespace Transclude

variable {ι κ μ : Type}

namespace Value

theorem mapIdentities_eq_map (f : ι → κ) (items : List (Value ι)) :
    mapIdentities f items = items.map (mapIdentity f) := by
  induction items with
  | nil => rfl
  | cons item rest ih => rw [mapIdentities, ih, List.map_cons]

theorem mapEntryIdentities_eq_map (f : ι → κ) (entries : Entries ι) :
    mapEntryIdentities f entries = entries.map fun entry => (entry.1, mapIdentity f entry.2) := by
  induction entries with
  | nil => rfl
  | cons entry rest ih => rw [mapEntryIdentities, ih, List.map_cons]

section Composition

mutual

theorem mapIdentity_mapIdentity (g : κ → μ) (f : ι → κ) :
    ∀ value : Value ι, mapIdentity g (mapIdentity f value) = mapIdentity (g ∘ f) value
  | .scalar _ | .set _ => rfl
  | .tuple items => by simp only [mapIdentity, mapIdentities_mapIdentities g f items]
  | .list _ items => by
      simp only [mapIdentity, mapIdentities_mapIdentities g f items, Function.comp_apply]
  | .map _ entries => by
      simp only [mapIdentity, mapEntryIdentities_mapEntryIdentities g f entries,
        Function.comp_apply]

theorem mapIdentities_mapIdentities (g : κ → μ) (f : ι → κ) :
    ∀ items : List (Value ι), mapIdentities g (mapIdentities f items) = mapIdentities (g ∘ f) items
  | [] => rfl
  | item :: rest => by
      simp only [mapIdentities, mapIdentity_mapIdentity g f item,
        mapIdentities_mapIdentities g f rest]

theorem mapEntryIdentities_mapEntryIdentities (g : κ → μ) (f : ι → κ) :
    ∀ entries : Entries ι,
      mapEntryIdentities g (mapEntryIdentities f entries) = mapEntryIdentities (g ∘ f) entries
  | [] => rfl
  | (_, value) :: rest => by
      simp only [mapEntryIdentities, mapIdentity_mapIdentity g f value,
        mapEntryIdentities_mapEntryIdentities g f rest]

end

mutual

theorem mapIdentity_id : ∀ value : Value ι, mapIdentity id value = value
  | .scalar _ | .set _ => rfl
  | .tuple items => by simp only [mapIdentity, mapIdentities_id items]
  | .list _ items => by simp only [mapIdentity, mapIdentities_id items, id_eq]
  | .map _ entries => by simp only [mapIdentity, mapEntryIdentities_id entries, id_eq]

theorem mapIdentities_id : ∀ items : List (Value ι), mapIdentities id items = items
  | [] => rfl
  | item :: rest => by simp only [mapIdentities, mapIdentity_id item, mapIdentities_id rest]

theorem mapEntryIdentities_id : ∀ entries : Entries ι, mapEntryIdentities id entries = entries
  | [] => rfl
  | (_, value) :: rest => by
      simp only [mapEntryIdentities, mapIdentity_id value, mapEntryIdentities_id rest]

end

end Composition

/-! ## What does not depend on identities -/

section

variable (f : ι → κ)

@[simp] theorem isTruthy_mapIdentity (value : Value ι) :
    (mapIdentity f value).isTruthy = value.isTruthy := by
  cases value with
  | scalar s => cases s <;> rfl
  | _ => rfl

@[simp] theorem isVoid_mapIdentity (value : Value ι) :
    (mapIdentity f value).isVoid = value.isVoid := by
  cases value with
  | scalar s => cases s <;> rfl
  | set members => rfl
  | tuple items => cases items <;> rfl
  | list identity items => cases items <;> rfl
  | map identity entries => cases entries <;> rfl

@[simp] theorem kindName_mapIdentity (value : Value ι) :
    (mapIdentity f value).kindName = value.kindName := by
  cases value with
  | scalar s => cases s <;> rfl
  | _ => rfl

@[simp] theorem kindWord_mapIdentity (value : Value ι) :
    (mapIdentity f value).kindWord = value.kindWord := by
  cases value with
  | scalar s =>
      cases s with
      | number n => cases n <;> rfl
      | _ => rfl
  | _ => rfl

@[simp] theorem toNumber_mapIdentity (value : Value ι) :
    (mapIdentity f value).toNumber = value.toNumber := by
  cases value with
  | scalar s => cases s <;> rfl
  | _ => rfl

@[simp] theorem isNullish_mapIdentity (value : Value ι) :
    (mapIdentity f value).isNullish = value.isNullish := by
  cases value with
  | scalar s => cases s <;> rfl
  | _ => rfl

@[simp] theorem isContainer_mapIdentity (value : Value ι) :
    (mapIdentity f value).isContainer = value.isContainer := by
  cases value <;> rfl

@[simp] theorem position?_mapIdentity (value : Value ι) :
    (mapIdentity f value).position? = value.position? := by
  cases value with
  | scalar s => cases s <;> rfl
  | _ => rfl

mutual

@[simp] theorem toKey?_mapIdentity : ∀ value : Value ι, (mapIdentity f value).toKey? = value.toKey?
  | .scalar _ | .set _ | .list _ _ | .map _ _ => rfl
  | .tuple items => by rw [mapIdentity, toKey?, toKey?, toKeys?_mapIdentities items]

theorem toKeys?_mapIdentities : ∀ items : List (Value ι),
    toKeys? (mapIdentities f items) = toKeys? items
  | [] => rfl
  | item :: rest => by
      rw [mapIdentities, toKeys?, toKeys?, toKey?_mapIdentity item, toKeys?_mapIdentities rest]

end

mutual

@[simp] theorem mapIdentity_ofKey : ∀ key : Key, mapIdentity f (ofKey key) = ofKey key
  | .scalar _ => rfl
  | .sequence items => by rw [ofKey, ofKey, mapIdentity, mapIdentities_ofKeys items]

theorem mapIdentities_ofKeys : ∀ keys : List Key, mapIdentities f (ofKeys keys) = ofKeys keys
  | [] => rfl
  | key :: rest => by
      rw [ofKeys, ofKeys, mapIdentities, mapIdentity_ofKey key, mapIdentities_ofKeys rest]

end

mutual

theorem toJson_mapIdentity : ∀ value : Value ι, (mapIdentity f value).toJson = value.toJson
  | .scalar _ | .set _ => rfl
  | .tuple items => by rw [mapIdentity, toJson, toJson, toJsonItems_mapIdentities items]
  | .list _ items => by rw [mapIdentity, toJson, toJson, toJsonItems_mapIdentities items]
  | .map _ entries => by rw [mapIdentity, toJson, toJson, toJsonEntries_mapEntryIdentities entries]

theorem toJsonItems_mapIdentities : ∀ items : List (Value ι),
    toJsonItems (mapIdentities f items) = toJsonItems items
  | [] => rfl
  | item :: rest => by
      rw [mapIdentities, toJsonItems, toJsonItems, toJson_mapIdentity item,
        toJsonItems_mapIdentities rest]

theorem toJsonEntries_mapEntryIdentities : ∀ entries : Entries ι,
    toJsonEntries (mapEntryIdentities f entries) = toJsonEntries entries
  | [] => rfl
  | (_, value) :: rest => by
      rw [mapEntryIdentities, toJsonEntries, toJsonEntries, toJson_mapIdentity value,
        toJsonEntries_mapEntryIdentities rest]

end

mutual

@[simp] theorem toText_mapIdentity : ∀ value : Value ι, (mapIdentity f value).toText = value.toText
  | .scalar _ | .set _ => rfl
  | .tuple items => by rw [mapIdentity, toText, toText, toTexts_mapIdentities items]
  | .list _ items => by rw [mapIdentity, toText, toText, toTexts_mapIdentities items]
  | .map identity entries => toJson_mapIdentity f (.map identity entries)

theorem toTexts_mapIdentities : ∀ items : List (Value ι),
    toTexts (mapIdentities f items) = toTexts items
  | [] => rfl
  | item :: rest => by
      rw [mapIdentities, toTexts, toTexts, toText_mapIdentity item, toTexts_mapIdentities rest]

end

@[simp] theorem toShownText_mapIdentity (value : Value ι) :
    (mapIdentity f value).toShownText = value.toShownText := by
  cases value with
  | scalar s => cases s <;> rfl
  | tuple items => exact toText_mapIdentity f (.tuple items)
  | set members => rfl
  | list identity items => exact toText_mapIdentity f (.list identity items)
  | map identity entries => exact toText_mapIdentity f (.map identity entries)

end

end Value

/-! ## Entries -/

namespace Entries

variable (f : ι → κ)

@[simp] theorem get?_mapEntryIdentities (entries : Entries ι) (key : Key) :
    get? (Value.mapEntryIdentities f entries) key =
      (get? entries key).map (Value.mapIdentity f) := by
  unfold get?
  rw [Value.mapEntryIdentities_eq_map, List.find?_map, Option.map_map, Option.map_map]
  rfl

@[simp] theorem insert_mapEntryIdentities (entries : Entries ι) (key : Key) (value : Value ι) :
    insert (Value.mapEntryIdentities f entries) key (Value.mapIdentity f value) =
      Value.mapEntryIdentities f (insert entries key value) := by
  induction entries with
  | nil => rfl
  | cons entry rest ih =>
      obtain ⟨k, v⟩ := entry
      rw [Value.mapEntryIdentities, insert, insert]
      split
      next => rfl
      next => rw [ih, Value.mapEntryIdentities]

end Entries

namespace Value

/-! ## Equality -/

section

variable (f : ι → κ)

mutual

theorem sameContent_mapIdentity : ∀ a b : Value ι,
    sameContent (mapIdentity f a) (mapIdentity f b) = sameContent a b
  | .scalar _, b => by cases b <;> rfl
  | .set _, b => by cases b <;> rfl
  | .tuple as, b => by
      cases b with
      | tuple bs => exact sameItems_mapIdentities as bs
      | _ => rfl
  | .list _ as, b => by
      cases b with
      | list _ bs => exact sameItems_mapIdentities as bs
      | _ => rfl
  | .map _ as, b => by
      cases b with
      | map _ bs =>
          simp only [mapIdentity, sameContent, areEntriesOf_mapEntryIdentities bs as]
          simp only [mapEntryIdentities_eq_map, List.length_map]
      | _ => rfl

theorem sameItems_mapIdentities : ∀ as bs : List (Value ι),
    sameItems (mapIdentities f as) (mapIdentities f bs) = sameItems as bs
  | [], bs => by cases bs <;> rfl
  | a :: as, bs => by
      cases bs with
      | nil => rfl
      | cons b bs =>
          simp only [mapIdentities, sameItems, sameContent_mapIdentity a b,
            sameItems_mapIdentities as bs]

theorem areEntriesOf_mapEntryIdentities (others : Entries ι) : ∀ entries : Entries ι,
    areEntriesOf (mapEntryIdentities f others) (mapEntryIdentities f entries) =
      areEntriesOf others entries
  | [] => rfl
  | (key, value) :: rest => by
      rw [mapEntryIdentities, areEntriesOf, areEntriesOf,
        areEntriesOf_mapEntryIdentities others rest, Entries.get?_mapEntryIdentities]
      cases Entries.get? others key with
      | none => rfl
      | some other => simp only [Option.map_some, sameContent_mapIdentity value other]

end

theorem looseEqualsPlain_mapIdentity (a b : Value ι) :
    looseEqualsPlain (mapIdentity f a) (mapIdentity f b) = looseEqualsPlain a b := by
  have hnumber : (mapIdentity f a).toNumber.equals (mapIdentity f b).toNumber =
      a.toNumber.equals b.toNumber := by simp
  cases a with
  | scalar s =>
      cases b with
      | scalar t => cases s <;> cases t <;> rfl
      | _ => cases s <;> exact hnumber
  | _ => exact hnumber

end

section

variable [DecidableEq ι] [DecidableEq κ] {f : ι → κ}

theorem strictEquals_mapIdentity (hf : Function.Injective f) (a b : Value ι) :
    strictEquals (mapIdentity f a) (mapIdentity f b) = strictEquals a b := by
  cases a with
  | scalar s =>
      cases b with
      | scalar t => cases s <;> cases t <;> rfl
      | _ => cases s <;> rfl
  | tuple as =>
      cases b with
      | tuple bs => exact sameItems_mapIdentities f as bs
      | _ => rfl
  | set as => cases b <;> rfl
  | list i as =>
      cases b with
      | list j bs => simp [mapIdentity, strictEquals, hf.eq_iff]
      | _ => rfl
  | map i as =>
      cases b with
      | map j bs => simp [mapIdentity, strictEquals, hf.eq_iff]
      | _ => rfl

theorem looseEquals_mapIdentity (hf : Function.Injective f) (a b : Value ι) :
    looseEquals (mapIdentity f a) (mapIdentity f b) = looseEquals a b := by
  have hstr : ∀ (s : String) (v : Value ι),
      looseEqualsPlain (.str s) (mapIdentity f v) = looseEqualsPlain (.str s) v :=
    fun s v => looseEqualsPlain_mapIdentity f (.str s) v
  unfold looseEquals
  simp only [isNullish_mapIdentity, isContainer_mapIdentity, toShownText_mapIdentity,
    strictEquals_mapIdentity hf, looseEqualsPlain_mapIdentity, hstr]

end

/-! ## Properties -/

section

variable (f : ι → κ)

theorem itemAt_mapIdentities (items : List (Value ι)) (position : Option Int) :
    itemAt (mapIdentities f items) position = mapIdentity f (itemAt items position) := by
  cases position with
  | none => rfl
  | some p =>
      unfold itemAt
      dsimp only
      split
      next =>
        rw [mapIdentities_eq_map, List.getElem?_map]
        cases items[p.toNat]? <;> rfl
      next => rfl

theorem itemProperty_mapIdentities (items : List (Value ι)) (key : Value ι) :
    itemProperty (mapIdentities f items) (mapIdentity f key) =
      mapIdentity f <$> itemProperty items key := by
  by_cases hkey : key = .str "length"
  · subst hkey
    simp [mapIdentity, itemProperty, mapIdentities_eq_map]
  · have hother : mapIdentity f key ≠ .str "length" := by
      cases key with
      | scalar s =>
          intro heq
          simp only [mapIdentity, scalar.injEq] at heq
          exact hkey (by rw [heq])
      | _ => nofun
    rw [itemProperty_of_ne hkey, itemProperty_of_ne hother, position?_mapIdentity, Functor.map_map]
    congr 1
    funext position
    exact itemAt_mapIdentities f items position

theorem entryProperty_mapEntryIdentities (entries : Entries ι) (key : Value ι) :
    entryProperty (mapEntryIdentities f entries) (mapIdentity f key) =
      mapIdentity f <$> entryProperty entries key := by
  cases key with
  | scalar s =>
      cases s with
      | str name =>
          rw [mapIdentity, entryProperty_name, entryProperty_name, Entries.get?_mapEntryIdentities,
            mapEntryIdentities_eq_map, List.length_map]
          unfold lengthNamed
          cases Entries.get? entries (.str name) with
          | none => split <;> rfl
          | some value => rfl
      | number n =>
          simp only [mapIdentity, entryProperty, toKey?, Entries.get?_mapEntryIdentities]
          cases Entries.get? entries (.scalar (.number n)) with
          | some value => rfl
          | none =>
              cases Entries.get? entries (.str n.toText) <;> rfl
      | _ =>
          simp only [mapIdentity, entryProperty, toKey?, Entries.get?_mapEntryIdentities]
          cases Entries.get? entries _ <;> rfl
  | tuple items =>
      unfold entryProperty
      rw [toKey?_mapIdentity]
      cases toKey? (.tuple items) with
      | none => rfl
      | some key =>
          simp only [mapIdentity, Entries.get?_mapEntryIdentities]
          cases Entries.get? entries key <;> rfl
  | _ => rfl

theorem getProperty_mapIdentity (value key : Value ι) :
    getProperty (mapIdentity f value) (mapIdentity f key) =
      mapIdentity f <$> getProperty value key := by
  cases value with
  | scalar s =>
      cases s with
      | str s =>
          have hchars : (s.toList.map fun c => .str (String.ofList [c])) = mapIdentities f
              (s.toList.map fun c => .str (String.ofList [c])) := by
            simp [mapIdentities_eq_map, mapIdentity]
          change itemProperty _ _ = mapIdentity f <$> itemProperty _ _
          rw [hchars]
          exact itemProperty_mapIdentities f _ key
      | _ => rfl
  | tuple items => exact itemProperty_mapIdentities f items key
  | set members => rfl
  | list _ items => exact itemProperty_mapIdentities f items key
  | map _ entries => exact entryProperty_mapEntryIdentities f entries key

theorem lookupPath_mapIdentity (value : Value ι) (path : List String) :
    lookupPath (mapIdentity f value) path = mapIdentity f <$> lookupPath value path := by
  induction path generalizing value with
  | nil => rfl
  | cons segment rest ih =>
      have hproperty := getProperty_mapIdentity f value (.str segment)
      rw [mapIdentity] at hproperty
      simp only [lookupPath_cons, hproperty, bind_map_left, map_bind, ih]

end

end Value

end Transclude
