import Mathlib
import Transclude.Proofs.Overlay

/-! # Merges in another grouping

Three mappings merged from the left and from the right hold the same, unless the
middle one has something other than a mapping at a path where the outer two have
mappings: from the left it hides the lower mapping, from the right the outer two
are merged there. The same goes for a mapping over which several are merged, in
turn or all together. Mappings are compared by what paths of keys lead to, with
the order of their keys or without. -/

namespace Transclude

variable {ι κ : Type}

/-! ## Paths into mappings -/

/-- What stands at the end of a path of keys through mappings. -/
def Value.at? (value : Value ι) : List Key → Option (Value ι)
  | [] => some value
  | key :: path =>
    match value with
    | .map _ entries => (Entries.get? entries key).bind fun inner => inner.at? path
    | _ => none

/-- All mappings that a path leads to have different keys. -/
def Value.WellKeyed (value : Value ι) : Prop :=
  ∀ path identity entries, value.at? path = some (.map identity entries) →
    Key.Distinct (Entries.keys entries)

/-- At a path the outer two of three values have mappings, and the middle one something else. -/
structure Value.HiddenAt (base middle top : Value ι) (path : List Key) (lower upper : Entries ι) :
    Prop where
  below : ∃ identity, base.at? path = some (.map identity lower)
  between : ∃ value, middle.at? path = some value ∧ value.isMap = false
  above : ∃ identity, top.at? path = some (.map identity upper)

namespace Value

theorem at?_map_cons (identity : ι) (entries : Entries ι) (key : Key) (path : List Key) :
    at? (.map identity entries) (key :: path) =
      (Entries.get? entries key).bind fun inner => inner.at? path := rfl

theorem at?_of_not_isMap {value : Value ι} (h : value.isMap = false) (key : Key)
    (path : List Key) : at? value (key :: path) = none := by
  cases value with
  | map identity entries => cases h
  | _ => rfl

theorem eq_map_of_isMap {value : Content} (h : value.isMap = true) :
    ∃ entries, value = .map () entries := by
  cases value with
  | map identity entries => exact ⟨entries, rfl⟩
  | _ => cases h

theorem eq_map_of_at?_cons {value : Content} {key : Key} {path : List Key} {inner : Content}
    (h : at? value (key :: path) = some inner) : ∃ entries, value = .map () entries := by
  cases value with
  | map identity entries => exact ⟨entries, rfl⟩
  | _ => cases h

theorem at?_mapIdentity (f : ι → κ) (value : Value ι) (path : List Key) :
    at? (mapIdentity f value) path = (at? value path).map (mapIdentity f) := by
  induction path generalizing value with
  | nil => rfl
  | cons key rest ih =>
      cases value with
      | map identity entries =>
          rw [mapIdentity, at?_map_cons, at?_map_cons, Entries.get?_mapEntryIdentities]
          cases Entries.get? entries key with
          | none => rfl
          | some inner => exact ih inner
      | _ => rfl

theorem isMap_mapIdentity (f : ι → κ) (value : Value ι) :
    (mapIdentity f value).isMap = value.isMap := by
  cases value <;> rfl

theorem mapIdentity_eq_map {f : ι → κ} {value : Value ι} {identity : κ} {entries : Entries κ}
    (h : mapIdentity f value = .map identity entries) :
    ∃ identity' entries', value = .map identity' entries' ∧
      mapEntryIdentities f entries' = entries := by
  cases value with
  | map identity' entries' =>
      rw [mapIdentity] at h
      cases h
      exact ⟨identity', entries', rfl, rfl⟩
  | _ => simp [mapIdentity] at h

theorem WellKeyed.mapIdentity {value : Value ι} (h : value.WellKeyed) (f : ι → κ) :
    (Value.mapIdentity f value).WellKeyed := by
  intro path identity entries hpath
  rw [at?_mapIdentity, Option.map_eq_some_iff] at hpath
  obtain ⟨inner, hinner, heq⟩ := hpath
  obtain ⟨identity', entries', rfl, rfl⟩ := mapIdentity_eq_map heq
  rw [Entries.keys_mapEntryIdentities]
  exact h path identity' entries' hinner

theorem WellKeyed.distinct {identity : ι} {entries : Entries ι}
    (h : (Value.map identity entries).WellKeyed) : Key.Distinct (Entries.keys entries) :=
  h [] identity entries rfl

/-- What is found in a mapping has different keys as the mapping does. -/
theorem WellKeyed.get? {identity : ι} {entries : Entries ι}
    (h : (Value.map identity entries).WellKeyed) {key : Key} {value : Value ι}
    (hvalue : Entries.get? entries key = some value) : value.WellKeyed := by
  intro path identity' inner hpath
  refine h (key :: path) identity' inner ?_
  rw [at?_map_cons, hvalue]
  exact hpath

theorem WellKeyed.of_not_isMap {value : Value ι} (h : value.isMap = false) : value.WellKeyed := by
  intro path identity entries hpath
  cases path with
  | nil =>
      cases hpath
      cases h
  | cons key rest =>
      rw [at?_of_not_isMap h] at hpath
      cases hpath

/-- A mapping is made of different keys, and values that are. -/
theorem WellKeyed.map {identity : ι} {entries : Entries ι}
    (hdistinct : Key.Distinct (Entries.keys entries))
    (hvalues : ∀ key value, Entries.get? entries key = some value → value.WellKeyed) :
    (Value.map identity entries).WellKeyed := by
  intro path identity' inner hpath
  cases path with
  | nil =>
      cases hpath
      exact hdistinct
  | cons key rest =>
      rw [at?_map_cons, Option.bind_eq_some_iff] at hpath
      obtain ⟨value, hvalue, hrest⟩ := hpath
      exact hvalues key value hvalue rest identity' inner hrest

theorem hiddenAt_mapIdentity (f : ι → κ) {base middle top : Value ι} {path : List Key}
    {lower upper : Entries κ} :
    HiddenAt (mapIdentity f base) (mapIdentity f middle) (mapIdentity f top) path lower upper ↔
      ∃ lower' upper', HiddenAt base middle top path lower' upper' ∧
        mapEntryIdentities f lower' = lower ∧ mapEntryIdentities f upper' = upper := by
  constructor
  · rintro ⟨⟨i, hbelow⟩, ⟨value, hbetween, hvalue⟩, ⟨j, habove⟩⟩
    rw [at?_mapIdentity, Option.map_eq_some_iff] at hbelow hbetween habove
    obtain ⟨inner, hbelow, heq⟩ := hbelow
    obtain ⟨i', lower', rfl, rfl⟩ := mapIdentity_eq_map heq
    obtain ⟨value, hbetween, rfl⟩ := hbetween
    obtain ⟨inner, habove, heq⟩ := habove
    obtain ⟨j', upper', rfl, rfl⟩ := mapIdentity_eq_map heq
    rw [isMap_mapIdentity] at hvalue
    exact ⟨lower', upper', ⟨⟨i', hbelow⟩, ⟨value, hbetween, hvalue⟩, ⟨j', habove⟩⟩, rfl, rfl⟩
  · rintro ⟨lower', upper', ⟨⟨i, hbelow⟩, ⟨value, hbetween, hvalue⟩, ⟨j, habove⟩⟩, rfl, rfl⟩
    refine ⟨⟨f i, ?_⟩, ⟨mapIdentity f value, ?_, ?_⟩, ⟨f j, ?_⟩⟩
    · rw [at?_mapIdentity, hbelow]; rfl
    · rw [at?_mapIdentity, hbetween]; rfl
    · rwa [isMap_mapIdentity]
    · rw [at?_mapIdentity, habove]; rfl

/-- Nothing is hidden at the root of mappings, and further down what is hidden at a key. -/
theorem hiddenAt_cons_iff {i j k : ι} {base middle top : Entries ι} {key : Key} {path : List Key}
    {lower upper : Entries ι} :
    HiddenAt (.map i base) (.map j middle) (.map k top) (key :: path) lower upper ↔
      ∃ a b c, Entries.get? base key = some a ∧ Entries.get? middle key = some b ∧
        Entries.get? top key = some c ∧ HiddenAt a b c path lower upper := by
  constructor
  · rintro ⟨⟨i, hbelow⟩, ⟨value, hbetween, hvalue⟩, ⟨j, habove⟩⟩
    rw [at?_map_cons, Option.bind_eq_some_iff] at hbelow hbetween habove
    obtain ⟨a, ha, hbelow⟩ := hbelow
    obtain ⟨b, hb, hbetween⟩ := hbetween
    obtain ⟨c, hc, habove⟩ := habove
    exact ⟨a, b, c, ha, hb, hc, ⟨i, hbelow⟩, ⟨value, hbetween, hvalue⟩, ⟨j, habove⟩⟩
  · rintro ⟨a, b, c, ha, hb, hc, ⟨i, hbelow⟩, ⟨value, hbetween, hvalue⟩, ⟨j, habove⟩⟩
    refine ⟨⟨i, ?_⟩, ⟨value, ?_, hvalue⟩, ⟨j, ?_⟩⟩
    · rw [at?_map_cons, ha]; exact hbelow
    · rw [at?_map_cons, hb]; exact hbetween
    · rw [at?_map_cons, hc]; exact habove

theorem not_hiddenAt_nil {i : ι} {middle : Entries ι} {base top : Value ι}
    {lower upper : Entries ι} : ¬ HiddenAt base (.map i middle) top [] lower upper := by
  rintro ⟨_, ⟨value, hvalue, hmap⟩, _⟩
  cases hvalue
  cases hmap

end Value

/-! ## Mappings that hold the same -/

namespace Value

/-- What is compared at the end of a path: the keys of a mapping, if their order counts, with its
entries that no path leads to, and any other value as it is. -/
def look (ordered : Bool) : Content → (List Key × Entries Unit) ⊕ Content
  | .map _ entries => .inl (if ordered then Entries.keys entries else [], Entries.strays entries)
  | value => .inr value

/-- Each path leads to the same in two values, if there are any. -/
def Alike (ordered : Bool) (first second : Option Content) : Prop :=
  ∀ path, (first.bind fun value => value.at? path).map (look ordered) =
    (second.bind fun value => value.at? path).map (look ordered)

theorem look_of_not_isMap {value : Content} (h : value.isMap = false) (ordered : Bool) :
    look ordered value = .inr value := by
  cases value with
  | map identity entries => cases h
  | _ => rfl

namespace Alike

variable {ordered : Bool} {first second third : Option Content}

theorem refl (ordered : Bool) (value : Option Content) : Alike ordered value value :=
  fun _ => rfl

theorem symm (h : Alike ordered first second) : Alike ordered second first :=
  fun path => (h path).symm

theorem trans (h : Alike ordered first second) (h' : Alike ordered second third) :
    Alike ordered first third := fun path => (h path).trans (h' path)

/-- Mappings hold the same if they look the same and hold the same at each key. -/
theorem maps_iff {a b : Entries Unit} :
    Alike ordered (some (.map () a)) (some (.map () b)) ↔
      look ordered (.map () a) = look ordered (.map () b) ∧
        ∀ key, Alike ordered (Entries.get? a key) (Entries.get? b key) := by
  constructor
  · intro h
    exact ⟨Option.some.inj (h []), fun key path => h (key :: path)⟩
  · rintro ⟨hlook, hkeys⟩ path
    cases path with
    | nil => exact congrArg some hlook
    | cons key rest => exact hkeys key rest

/-- What is like a mapping is one. -/
theorem exists_map {a : Entries Unit} (h : Alike ordered (some (.map () a)) second) :
    ∃ b, second = some (.map () b) := by
  have hlook := h []
  cases second with
  | none => cases hlook
  | some value =>
      cases hmap : value.isMap with
      | true =>
          obtain ⟨b, rfl⟩ := eq_map_of_isMap hmap
          exact ⟨b, rfl⟩
      | false =>
          have heq : some (look ordered (.map () a)) = some (look ordered value) := hlook
          rw [look_of_not_isMap hmap] at heq
          cases heq

/-- What is like something other than a mapping is the same. -/
theorem eq_of_ne_map (h : Alike ordered first second) (hfirst : ∀ a, first ≠ some (.map () a)) :
    first = second := by
  have hlook := h []
  cases second with
  | none =>
      cases first with
      | none => rfl
      | some value => cases hlook
  | some value =>
      cases first with
      | none => cases hlook
      | some value' =>
          have hmap' : value'.isMap = false := by
            cases hmap' : value'.isMap with
            | false => rfl
            | true =>
                obtain ⟨a, rfl⟩ := eq_map_of_isMap hmap'
                cases hfirst a rfl
          have hmap : value.isMap = false := by
            cases hmap : value.isMap with
            | false => rfl
            | true =>
                obtain ⟨b, rfl⟩ := eq_map_of_isMap hmap
                obtain ⟨a, ha⟩ := h.symm.exists_map
                cases hfirst a ha
          have heq : some (look ordered value') = some (look ordered value) := hlook
          rw [look_of_not_isMap hmap, look_of_not_isMap hmap'] at heq
          cases heq
          rfl

end Alike

end Value

namespace Entries

open Value

/-- Mappings of different keys at all depths. -/
abbrev WellKeyed (entries : Entries Unit) : Prop := (Value.map () entries).WellKeyed

/-- Two mappings hold the same, and in the same order if that counts. -/
abbrev Alike (ordered : Bool) (first second : Entries Unit) : Prop :=
  Value.Alike ordered (some (.map () first)) (some (.map () second))

theorem sizeOf_get?_lt {entries : Entries Unit} {key : Key} {value : Content}
    (h : get? entries key = some value) : sizeOf value < sizeOf entries := by
  induction entries with
  | nil => cases h
  | cons entry rest ih =>
      obtain ⟨k, v⟩ := entry
      rw [get?_cons] at h
      split at h
      next =>
        cases h
        simp
        omega
      next =>
        have hlt := ih h
        simp
        omega

/-- Mappings that hold the same in the same order are the same. -/
theorem eq_of_alike {first second : Entries Unit} (hfirst : first.WellKeyed)
    (h : Alike true first second) : first = second := by
  obtain ⟨hlook, hkeys⟩ := Alike.maps_iff.mp h
  obtain ⟨horder, hstrays⟩ := Prod.mk.inj (Sum.inl.inj hlook)
  refine ext_keys hfirst.distinct horder hstrays fun key => ?_
  by_cases hmap : ∃ a, get? first key = some (.map () a)
  · obtain ⟨a, ha⟩ := hmap
    have hinner := hkeys key
    rw [ha] at hinner
    obtain ⟨b, hb⟩ := hinner.exists_map
    rw [hb] at hinner
    have hlt := sizeOf_get?_lt ha
    rw [ha, hb, eq_of_alike (hfirst.get? ha) hinner]
  · exact (hkeys key).eq_of_ne_map fun a ha => hmap ⟨a, ha⟩
termination_by sizeOf first
decreasing_by
  simp only [Value.map.sizeOf_spec] at hlt
  omega

end Entries

/-! ## Three mappings -/

namespace Entries

open Value

variable {ordered : Bool}

theorem keys_overlay_overlay (base middle top : Entries Unit) :
    keys (overlay (overlay base middle) top) = keys (overlay base (overlay middle top)) := by
  rw [keys_overlay, keys_overlay, keys_overlay, keys_overlay, Key.foldl_add_assoc]

theorem above_maps (lower upper : Entries Unit) :
    above (some (.map () lower)) (some (.map () upper)) = some (.map () (overlay lower upper)) := by
  rw [above, laidOver_map]

/-- A value that is no mapping counts for nothing below a mapping. -/
theorem above_of_below {below : Option Content} (h : ∀ lower, below ≠ some (.map () lower))
    (value : Content) : above below (some value) = some value := by
  rw [above, laidOver_of_below h]

theorem ne_map_of_not_isMap {value : Content} (h : value.isMap = false) (lower : Entries Unit) :
    some value ≠ some (.map () lower) := by
  rintro ⟨⟩
  cases h

/-- A value that is no mapping hides what is below it from a mapping above. -/
theorem above_above_of_not_isMap (a : Option Content) {b : Content} (hb : b.isMap = false)
    (upper : Entries Unit) :
    above (above a (some b)) (some (.map () upper)) = some (.map () upper) := by
  have hb' : above a (some b) = some b := congrArg some (laidOver_of_not_isMap hb a)
  rw [hb']
  exact above_of_below (ne_map_of_not_isMap hb) _

/-- Three values may be grouped as one likes, unless the middle one stands between two mappings. -/
theorem above_above {a b c : Option Content}
    (h : ∀ lower upper, a = some (.map () lower) → c = some (.map () upper) → b = none) :
    above (above a b) c = above a (above b c) := by
  cases c with
  | none => rfl
  | some c =>
      cases b with
      | none =>
          have hnone : above none (some c) = some c := above_of_below (fun _ h => by cases h) c
          rw [hnone]
          rfl
      | some b =>
          cases hc : c.isMap with
          | false => simp only [above, laidOver_of_not_isMap hc]
          | true =>
              obtain ⟨upper, rfl⟩ := eq_map_of_isMap hc
              have hbelow : ∀ lower, a ≠ some (.map () lower) := by
                intro lower ha
                cases h lower upper ha rfl
              -- whatever lies above it, what is below is no mapping
              rw [above_of_below hbelow]
              exact (above_of_below hbelow _).symm

/-- Overlays have the same keys in the same order, whichever way they are grouped. -/
theorem look_overlay_overlay (base middle top : Entries Unit) :
    look ordered (.map () (overlay (overlay base middle) top)) =
      look ordered (.map () (overlay base (overlay middle top))) := by
  rw [look, look, keys_overlay_overlay, strays_overlay, strays_overlay, strays_overlay,
    strays_overlay, List.append_assoc]

/-- If both groupings hold the same, then a mapping that the middle one hides would add nothing. -/
theorem overlay_of_hiddenAt {base middle top : Entries Unit} (hmiddle : middle.WellKeyed)
    (htop : top.WellKeyed)
    (heq : Alike ordered (overlay (overlay base middle) top) (overlay base (overlay middle top)))
    {path : List Key} {lower upper : Entries Unit}
    (hhidden : HiddenAt (.map () base) (.map () middle) (.map () top) path lower upper) :
    Alike ordered (overlay lower upper) upper := by
  induction path generalizing base middle top with
  | nil => exact (not_hiddenAt_nil hhidden).elim
  | cons key rest ih =>
      obtain ⟨a, b, c, ha, hb, hc, hinner⟩ := hiddenAt_cons_iff.mp hhidden
      have hvalues := (Alike.maps_iff.mp heq).2 key
      rw [get?_overlay htop.distinct, get?_overlay hmiddle.distinct,
        get?_overlay (distinct_overlay hmiddle.distinct top), get?_overlay htop.distinct,
        ha, hb, hc] at hvalues
      cases rest with
      | nil =>
          obtain ⟨⟨_, hbelow⟩, ⟨value, hbetween, hvalue⟩, ⟨_, habove⟩⟩ := hinner
          cases hbelow
          cases hbetween
          cases habove
          rw [above_above_of_not_isMap _ hvalue, above_of_below (ne_map_of_not_isMap hvalue),
            above_maps] at hvalues
          exact hvalues.symm
      | cons key' rest' =>
          -- the path goes on, so that there are mappings at the key in all three
          obtain ⟨⟨_, hbelow⟩, ⟨value, hbetween, _⟩, ⟨_, habove⟩⟩ := id hinner
          obtain ⟨lower', rfl⟩ := eq_map_of_at?_cons hbelow
          obtain ⟨inner, rfl⟩ := eq_map_of_at?_cons hbetween
          obtain ⟨upper', rfl⟩ := eq_map_of_at?_cons habove
          rw [above_maps, above_maps, above_maps, above_maps] at hvalues
          exact ih (hmiddle.get? hb) (htop.get? hc) hvalues hinner

/-- The two groupings hold the same if each mapping that the middle one hides would add nothing. -/
theorem overlay_overlay_of_hiddenAt {base middle top : Entries Unit} (hmiddle : middle.WellKeyed)
    (htop : top.WellKeyed)
    (h : ∀ path lower upper,
      HiddenAt (.map () base) (.map () middle) (.map () top) path lower upper →
        Alike ordered (overlay lower upper) upper) :
    Alike ordered (overlay (overlay base middle) top) (overlay base (overlay middle top)) := by
  refine Alike.maps_iff.mpr ⟨look_overlay_overlay base middle top, fun key => ?_⟩
  rw [get?_overlay htop.distinct, get?_overlay hmiddle.distinct,
    get?_overlay (distinct_overlay hmiddle.distinct top), get?_overlay htop.distinct]
  -- the grouping counts only where there are mappings above and below
  by_cases hmaps : ∃ lower b upper, get? base key = some (.map () lower) ∧
      get? middle key = some b ∧ get? top key = some (.map () upper)
  · obtain ⟨lower, b, upper, ha, hb, hc⟩ := hmaps
    rw [ha, hb, hc]
    cases hmap : b.isMap with
    | false =>
        have hadds := h [key] lower upper (hiddenAt_cons_iff.mpr
          ⟨_, b, _, ha, hb, hc, ⟨(), rfl⟩, ⟨b, rfl, hmap⟩, ⟨(), rfl⟩⟩)
        rw [above_above_of_not_isMap _ hmap, above_of_below (ne_map_of_not_isMap hmap),
          above_maps]
        exact hadds.symm
    | true =>
        obtain ⟨inner, rfl⟩ := eq_map_of_isMap hmap
        rw [above_maps, above_maps, above_maps, above_maps]
        have hlt := sizeOf_get?_lt hc
        refine overlay_overlay_of_hiddenAt (hmiddle.get? hb) (htop.get? hc) ?_
        intro path lower' upper' hhidden
        exact h (key :: path) lower' upper' (hiddenAt_cons_iff.mpr ⟨_, _, _, ha, hb, hc, hhidden⟩)
  · rw [above_above fun lower upper ha hc => ?_]
    · exact Alike.refl ordered _
    · cases hb : get? middle key with
      | none => rfl
      | some b => exact (hmaps ⟨lower, b, upper, ha, hb, hc⟩).elim
termination_by sizeOf top
decreasing_by
  simp only [Value.map.sizeOf_spec] at hlt
  omega

/-- One mapping laid over two that hold the same. -/
theorem alike_overlay {first second upper : Entries Unit} (hupper : upper.WellKeyed)
    (h : Alike ordered first second) :
    Alike ordered (overlay first upper) (overlay second upper) := by
  obtain ⟨hlook, hkeys⟩ := Alike.maps_iff.mp h
  refine Alike.maps_iff.mpr ⟨?_, fun key => ?_⟩
  · obtain ⟨horder, hstrays⟩ := Prod.mk.inj (Sum.inl.inj hlook)
    rw [look, look, keys_overlay, keys_overlay, strays_overlay, strays_overlay, hstrays]
    cases ordered with
    | false => rfl
    | true =>
        have hkeys : keys first = keys second := horder
        rw [hkeys]
  · rw [get?_overlay hupper.distinct, get?_overlay hupper.distinct]
    have hlower := hkeys key
    cases hu : get? upper key with
    | none => exact hlower
    | some value =>
        by_cases hmap : ∃ a, get? first key = some (.map () a)
        · obtain ⟨a, ha⟩ := hmap
          rw [ha] at hlower
          obtain ⟨b, hb⟩ := hlower.exists_map
          rw [hb] at hlower
          rw [ha, hb]
          cases hvalue : value.isMap with
          | false =>
              rw [above, above, laidOver_of_not_isMap hvalue, laidOver_of_not_isMap hvalue]
              exact Alike.refl ordered _
          | true =>
              obtain ⟨u, rfl⟩ := eq_map_of_isMap hvalue
              have hlt := sizeOf_get?_lt hu
              rw [above_maps, above_maps]
              exact alike_overlay (hupper.get? hu) hlower
        · rw [hlower.eq_of_ne_map fun a ha => hmap ⟨a, ha⟩]
          exact Alike.refl ordered _
termination_by sizeOf upper
decreasing_by
  simp only [Value.map.sizeOf_spec] at hlt
  omega

/-! ## Several mappings -/

/-- What stands at a key after one mapping has been laid over another. -/
theorem get?_overlay_cases {lower upper : Entries Unit} (hupper : Key.Distinct (keys upper))
    {key : Key} {value : Content} (h : get? (overlay lower upper) key = some value) :
    get? lower key = some value ∨ get? upper key = some value ∨
      ∃ l u, get? lower key = some (.map () l) ∧ get? upper key = some (.map () u) ∧
        value = .map () (overlay l u) := by
  rw [get?_overlay hupper] at h
  cases hu : get? upper key with
  | none =>
      rw [hu] at h
      exact Or.inl h
  | some v =>
      rw [hu] at h
      by_cases hmap : v.isMap = true
      · obtain ⟨u, rfl⟩ := eq_map_of_isMap hmap
        by_cases hlower : ∃ l, get? lower key = some (.map () l)
        · obtain ⟨l, hl⟩ := hlower
          rw [hl, above_maps] at h
          exact Or.inr (Or.inr ⟨l, u, hl, rfl, (Option.some.inj h).symm⟩)
        · rw [above_of_below fun l hl => hlower ⟨l, hl⟩] at h
          exact Or.inr (Or.inl h)
      · rw [above, laidOver_of_not_isMap (Bool.eq_false_of_not_eq_true hmap)] at h
        exact Or.inr (Or.inl h)

theorem wellKeyed_nil : WellKeyed [] := by
  intro path identity entries h
  cases path with
  | nil =>
      cases h
      exact List.Pairwise.nil
  | cons key rest => cases h

theorem wellKeyed_overlay {lower upper : Entries Unit} (hlower : lower.WellKeyed)
    (hupper : upper.WellKeyed) : (overlay lower upper).WellKeyed := by
  intro path identity entries h
  induction path generalizing lower upper with
  | nil =>
      cases h
      exact distinct_overlay hlower.distinct upper
  | cons key rest ih =>
      rw [at?_map_cons, Option.bind_eq_some_iff] at h
      obtain ⟨value, hvalue, hrest⟩ := h
      obtain hl | hu | ⟨l, u, hl, hu, rfl⟩ := get?_overlay_cases hupper.distinct hvalue
      · exact hlower.get? hl rest identity entries hrest
      · exact hupper.get? hu rest identity entries hrest
      · exact ih (hlower.get? hl) (hupper.get? hu) hrest

/-- What is no mapping after one mapping has been laid over another comes from one of them. -/
theorem at?_overlay_cases {lower upper : Entries Unit} (hlower : lower.WellKeyed)
    (hupper : upper.WellKeyed) {path : List Key} {value : Content} (hvalue : value.isMap = false)
    (h : at? (.map () (overlay lower upper)) path = some value) :
    at? (.map () lower) path = some value ∨ at? (.map () upper) path = some value := by
  induction path generalizing lower upper with
  | nil =>
      cases h
      cases hvalue
  | cons key rest ih =>
      rw [at?_map_cons, Option.bind_eq_some_iff] at h
      obtain ⟨inner, hinner, hrest⟩ := h
      rw [at?_map_cons, at?_map_cons]
      obtain hl | hu | ⟨l, u, hl, hu, rfl⟩ := get?_overlay_cases hupper.distinct hinner
      · rw [hl]
        exact Or.inl hrest
      · rw [hu]
        exact Or.inr hrest
      · rw [hl, hu]
        exact ih (hlower.get? hl) (hupper.get? hu) hrest

variable {mappings : List (Entries Unit)}

theorem wellKeyed_foldl_overlay {base : Entries Unit} (hbase : base.WellKeyed)
    (h : ∀ mapping ∈ mappings, mapping.WellKeyed) : (mappings.foldl overlay base).WellKeyed := by
  induction mappings generalizing base with
  | nil => exact hbase
  | cons first rest ih =>
      exact ih (wellKeyed_overlay hbase (h first List.mem_cons_self)) fun mapping hmapping =>
        h mapping (List.mem_cons_of_mem _ hmapping)

theorem exists_of_at?_foldl_overlay (h : ∀ mapping ∈ mappings, mapping.WellKeyed)
    {path : List Key} {value : Content} (hvalue : value.isMap = false)
    (hpath : at? (.map () (mappings.foldl overlay [])) path = some value) :
    ∃ mapping ∈ mappings, at? (.map () mapping) path = some value := by
  induction mappings using List.reverseRecOn with
  | nil =>
      cases path with
      | nil =>
          cases hpath
          cases hvalue
      | cons key rest => cases hpath
  | append_singleton first last ih =>
      have hfirst : ∀ mapping ∈ first, mapping.WellKeyed := fun mapping hmapping =>
        h mapping (List.mem_append_left _ hmapping)
      have hlast : last.WellKeyed := h last (by simp)
      rw [List.foldl_append, List.foldl_cons, List.foldl_nil] at hpath
      obtain hfound | hfound :=
        at?_overlay_cases (wellKeyed_foldl_overlay wellKeyed_nil hfirst) hlast hvalue hpath
      · obtain ⟨mapping, hmapping, hat⟩ := ih hfirst hfound
        exact ⟨mapping, List.mem_append_left _ hmapping, hat⟩
      · exact ⟨last, by simp, hfound⟩

/-- Mappings laid over another one in turn, or all together, if no earlier one hides anything from a
later one that would be added to it. -/
theorem foldl_overlay {base : Entries Unit} (h : ∀ mapping ∈ mappings, mapping.WellKeyed)
    (hhidden : mappings.Pairwise fun earlier later => ∀ path lower upper,
      HiddenAt (.map () base) (.map () earlier) (.map () later) path lower upper →
        Alike ordered (overlay lower upper) upper) :
    Alike ordered (mappings.foldl overlay base) (overlay base (mappings.foldl overlay [])) := by
  induction mappings using List.reverseRecOn with
  | nil =>
      rw [List.foldl_nil, List.foldl_nil, overlay]
      exact Alike.refl ordered _
  | append_singleton first last ih =>
      have hfirst : ∀ mapping ∈ first, mapping.WellKeyed := fun mapping hmapping =>
        h mapping (List.mem_append_left _ hmapping)
      have hlast : last.WellKeyed := h last (by simp)
      obtain ⟨hbefore, _, hlater⟩ := List.pairwise_append.mp hhidden
      rw [List.foldl_append, List.foldl_append]
      refine (alike_overlay hlast (ih hfirst hbefore)).trans ?_
      refine overlay_overlay_of_hiddenAt (wellKeyed_foldl_overlay wellKeyed_nil hfirst) hlast ?_
      rintro path lower upper ⟨hbelow, ⟨value, hbetween, hvalue⟩, habove⟩
      -- what hides the lower mapping has come from one of the earlier ones
      obtain ⟨mapping, hmapping, hat⟩ := exists_of_at?_foldl_overlay hfirst hvalue hbetween
      exact hlater mapping hmapping last (by simp) path lower upper
        ⟨hbelow, ⟨value, hat, hvalue⟩, habove⟩

end Entries

/-! ## Merges of data -/

namespace Data

/-- The mappings in data have different keys. -/
def WellKeyed (data : Data) : Prop := (Value.map (.ofPlace []) data : Datum).WellKeyed

/-- Two mappings of data hold the same, and in the same order if that counts. -/
def Alike (ordered : Bool) (first second : Data) : Prop :=
  Entries.Alike ordered first.contents second.contents

/-- Where the middle one of three mappings of data hides something of the lower one from the upper
one, it would add nothing there. -/
def Regroups (ordered : Bool) (base middle top : Data) : Prop :=
  ∀ path lower upper,
    Value.HiddenAt (.map (.ofPlace []) base : Datum) (.map (.ofPlace []) middle)
      (.map (.ofPlace []) top) path lower upper →
    Alike ordered (merge lower upper) upper

variable {ordered : Bool} {base middle top : Data}

theorem WellKeyed.contents (h : base.WellKeyed) : base.contents.WellKeyed :=
  Value.WellKeyed.mapIdentity h fun _ => ()

/-- What holds the same in the same order has the same contents. -/
theorem alike_true_iff (hbase : base.WellKeyed) :
    Alike true base top ↔ base.contents = top.contents := by
  constructor
  · exact Entries.eq_of_alike hbase.contents
  · intro h
    rw [Alike, h]
    exact Value.Alike.refl true _

theorem regroups_iff : Regroups ordered base middle top ↔
    ∀ path lower upper, Value.HiddenAt (.map () base.contents) (.map () middle.contents)
      (.map () top.contents) path lower upper →
        Entries.Alike ordered (Entries.overlay lower upper) upper := by
  have hpaths := @Value.hiddenAt_mapIdentity _ _ (fun _ : Mark => ())
    (.map (.ofPlace []) base) (.map (.ofPlace []) middle) (.map (.ofPlace []) top)
  constructor
  · intro h path lower upper hhidden
    obtain ⟨lower', upper', hhidden', rfl, rfl⟩ := hpaths.mp hhidden
    have hadds := h path lower' upper' hhidden'
    rwa [Alike, contents_merge] at hadds
  · intro h path lower upper hhidden
    rw [Alike, contents_merge]
    exact h path _ _ (hpaths.mpr ⟨lower, upper, hhidden, rfl, rfl⟩)

/-- Merges of three mappings from the left and from the right hold the same just when nothing that
the middle one hides would be added. -/
theorem alike_merge_merge_iff (hmiddle : middle.WellKeyed) (htop : top.WellKeyed) :
    Alike ordered ((base.merge middle).merge top) (base.merge (middle.merge top)) ↔
      Regroups ordered base middle top := by
  rw [Alike, contents_merge, contents_merge, contents_merge, contents_merge, regroups_iff]
  constructor
  · intro heq path lower upper hhidden
    exact Entries.overlay_of_hiddenAt hmiddle.contents htop.contents heq hhidden
  · exact Entries.overlay_overlay_of_hiddenAt hmiddle.contents htop.contents

theorem contents_foldl_merge (base : Data) (mappings : List Data) :
    (mappings.foldl merge base).contents =
      (mappings.map contents).foldl Entries.overlay base.contents := by
  induction mappings generalizing base with
  | nil => rfl
  | cons first rest ih => rw [List.foldl_cons, ih, contents_merge]; rfl

theorem derive_map_some (base : Data) (mappings : List Data) :
    base.derive (mappings.map some) = mappings.foldl merge base := by
  rw [derive, List.foldl_map]
  rfl

/-- Mappings merged in turn over another one, or all together, hold the same if they can be
regrouped. -/
theorem alike_merge_foldl {mappings : List Data} (h : ∀ mapping ∈ mappings, mapping.WellKeyed)
    (hregroups : mappings.Pairwise (Regroups ordered base)) :
    Alike ordered (base.merge (mappings.foldl merge [])) (base.derive (mappings.map some)) := by
  rw [Alike, contents_merge, derive_map_some, contents_foldl_merge, contents_foldl_merge]
  refine (Entries.foldl_overlay ?_ ?_).symm
  · intro mapping hmapping
    obtain ⟨data, hdata, rfl⟩ := List.mem_map.mp hmapping
    exact (h data hdata).contents
  · exact List.pairwise_map.mpr (hregroups.imp regroups_iff.mp)

end Data

end Transclude
