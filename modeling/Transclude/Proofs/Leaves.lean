import Mathlib
import Transclude.Proofs.Regrouping

/-! # Merges leaf by leaf

A path of keys leads into a merge where it leads into the mapping laid over, and also
where it leads into the lower one without meeting anything but mappings in the one
above. What is no mapping above stands in the merge as it is, and so does a mapping
with none below it; where nothing is above, the lower value stays. So a mapping laid
over itself, over nothing or below nothing gives what it was. -/

namespace Transclude

namespace Key

/-- Keys added one after the other are the further ones behind those that were there. -/
theorem foldl_add_eq_append {more : List Key} (hmore : Distinct more) (keys : List Key) :
    more.foldl add keys = keys ++ more.filter fun key => !keys.any fun other => other.same key := by
  induction more generalizing keys with
  | nil => exact (List.append_nil keys).symm
  | cons first rest ih =>
      obtain ⟨hfirst, hrest⟩ := List.pairwise_cons.mp hmore
      rw [List.foldl_cons, ih hrest, List.filter_cons]
      cases hfound : keys.any fun other => other.same first with
      | true =>
          have hadd : add keys first = keys := if_pos hfound
          rw [hadd, Bool.not_true, if_neg Bool.false_ne_true]
      | false =>
          have hadd : add keys first = keys ++ [first] := if_neg (Bool.eq_false_iff.mp hfound)
          rw [hadd, Bool.not_false, if_pos rfl, List.append_assoc, List.singleton_append]
          congr 2
          -- the first key is none of the others
          refine List.filter_congr fun key hkey => ?_
          rw [List.any_append, List.any_cons, List.any_nil, hfirst key hkey, Bool.or_false,
            Bool.or_false]

end Key

/-! ## Paths into an overlay -/

namespace Value

variable {ι : Type}

theorem at?_append (value : Value ι) (front back : List Key) :
    value.at? (front ++ back) = (value.at? front).bind fun inner => inner.at? back := by
  induction front generalizing value with
  | nil => rfl
  | cons key rest ih =>
      cases value with
      | map identity entries =>
          rw [List.cons_append, at?_map_cons, at?_map_cons, Option.bind_assoc]
          exact congrArg _ (funext ih)
      | _ => rfl

/-- Paths of equal keys lead to the same. -/
theorem at?_congr {first second : List Key}
    (h : List.Forall₂ (fun a b => a.same b = true) first second) (value : Value ι) :
    value.at? first = value.at? second := by
  induction h generalizing value with
  | nil => rfl
  | cons hkey _ ih =>
      cases value with
      | map identity entries =>
          rw [at?_map_cons, at?_map_cons, Entries.get?_congr hkey]
          exact congrArg _ (funext ih)
      | _ => rfl

/-- The keys of the mapping at the end of a path, in order; none where there is no mapping. -/
def keysAt (value : Value ι) (path : List Key) : List Key :=
  match value.at? path with
  | some (.map _ entries) => Entries.keys entries
  | _ => []

/-- What a path leads to has different keys as the whole does. -/
theorem WellKeyed.at? {value inner : Value ι} (h : value.WellKeyed) {path : List Key}
    (hinner : value.at? path = some inner) : inner.WellKeyed := by
  intro rest identity entries hrest
  refine h (path ++ rest) identity entries ?_
  rw [at?_append, hinner]
  exact hrest

/-- On its way a path meets nothing but mappings. -/
def Passes (value : Value ι) (path : List Key) : Prop :=
  ∀ front, front <+: path → front ≠ path → ∀ inner, value.at? front = some inner →
    inner.isMap = true

/-- A path that leads somewhere has passed through mappings. -/
theorem passes_of_at? {value inner : Value ι} {path : List Key} (h : value.at? path = some inner) :
    value.Passes path := by
  rintro front ⟨back, rfl⟩ hback passed hpassed
  rw [at?_append, hpassed, Option.bind_some] at h
  cases back with
  | nil => exact (hback (List.append_nil front).symm).elim
  | cons key rest =>
      by_contra hmap
      rw [at?_of_not_isMap (Bool.eq_false_of_not_eq_true hmap)] at h
      cases h

theorem Passes.get? {identity : ι} {entries : Entries ι} {key : Key} {path : List Key}
    (h : (Value.map identity entries).Passes (key :: path)) {inner : Value ι}
    (hinner : Entries.get? entries key = some inner) : inner.Passes path := by
  intro front hfront hne passed hpassed
  refine h (key :: front) ((List.prefix_cons_inj key).mpr hfront) ?_ passed ?_
  · exact fun heq => hne (List.cons.inj heq).2
  · rw [at?_map_cons, hinner]
    exact hpassed

theorem above_none (value : Option Content) : above none value = value := by
  cases value with
  | none => rfl
  | some value => exact Entries.above_of_below (fun _ h => by cases h) value

end Value

namespace Entries

open Value

variable {lower upper : Entries Unit} {path : List Key}

/-- At the end of a path through mappings stands what is laid over the lower value there. -/
theorem at?_overlay_of_passes (hupper : upper.WellKeyed)
    (hpath : (Value.map () upper).Passes path) :
    at? (.map () (overlay lower upper)) path =
      above (at? (.map () lower) path) (at? (.map () upper) path) := by
  induction path generalizing lower upper with
  | nil => exact (above_maps lower upper).symm
  | cons key rest ih =>
      rw [at?_map_cons, at?_map_cons, at?_map_cons, get?_overlay hupper.distinct]
      cases hu : get? upper key with
      | none => rfl
      | some value =>
          have hrest := hpath.get? hu
          cases rest with
          | nil => cases get? lower key <;> rfl
          | cons key' rest' =>
              -- the path goes on, so that it meets a mapping here
              obtain ⟨inner, rfl⟩ := eq_map_of_isMap
                (hrest [] (List.nil_prefix) (List.cons_ne_nil _ _).symm value rfl)
              by_cases hlower : ∃ below, get? lower key = some (.map () below)
              · obtain ⟨below, hl⟩ := hlower
                rw [hl, above_maps]
                exact ih (hupper.get? hu) hrest
              · have hnone : ((get? lower key).bind fun below => below.at? (key' :: rest')) =
                    none := by
                  cases hl : get? lower key with
                  | none => rfl
                  | some below =>
                      refine at?_of_not_isMap (Bool.eq_false_iff.mpr fun hmap => ?_) key' rest'
                      obtain ⟨inner, rfl⟩ := eq_map_of_isMap hmap
                      exact hlower ⟨inner, hl⟩
                rw [above_of_below fun below hl => hlower ⟨below, hl⟩, hnone, above_none]

/-- Nothing stands where the path has met something other than a mapping above. -/
theorem at?_overlay_of_not_passes (hupper : upper.WellKeyed)
    (hpath : ¬ (Value.map () upper).Passes path) :
    at? (.map () (overlay lower upper)) path = none := by
  unfold Passes at hpath
  push Not at hpath
  obtain ⟨front, ⟨back, rfl⟩, hback, inner, hinner, hmap⟩ := hpath
  rw [ne_eq, Bool.not_eq_true] at hmap
  rw [at?_append, at?_overlay_of_passes hupper (passes_of_at? hinner), hinner, above,
    laidOver_of_not_isMap hmap]
  cases back with
  | nil => exact (hback (List.append_nil front).symm).elim
  | cons key rest => exact at?_of_not_isMap hmap key rest

theorem passes_of_at?_overlay (hupper : upper.WellKeyed) {value : Content}
    (h : at? (.map () (overlay lower upper)) path = some value) :
    (Value.map () upper).Passes path := by
  by_contra hpath
  rw [at?_overlay_of_not_passes hupper hpath] at h
  cases h

/-- What stands in the upper mapping is laid over what stands in the lower one. -/
theorem at?_overlay_of_at? (hupper : upper.WellKeyed) {value : Content}
    (h : at? (.map () upper) path = some value) :
    at? (.map () (overlay lower upper)) path =
      some (laidOver (at? (.map () lower) path) value) := by
  rw [at?_overlay_of_passes hupper (passes_of_at? h), h, above]

/-- A path leads into an overlay where it leads into the upper mapping, or into the lower one and up
to its end to nothing but mappings above. -/
theorem isSome_at?_overlay (hupper : upper.WellKeyed) :
    (at? (.map () (overlay lower upper)) path).isSome = true ↔
      (at? (.map () upper) path).isSome = true ∨
        (at? (.map () lower) path).isSome = true ∧
          ∀ front, front <+: path → ∀ value, at? (.map () upper) front = some value →
            value.isMap = true := by
  constructor
  · intro h
    obtain ⟨value, hvalue⟩ := Option.isSome_iff_exists.mp h
    have hpath := passes_of_at?_overlay hupper hvalue
    rw [at?_overlay_of_passes hupper hpath] at h
    cases hu : at? (.map () upper) path with
    | some inner => exact Or.inl rfl
    | none =>
        rw [hu] at h
        refine Or.inr ⟨h, fun front hfront inner hinner => ?_⟩
        by_cases hwhole : front = path
        · rw [hwhole, hu] at hinner
          cases hinner
        · exact hpath front hfront hwhole inner hinner
  · rintro (h | ⟨h, hmaps⟩)
    · obtain ⟨value, hvalue⟩ := Option.isSome_iff_exists.mp h
      rw [at?_overlay_of_at? hupper hvalue]
      rfl
    · rw [at?_overlay_of_passes hupper fun front hfront _ => hmaps front hfront]
      cases at? (.map () upper) path with
      | none => exact h
      | some inner => rfl

/-- Further keys come behind those of the lower mapping. -/
theorem keys_overlay_eq_append (hupper : upper.WellKeyed) :
    keys (overlay lower upper) =
      keys lower ++ (keys upper).filter fun key => !(keys lower).any fun other => other.same key := by
  rw [keys_overlay, Key.foldl_add_eq_append hupper.distinct]

/-- In every mapping of an overlay the keys of the lower one are followed by further ones of the
upper one. -/
theorem keys_of_at?_overlay (hupper : upper.WellKeyed) {entries : Entries Unit}
    (h : at? (.map () (overlay lower upper)) path = some (.map () entries)) :
    keys entries = keysAt (.map () lower) path ++
      (keysAt (.map () upper) path).filter fun key =>
        !(keysAt (.map () lower) path).any fun other => other.same key := by
  rw [at?_overlay_of_passes hupper (passes_of_at?_overlay hupper h)] at h
  unfold keysAt
  cases hu : at? (.map () upper) path with
  | none =>
      rw [hu] at h
      rw [show at? (.map () lower) path = _ from h]
      exact (List.append_nil _).symm
  | some value =>
      rw [hu, above, Option.some.injEq] at h
      cases hmap : value.isMap with
      | false =>
          rw [laidOver_of_not_isMap hmap] at h
          rw [h] at hmap
          cases hmap
      | true =>
          obtain ⟨inner, rfl⟩ := eq_map_of_isMap hmap
          by_cases hlower : ∃ below, at? (.map () lower) path = some (.map () below)
          · obtain ⟨below, hl⟩ := hlower
            rw [hl, laidOver_map] at h
            cases h
            rw [hl]
            exact keys_overlay_eq_append (hupper.at? hu)
          · -- with no mapping below, the upper one stands as it is
            have hnone : keysAt (.map () lower) path = [] := by
              unfold keysAt
              split
              next _ below hl => exact (hlower ⟨below, hl⟩).elim
              next => rfl
            rw [laidOver_of_below fun below hl => hlower ⟨below, hl⟩] at h
            cases h
            unfold keysAt at hnone
            rw [hnone]
            exact (List.filter_eq_self.mpr fun _ _ => rfl).symm

end Entries

/-! ## Overlays that change nothing -/

namespace Value

variable {ι : Type}

/-- In all mappings that a path leads to each key is the same as itself, so that it can be found. -/
def SelfKeyed (value : Value ι) : Prop :=
  ∀ path identity entries, value.at? path = some (.map identity entries) →
    ∀ key ∈ Entries.keys entries, key.same key = true

/-- In all mappings that a path leads to the keys are different ones and can be found. -/
structure WellFormed (value : Value ι) : Prop where
  distinct : value.WellKeyed
  selfKeyed : value.SelfKeyed

theorem SelfKeyed.get? {identity : ι} {entries : Entries ι}
    (h : (Value.map identity entries).SelfKeyed) {key : Key} {value : Value ι}
    (hvalue : Entries.get? entries key = some value) : value.SelfKeyed := by
  intro path identity' inner hpath
  refine h (key :: path) identity' inner ?_
  rw [at?_map_cons, hvalue]
  exact hpath

theorem WellFormed.of_not_isMap {value : Value ι} (h : value.isMap = false) :
    value.WellFormed where
  distinct := .of_not_isMap h
  selfKeyed path identity entries hpath := by
    cases path with
    | nil =>
        cases hpath
        cases h
    | cons key rest =>
        rw [at?_of_not_isMap h] at hpath
        cases hpath

/-- A mapping is well formed if its keys are and its values are. -/
theorem WellFormed.map {identity : ι} {entries : Entries ι}
    (hdistinct : Key.Distinct (Entries.keys entries))
    (hself : ∀ key ∈ Entries.keys entries, key.same key = true)
    (hvalues : ∀ entry ∈ entries, entry.2.WellFormed) :
    (Value.map identity entries).WellFormed := by
  have hfound : ∀ key value, Entries.get? entries key = some value → value.WellFormed := by
    intro key value hvalue
    obtain ⟨entry, hentry, rfl⟩ := Option.map_eq_some_iff.mp hvalue
    exact hvalues entry (List.mem_of_find?_eq_some hentry)
  refine ⟨.map hdistinct fun key value hvalue => (hfound key value hvalue).distinct, ?_⟩
  intro path identity' inner hpath
  cases path with
  | nil =>
      cases hpath
      exact hself
  | cons key rest =>
      rw [at?_map_cons, Option.bind_eq_some_iff] at hpath
      obtain ⟨value, hvalue, hrest⟩ := hpath
      exact (hfound key value hvalue).selfKeyed rest identity' inner hrest

end Value

namespace Entries

open Value

variable {entries : Entries Unit}

theorem overlay_nil (lower : Entries Unit) : overlay lower [] = lower := by rw [overlay]

theorem nil_overlay (h : entries.WellKeyed) : overlay [] entries = entries := by
  refine ext_keys (distinct_overlay wellKeyed_nil.distinct entries) ?_ ?_ fun key => ?_
  · rw [keys_overlay_eq_append h]
    exact List.filter_eq_self.mpr fun _ _ => rfl
  · rw [strays_overlay]
    rfl
  · rw [get?_overlay h.distinct]
    exact above_none _

theorem overlay_self {entries : Entries Unit} (h : entries.WellKeyed)
    (hself : (Value.map () entries).SelfKeyed) : overlay entries entries = entries := by
  have hkeys : ∀ key ∈ keys entries, key.same key = true := hself [] () entries rfl
  refine ext_keys (distinct_overlay h.distinct entries) ?_ ?_ fun key => ?_
  · rw [keys_overlay_eq_append h, List.filter_eq_nil_iff.mpr, List.append_nil]
    intro key hkey
    have hfound : ((keys entries).any fun other => other.same key) = true :=
      List.any_eq_true.mpr ⟨key, hkey, hkeys key hkey⟩
    rw [hfound]
    exact Bool.false_ne_true
  · have hstrays : strays entries = [] := by
      refine List.filter_eq_nil_iff.mpr fun entry hentry => ?_
      rw [hkeys entry.1 (List.mem_map_of_mem hentry)]
      exact Bool.false_ne_true
    rw [strays_overlay, hstrays]
    rfl
  · rw [get?_overlay h.distinct]
    cases hvalue : get? entries key with
    | none => rfl
    | some value =>
        by_cases hmap : value.isMap = true
        · obtain ⟨inner, rfl⟩ := eq_map_of_isMap hmap
          have hlt := sizeOf_get?_lt hvalue
          rw [above_maps, overlay_self (h.get? hvalue) (hself.get? hvalue)]
        · rw [above, laidOver_of_not_isMap (Bool.eq_false_of_not_eq_true hmap)]
termination_by sizeOf entries
decreasing_by
  simp only [Value.map.sizeOf_spec] at hlt
  omega

end Entries

/-! ## Merges of data -/

namespace Data

/-- What data holds as a whole. -/
abbrev held (data : Data) : Content := .map () data.contents

/-- What stands at the paths of a mapping that is merged from a lower and an upper one. -/
structure MergedFrom (lower upper merged : Content) : Prop where
  /-- A path leads to something in the upper mapping, or in the lower one past nothing but mappings
  in the upper one. -/
  present : ∀ path, (merged.at? path).isSome = true ↔
    (upper.at? path).isSome = true ∨
      (lower.at? path).isSome = true ∧
        ∀ front, front <+: path → ∀ value, upper.at? front = some value → value.isMap = true
  /-- What is no mapping in the upper one stands in the merged one. -/
  replaced : ∀ path value, upper.at? path = some value → value.isMap = false →
    merged.at? path = some value
  /-- Where the upper mapping has nothing, there is the lower value if there is any. -/
  untouched : ∀ path value, upper.at? path = none → merged.at? path = some value →
    lower.at? path = some value
  /-- A mapping in the upper one stands in the merged one if there is none in the lower one. -/
  added : ∀ path value, upper.at? path = some value → value.isMap = true →
    (∀ below, lower.at? path = some below → below.isMap = false) → merged.at? path = some value
  /-- The keys of the lower mapping are followed by further keys of the upper one. -/
  ordered : ∀ path entries, merged.at? path = some (.map () entries) →
    Entries.keys entries = lower.keysAt path ++
      (upper.keysAt path).filter fun key => !(lower.keysAt path).any fun other => other.same key
  /-- Paths of equal keys lead to the same. -/
  equalKeys : ∀ path path', List.Forall₂ (fun a b => Key.same a b = true) path path' →
    merged.at? path = merged.at? path'

/-- A merge is known leaf by leaf. A mapping merged with itself, over nothing or below nothing holds
what it held. -/
theorem merge_leaf_by_leaf {base override : Data} (hbase : base.held.WellFormed)
    (hoverride : override.held.WellFormed) :
    MergedFrom base.held override.held (base.merge override).held ∧
      (base.merge base).contents = base.contents ∧
      (base.merge []).contents = base.contents ∧ (Data.merge [] base).contents = base.contents := by
  have hupper : override.contents.WellKeyed := hoverride.distinct
  refine ⟨?_, ?_, ?_, ?_⟩
  · rw [held, held, held, contents_merge]
    refine ⟨fun path => Entries.isSome_at?_overlay hupper, ?replaced, ?untouched, ?added,
      fun path entries => Entries.keys_of_at?_overlay hupper, fun path path' h => Value.at?_congr h _⟩
    case replaced =>
      intro path value hvalue hmap
      rw [Entries.at?_overlay_of_at? hupper hvalue, Value.laidOver_of_not_isMap hmap]
    case untouched =>
      intro path value hnone hvalue
      rw [Entries.at?_overlay_of_passes hupper (Entries.passes_of_at?_overlay hupper hvalue),
        hnone] at hvalue
      exact hvalue
    case added =>
      intro path value hvalue _ hbelow
      rw [Entries.at?_overlay_of_at? hupper hvalue, Value.laidOver_of_below]
      intro below hfound
      cases hbelow _ hfound
  · rw [contents_merge, Entries.overlay_self hbase.distinct hbase.selfKeyed]
  · rw [contents_merge]
    exact Entries.overlay_nil base.contents
  · rw [contents_merge]
    exact Entries.nil_overlay hbase.distinct

/-! ## A merge at two depths -/

namespace Nested

/-- A number under a key, and one in a mapping. -/
def lower : Data :=
  [(.scalar (.number (.int 1)), .number (.int 0)),
    (.str "site", .map (.ofPlace []) [(.str "title", .number (.int 2))])]

/-- The same key as a truth value, and a further name in the mapping. -/
def upper : Data :=
  [(.str "site", .map (.ofPlace []) [(.str "lang", .null)]), (.scalar (.bool true), .null)]

theorem wellFormed_lower : lower.held.WellFormed := by
  refine .map (by decide) (by decide) (List.forall_mem_cons.mpr ⟨.of_not_isMap rfl, ?_⟩)
  refine List.forall_mem_singleton.mpr (.map (by decide) (by decide) ?_)
  exact List.forall_mem_singleton.mpr (.of_not_isMap rfl)

theorem wellFormed_upper : upper.held.WellFormed := by
  refine .map (by decide) (by decide)
    (List.forall_mem_cons.mpr ⟨.map (by decide) (by decide) ?_, ?_⟩)
  · exact List.forall_mem_singleton.mpr (.of_not_isMap rfl)
  · exact List.forall_mem_singleton.mpr (.of_not_isMap rfl)

end Nested

/-- The truth value has taken the place of the number, since `1`, `1.0` and `true` are one key. -/
theorem merge_leaf_by_leaf_nested :
    Nested.lower.held.WellFormed ∧ Nested.upper.held.WellFormed ∧
      (Nested.lower.merge Nested.upper).held.at? [.scalar (.number (.float (.finite false 1 0)))] =
        some .null ∧
      (Nested.lower.merge Nested.lower).contents = Nested.lower.contents :=
  have h := merge_leaf_by_leaf Nested.wellFormed_lower Nested.wellFormed_upper
  ⟨Nested.wellFormed_lower, Nested.wellFormed_upper, h.1.replaced _ _ rfl rfl, h.2.1⟩

end Data

end Transclude
