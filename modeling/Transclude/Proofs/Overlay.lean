import Mathlib
import Transclude.Proofs.Identities
import Transclude.Proofs.KeyEquality
import Transclude.Proofs.Keys
import Transclude.Value.Merge

/-! # Mappings laid over each other

What a merge of data holds does not depend on where its parts come from. The keys
are those of the lower mapping, followed by the further ones of the upper mapping,
and at each key stands what the two have there: the upper value, or the two merged
in turn when both are mappings. -/

namespace Transclude

/-! ## Keys in order -/

namespace Key

/-- Keys with another one behind them, unless they have it already. -/
def add (keys : List Key) (key : Key) : List Key :=
  if keys.any fun other => other.same key then keys else keys ++ [key]

/-- The keys of a mapping are different ones. -/
def Distinct (keys : List Key) : Prop :=
  keys.Pairwise fun first second => first.same second = false

instance : DecidablePred Distinct := fun keys =>
  inferInstanceAs (Decidable (keys.Pairwise fun first second => first.same second = false))

theorem any_same_congr {a b : Key} (h : a.same b = true) (keys : List Key) :
    (keys.any fun key => key.same a) = keys.any fun key => key.same b := by
  congr 1
  funext key
  rw [same_comm key a, same_comm key b, same_congr h]

theorem same_self_of_same {a b : Key} (h : a.same b = true) : b.same b = true := by
  rw [same_congr h] at h
  exact h

theorem any_same_add (keys : List Key) (key other : Key) :
    ((add keys key).any fun k => k.same other) =
      ((keys.any fun k => k.same other) || key.same other) := by
  unfold add
  split
  next hfound =>
    -- a key equal to the new one is there already
    cases hkey : key.same other with
    | false => rw [Bool.or_false]
    | true => rw [← any_same_congr hkey, hfound, Bool.or_true]
  next => rw [List.any_append, List.any_cons, List.any_nil, Bool.or_false]

theorem any_same_foldl_add (keys more : List Key) (other : Key) :
    ((more.foldl add keys).any fun k => k.same other) =
      ((keys.any fun k => k.same other) || more.any fun k => k.same other) := by
  induction more generalizing keys with
  | nil => rw [List.foldl_nil, List.any_nil, Bool.or_false]
  | cons key rest ih => rw [List.foldl_cons, ih, any_same_add, List.any_cons, Bool.or_assoc]

/-- Adding keys that have themselves been added to others. -/
theorem foldl_add_add (keys more : List Key) (key : Key) :
    (add more key).foldl add keys = add (more.foldl add keys) key := by
  by_cases hfound : (more.any fun other => other.same key) = true
  · have hadded : ((more.foldl add keys).any fun other => other.same key) = true := by
      rw [any_same_foldl_add, hfound, Bool.or_true]
    rw [add, if_pos hfound, add, if_pos hadded]
  · have hlast : add more key = more ++ [key] := if_neg hfound
    rw [hlast, List.foldl_append, List.foldl_cons, List.foldl_nil]

theorem foldl_add_assoc (first second third : List Key) :
    third.foldl add (second.foldl add first) = (third.foldl add second).foldl add first := by
  induction third generalizing second with
  | nil => rfl
  | cons key rest ih => rw [List.foldl_cons, List.foldl_cons, ← ih, foldl_add_add]

theorem Distinct.add {keys : List Key} (h : Distinct keys) (key : Key) :
    Distinct (Key.add keys key) := by
  unfold Key.add
  split
  next => exact h
  next hnew =>
    rw [Bool.not_eq_true, List.any_eq_false] at hnew
    refine List.pairwise_append.mpr ⟨h, List.pairwise_singleton _ _, ?_⟩
    intro other hother last hlast
    obtain rfl := List.mem_singleton.mp hlast
    exact Bool.not_eq_true _ ▸ hnew other hother

theorem Distinct.foldl_add {keys : List Key} (h : Distinct keys) (more : List Key) :
    Distinct (more.foldl Key.add keys) := by
  induction more generalizing keys with
  | nil => exact h
  | cons key rest ih => exact ih (h.add key)

end Key

namespace Entries

variable {ι κ : Type}

/-- The keys of a mapping in order. -/
def keys (entries : Entries ι) : List Key := List.map (·.1) entries

theorem hasKey_eq_any_keys (entries : Entries ι) (key : Key) :
    hasKey entries key = (keys entries).any fun other => other.same key := by
  rw [hasKey, keys, List.any_map]
  rfl

theorem keys_insert (entries : Entries ι) (key : Key) (value : Value ι) :
    keys (insert entries key value) = Key.add (keys entries) key := by
  induction entries with
  | nil => rfl
  | cons entry rest ih =>
      obtain ⟨k, v⟩ := entry
      unfold keys Key.add at ih ⊢
      rw [insert]
      by_cases hsame : k.same key = true
      · simp [hsame]
      · rw [if_neg hsame, List.map_cons, ih, List.map_cons, List.any_cons,
          Bool.eq_false_of_not_eq_true hsame, Bool.false_or]
        split <;> rfl

theorem keys_mapEntryIdentities (f : ι → κ) (entries : Entries ι) :
    keys (Value.mapEntryIdentities f entries) = keys entries := by
  rw [Value.mapEntryIdentities_eq_map, keys, keys, List.map_map]
  rfl

theorem get?_congr {a b : Key} (h : a.same b = true) (entries : Entries ι) :
    get? entries a = get? entries b := by
  induction entries with
  | nil => rfl
  | cons entry rest ih =>
      obtain ⟨k, v⟩ := entry
      rw [get?_cons, get?_cons, ih, Key.same_comm k a, Key.same_comm k b, Key.same_congr h]

/-- An insertion changes the value of one key. -/
theorem get?_insert (entries : Entries ι) (key : Key) (value : Value ι) (other : Key) :
    get? (insert entries key value) other =
      if key.same other then some value else get? entries other := by
  induction entries with
  | nil => exact get?_cons key value [] other
  | cons entry rest ih =>
      obtain ⟨k, v⟩ := entry
      rw [insert]
      by_cases hsame : k.same key = true
      · rw [if_pos hsame, get?_cons, get?_cons, Key.same_congr hsame]
        split <;> rfl
      · rw [if_neg hsame, get?_cons, get?_cons, ih]
        by_cases hother : k.same other = true
        · have hne : ¬ key.same other = true := by
            rw [Key.same_comm] at hother ⊢
            intro h
            rw [Key.same_comm] at h
            exact hsame (Key.same_trans (Key.same_comm other k ▸ hother)
              (Key.same_comm key other ▸ h))
          rw [if_pos hother, if_neg hne, if_pos hother]
        · rw [if_neg hother, if_neg hother]

theorem get?_eq_none_iff (entries : Entries ι) (key : Key) :
    get? entries key = none ↔ ((keys entries).any fun other => other.same key) = false := by
  rw [← hasKey_eq_any_keys, hasKey_eq_isSome, Option.isSome_eq_false_iff, Option.isNone_iff_eq_none]

/-- The entries that cannot be found: their keys differ from themselves, as what is not a number
does. -/
def strays (entries : Entries ι) : Entries ι := entries.filter fun entry => !entry.1.same entry.1

theorem strays_cons (key : Key) (value : Value ι) (rest : Entries ι) :
    strays ((key, value) :: rest) =
      if key.same key then strays rest else (key, value) :: strays rest := by
  unfold strays
  rw [List.filter_cons]
  cases key.same key <;> rfl

/-- An insertion at a key that can be found leaves the others as they are. -/
theorem strays_insert (entries : Entries ι) (key : Key) (value : Value ι) :
    strays (insert entries key value) =
      if key.same key then strays entries else strays entries ++ [(key, value)] := by
  induction entries with
  | nil =>
      rw [insert, strays_cons]
      rfl
  | cons entry rest ih =>
      obtain ⟨k, v⟩ := entry
      rw [insert]
      by_cases hsame : k.same key = true
      · have hself : key.same key = true := Key.same_self_of_same hsame
        have hself' : k.same k = true := Key.same_self_of_same (Key.same_comm k key ▸ hsame)
        rw [if_pos hsame, if_pos hself, strays_cons, strays_cons, if_pos hself', if_pos hself']
      · rw [if_neg hsame, strays_cons, strays_cons, ih]
        split <;> split <;> rfl

/-- A key that is the same as one that differs from all keys of a mapping has no value there. -/
theorem get?_eq_none_of_same {entries : Entries ι} {key other : Key}
    (h : ∀ k ∈ keys entries, key.same k = false) (hsame : key.same other = true) :
    get? entries other = none := by
  rw [get?_eq_none_iff, ← Key.any_same_congr hsame, List.any_eq_false]
  intro k hk
  rw [Key.same_comm, h k hk]
  exact Bool.false_ne_true

/-- A mapping is given by its keys in order, the values at those that can be found, and the entries
of the others. -/
theorem ext_keys {first second : Entries ι} (hdistinct : Key.Distinct (keys first))
    (hkeys : keys first = keys second) (hstrays : strays first = strays second)
    (hvalues : ∀ key, get? first key = get? second key) : first = second := by
  induction first generalizing second with
  | nil =>
      cases second with
      | nil => rfl
      | cons entry rest => cases hkeys
  | cons entry rest ih =>
      obtain ⟨key, value⟩ := entry
      cases second with
      | nil => cases hkeys
      | cons entry' rest' =>
          obtain ⟨key', value'⟩ := entry'
          obtain ⟨rfl, hrest⟩ := List.cons.inj hkeys
          replace hrest : keys rest = keys rest' := hrest
          obtain ⟨hfirst, htail⟩ := List.pairwise_cons.mp hdistinct
          rw [strays_cons, strays_cons] at hstrays
          by_cases hself : key.same key = true
          · have hvalue := hvalues key
            rw [get?_cons, get?_cons, if_pos hself, if_pos hself] at hvalue
            cases hvalue
            rw [if_pos hself, if_pos hself] at hstrays
            congr 1
            refine ih htail hrest hstrays ?_
            intro other
            by_cases hother : key.same other = true
            · -- the key of the first entry is not among the others
              have hfirst' : ∀ k ∈ keys rest', key.same k = false := by
                rw [← hrest]
                exact hfirst
              rw [get?_eq_none_of_same hfirst hother, get?_eq_none_of_same hfirst' hother]
            · have hboth := hvalues other
              rwa [get?_cons, get?_cons, if_neg hother, if_neg hother] at hboth
          · rw [if_neg hself, if_neg hself] at hstrays
            obtain ⟨hentry, hothers⟩ := List.cons.inj hstrays
            cases hentry
            congr 1
            refine ih htail hrest hothers ?_
            intro other
            have hother : ¬ key.same other = true := fun hother =>
              hself (Key.same_self_of_same (Key.same_comm key other ▸ hother))
            have hboth := hvalues other
            rwa [get?_cons, get?_cons, if_neg hother, if_neg hother] at hboth

end Entries

/-! ## Contents of a merge -/

mutual

/-- What a value holds that is laid over what stands at its key. -/
def Value.laidOver (below : Option Content) : Content → Content
  | .map identity entries =>
    match below with
    | some (.map _ lower) => .map () (Entries.overlay lower entries)
    | _ => .map identity entries
  | .scalar s => .scalar s
  | .tuple items => .tuple items
  | .set members => .set members
  | .list identity items => .list identity items

/-- What a mapping holds over which another one is laid. -/
def Entries.overlay (lower : Entries Unit) : Entries Unit → Entries Unit
  | [] => lower
  | (key, value) :: rest =>
    Entries.overlay (Entries.insert lower key (Value.laidOver (Entries.get? lower key) value)) rest

end

namespace Value

/-- What stands at a key when something may be laid over it. -/
def above (below : Option Content) : Option Content → Option Content
  | none => below
  | some value => some (laidOver below value)

theorem laidOver_of_not_isMap {value : Content} (h : value.isMap = false) (below : Option Content) :
    laidOver below value = value := by
  cases value with
  | map identity entries => cases h
  | _ => rw [laidOver]

theorem laidOver_map (lower upper : Entries Unit) :
    laidOver (some (.map () lower)) (.map () upper) = .map () (Entries.overlay lower upper) := by
  rw [laidOver]

theorem laidOver_of_below {below : Option Content} (h : ∀ lower, below ≠ some (.map () lower))
    (value : Content) : laidOver below value = value := by
  cases value with
  | map identity entries =>
      rw [laidOver]
      rintro _ lower rfl
      exact h lower rfl
  | _ => rw [laidOver]

end Value

namespace Entries

theorem keys_overlay (lower upper : Entries Unit) :
    keys (overlay lower upper) = (keys upper).foldl Key.add (keys lower) := by
  induction upper generalizing lower with
  | nil => rw [overlay]; rfl
  | cons entry rest ih =>
      obtain ⟨key, value⟩ := entry
      rw [overlay, ih, keys_insert]
      rfl

/-- At each key stands what is laid over the lower value there. -/
theorem get?_overlay {upper : Entries Unit} (hupper : Key.Distinct (keys upper))
    (lower : Entries Unit) (key : Key) :
    get? (overlay lower upper) key = Value.above (get? lower key) (get? upper key) := by
  induction upper generalizing lower with
  | nil => rw [overlay]; rfl
  | cons entry rest ih =>
      obtain ⟨k, v⟩ := entry
      obtain ⟨hfirst, hrest⟩ := List.pairwise_cons.mp hupper
      rw [overlay, ih hrest, get?_insert, get?_cons]
      by_cases hkey : k.same key = true
      · have habsent : get? rest key = none := by
          rw [get?_eq_none_iff, ← Key.any_same_congr hkey, List.any_eq_false]
          intro other hother
          rw [Key.same_comm, hfirst other hother]
          exact Bool.false_ne_true
        rw [if_pos hkey, if_pos hkey, habsent, get?_congr hkey]
        rfl
      · rw [if_neg hkey, if_neg hkey]

theorem distinct_overlay {lower : Entries Unit} (hlower : Key.Distinct (keys lower))
    (upper : Entries Unit) : Key.Distinct (keys (overlay lower upper)) := by
  rw [keys_overlay]
  exact hlower.foldl_add (keys upper)

/-- What cannot be found in two mappings is all kept when one is laid over the other. -/
theorem strays_overlay (lower upper : Entries Unit) :
    strays (overlay lower upper) = strays lower ++ strays upper := by
  induction upper generalizing lower with
  | nil => rw [overlay]; exact (List.append_nil _).symm
  | cons entry rest ih =>
      obtain ⟨key, value⟩ := entry
      rw [overlay, ih, strays_insert, strays_cons]
      by_cases hself : key.same key = true
      · rw [if_pos hself, if_pos hself]
      · have habsent : get? lower key = none := by
          rw [get?_eq_none_iff, List.any_eq_false]
          intro other _ hother
          exact hself (Key.same_self_of_same hother)
        rw [if_neg hself, if_neg hself, habsent,
          Value.laidOver_of_below (fun _ h => by cases h), List.append_assoc]
        rfl

end Entries

/-! ## Data -/

namespace Data

/-- What a mapping of data holds. -/
def contents (data : Data) : Entries Unit := Value.mapEntryIdentities (fun _ => ()) data

theorem contents_copied (copy : Nat) (data : Data) :
    contents (Value.mapEntryIdentities (Mark.copied copy) data) = contents data := by
  unfold contents
  rw [Value.mapEntryIdentities_mapEntryIdentities, Function.comp_def]

end Data

theorem Value.content_copied (copy : Nat) (value : Datum) :
    (value.copied copy).content = value.content := by
  unfold content copied
  rw [mapIdentity_mapIdentity, Function.comp_def]

mutual

theorem Value.content_over (current : Option Datum) : ∀ value : Datum,
    (Value.over current value).content = Value.laidOver (current.map Value.content) value.content
  | .scalar _ | .tuple _ | .set _ | .list _ _ => rfl
  | .map mark entries => by
      rcases current with _ | (_ | _ | _ | _ | ⟨other, lower⟩)
      case some.map =>
        have hmerge := Data.contents_mergeFrom entries 1
          (Value.mapEntryIdentities (Mark.copied 0) lower)
        rw [Data.contents_copied] at hmerge
        exact congrArg (Value.map ()) hmerge
      all_goals rfl

theorem Data.contents_mergeFrom : ∀ (upper : Data) (position : Nat) (base : Data),
    Data.contents (Data.mergeFrom position base upper) =
      Entries.overlay (Data.contents base) (Data.contents upper)
  | [], _, _ => rfl
  | (key, value) :: rest, position, base => by
      have hvalue := Value.content_over (Entries.get? base key) value
      have hget : Entries.get? (Data.contents base) key =
          (Entries.get? base key).map Value.content :=
        Entries.get?_mapEntryIdentities _ base key
      have hinsert : Data.contents (Entries.insert base key
          ((Value.over (Entries.get? base key) value).copied position)) =
          Entries.insert (Data.contents base) key
            (Value.over (Entries.get? base key) value).content := by
        rw [← Value.content_copied position]
        exact (Entries.insert_mapEntryIdentities _ base key _).symm
      rw [Data.mergeFrom, Data.contents_mergeFrom rest, hinsert, hvalue, ← hget]
      rfl

end

/-- A merge holds what its mappings hold, laid over each other. -/
theorem Data.contents_merge (base upper : Data) :
    (base.merge upper).contents = Entries.overlay base.contents upper.contents := by
  rw [Data.merge, Data.contents_mergeFrom, Data.contents_copied]

end Transclude
