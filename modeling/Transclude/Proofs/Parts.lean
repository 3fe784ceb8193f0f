import Mathlib
import Transclude.Proofs.JsonText
import Transclude.Proofs.Merging

/-! # The parts of data

The lists and mappings in a value are its parts. A value of JSON no two parts of
which are the same is what JSON makes of its text, with the parts at other places. -/

namespace Transclude

namespace Value

variable {ι κ : Type}

mutual

/-- The identities of the parts of a value. -/
def identities : Value ι → List ι
  | .scalar _ | .set _ => []
  | .tuple items => itemIdentities items
  | .list identity items => identity :: itemIdentities items
  | .map identity entries => identity :: entryIdentities entries

def itemIdentities : List (Value ι) → List ι
  | [] => []
  | item :: rest => identities item ++ itemIdentities rest

def entryIdentities : Entries ι → List ι
  | [] => []
  | (_, value) :: rest => identities value ++ entryIdentities rest

end

/-- The marks are of different places. -/
def Apart (marks : List Mark) : Prop := (marks.map Mark.place).Nodup

/-- No two parts of the value are the same, and none is an ordered mapping. -/
structure Unshared (value : Datum) : Prop where
  distinct : Apart value.identities
  unordered : ∀ mark ∈ value.identities, mark.ordered = false

section

variable (f : ι → κ)

mutual

theorem identities_mapIdentity : ∀ value : Value ι,
    identities (mapIdentity f value) = (identities value).map f
  | .scalar _ | .set _ => rfl
  | .tuple items => itemIdentities_mapIdentities items
  | .list identity items => congrArg (f identity :: ·) (itemIdentities_mapIdentities items)
  | .map identity entries => congrArg (f identity :: ·) (entryIdentities_mapEntryIdentities entries)

theorem itemIdentities_mapIdentities : ∀ items : List (Value ι),
    itemIdentities (mapIdentities f items) = (itemIdentities items).map f
  | [] => rfl
  | item :: rest => by
      rw [mapIdentities, itemIdentities, itemIdentities, List.map_append,
        identities_mapIdentity item, itemIdentities_mapIdentities rest]

theorem entryIdentities_mapEntryIdentities : ∀ entries : Entries ι,
    entryIdentities (mapEntryIdentities f entries) = (entryIdentities entries).map f
  | [] => rfl
  | (_, value) :: rest => by
      rw [mapEntryIdentities, entryIdentities, entryIdentities, List.map_append,
        identities_mapIdentity value, entryIdentities_mapEntryIdentities rest]

end

end

theorem length_identities_of_content {v w : Value ι} (h : v.content = w.content) :
    v.identities.length = w.identities.length := by
  have hmap : v.identities.map (fun _ => ()) = w.identities.map fun _ => () := by
    rw [← identities_mapIdentity, ← identities_mapIdentity]
    exact congrArg identities h
  simpa using congrArg List.length hmap

mutual

/-- A value is known by what it holds and by the identities of its parts. -/
theorem eq_of_content : ∀ v w : Value ι, v.content = w.content → v.identities = w.identities → v = w
  | .scalar _, w, hcontent, _ => by
      cases w with
      | scalar t => exact congrArg _ (Value.scalar.inj hcontent)
      | _ => cases hcontent
  | .set _, w, hcontent, _ => by
      cases w with
      | set members => exact congrArg _ (Value.set.inj hcontent)
      | _ => cases hcontent
  | .tuple items, w, hcontent, hidentities => by
      cases w with
      | tuple others =>
          exact congrArg _ (eq_of_contents items others (Value.tuple.inj hcontent) hidentities)
      | _ => cases hcontent
  | .list identity items, w, hcontent, hidentities => by
      cases w with
      | list other others =>
          obtain ⟨rfl, hrest⟩ := List.cons.inj hidentities
          exact congrArg _ (eq_of_contents items others (Value.list.inj hcontent).2 hrest)
      | _ => cases hcontent
  | .map identity entries, w, hcontent, hidentities => by
      cases w with
      | map other others =>
          obtain ⟨rfl, hrest⟩ := List.cons.inj hidentities
          exact congrArg _ (eq_of_entryContents entries others (Value.map.inj hcontent).2 hrest)
      | _ => cases hcontent

theorem eq_of_contents : ∀ items others : List (Value ι),
    mapIdentities (fun _ => ()) items = mapIdentities (fun _ => ()) others →
      itemIdentities items = itemIdentities others → items = others
  | [], others, hcontent, _ => by
      cases others with
      | nil => rfl
      | cons other others => cases hcontent
  | item :: rest, others, hcontent, hidentities => by
      cases others with
      | nil => cases hcontent
      | cons other others =>
          obtain ⟨hitem, hrest⟩ := List.cons.inj hcontent
          obtain ⟨hfirst, hsecond⟩ :=
            List.append_inj hidentities (length_identities_of_content hitem)
          rw [eq_of_content item other hitem hfirst, eq_of_contents rest others hrest hsecond]

theorem eq_of_entryContents : ∀ entries others : Entries ι,
    mapEntryIdentities (fun _ => ()) entries = mapEntryIdentities (fun _ => ()) others →
      entryIdentities entries = entryIdentities others → entries = others
  | [], others, hcontent, _ => by
      cases others with
      | nil => rfl
      | cons other others => cases hcontent
  | (key, value) :: rest, others, hcontent, hidentities => by
      cases others with
      | nil => cases hcontent
      | cons other others =>
          obtain ⟨otherKey, other⟩ := other
          obtain ⟨hentry, hrest⟩ := List.cons.inj hcontent
          obtain ⟨rfl, hvalue⟩ := Prod.mk.inj hentry
          obtain ⟨hfirst, hsecond⟩ :=
            List.append_inj hidentities (length_identities_of_content hvalue)
          rw [eq_of_content value other hvalue hfirst,
            eq_of_entryContents rest others hrest hsecond]

end

/-! ## Values at their places -/

mutual

theorem exists_place_of_placed : ∀ (value : Value ι) (place : List Nat),
    ∀ mark ∈ (value.placed place).identities, ∃ path, mark = .ofPlace path ∧ place <:+ path
  | .scalar _, _, _, hmark => by cases hmark
  | .set _, _, _, hmark => by cases hmark
  | .tuple items, place, mark, hmark => by
      obtain ⟨n, path, _, hpath, hsuffix⟩ := exists_place_of_placedItems items place 0 mark hmark
      exact ⟨path, hpath, (List.suffix_cons n place).trans hsuffix⟩
  | .list _ items, place, mark, hmark => by
      rcases List.mem_cons.mp hmark with rfl | hrest
      · exact ⟨place, rfl, List.suffix_rfl⟩
      · obtain ⟨n, path, _, hpath, hsuffix⟩ := exists_place_of_placedItems items place 0 mark hrest
        exact ⟨path, hpath, (List.suffix_cons n place).trans hsuffix⟩
  | .map _ entries, place, mark, hmark => by
      rcases List.mem_cons.mp hmark with rfl | hrest
      · exact ⟨place, rfl, List.suffix_rfl⟩
      · obtain ⟨n, path, _, hpath, hsuffix⟩ :=
          exists_place_of_placedEntries entries place 0 mark hrest
        exact ⟨path, hpath, (List.suffix_cons n place).trans hsuffix⟩

theorem exists_place_of_placedItems :
    ∀ (items : List (Value ι)) (place : List Nat) (position : Nat), ∀ mark ∈ itemIdentities (placedItems place position items), ∃ n path,
      position ≤ n ∧ mark = .ofPlace path ∧ (n :: place) <:+ path
  | [], _, _, _, hmark => by cases hmark
  | item :: rest, place, position, mark, hmark => by
      rcases List.mem_append.mp hmark with hitem | hrest
      · obtain ⟨path, hpath, hsuffix⟩ := exists_place_of_placed item (position :: place) mark hitem
        exact ⟨position, path, Nat.le_refl position, hpath, hsuffix⟩
      · obtain ⟨n, path, hn, hpath, hsuffix⟩ :=
          exists_place_of_placedItems rest place (position + 1) mark hrest
        exact ⟨n, path, Nat.le_of_succ_le hn, hpath, hsuffix⟩

theorem exists_place_of_placedEntries : ∀ (entries : Entries ι) (place : List Nat) (position : Nat),
    ∀ mark ∈ entryIdentities (placedEntries place position entries), ∃ n path,
      position < n ∧ mark = .ofPlace path ∧ (n :: place) <:+ path
  | [], _, _, _, hmark => by cases hmark
  | (_, value) :: rest, place, position, mark, hmark => by
      rcases List.mem_append.mp hmark with hvalue | hrest
      · obtain ⟨path, hpath, hsuffix⟩ :=
          exists_place_of_placed value ((position + 1) :: place) mark hvalue
        exact ⟨position + 1, path, Nat.lt_succ_self position, hpath, hsuffix⟩
      · obtain ⟨n, path, hn, hpath, hsuffix⟩ :=
          exists_place_of_placedEntries rest place (position + 2) mark hrest
        exact ⟨n, path, by omega, hpath, hsuffix⟩

end

/-- What is below one number at a place is not below another one. -/
theorem eq_of_below {n m : Nat} {place path : List Nat} (hn : (n :: place) <:+ path)
    (hm : (m :: place) <:+ path) : n = m := by
  have hsuffix := List.suffix_of_suffix_length_le hn hm (Nat.le_refl _)
  exact (List.cons.inj (hsuffix.eq_of_length rfl)).1

theorem Apart.cons {place : List Nat} {marks : List Mark} (h : Apart marks)
    (hbelow : ∀ mark ∈ marks, ∃ n path, mark = .ofPlace path ∧ (n :: place) <:+ path) :
    Apart (.ofPlace place :: marks) := by
  refine List.nodup_cons.mpr ⟨fun hmem => ?_, h⟩
  obtain ⟨mark, hmark, hplace⟩ := List.mem_map.mp hmem
  obtain ⟨n, path, rfl, hsuffix⟩ := hbelow mark hmark
  have hlength := hsuffix.length_le
  rw [show path = place from hplace, List.length_cons] at hlength
  exact Nat.not_succ_le_self _ hlength

theorem Apart.append {place : List Nat} {n : Nat} {marks others : List Mark} (hmarks : Apart marks)
    (hothers : Apart others)
    (hbelow : ∀ mark ∈ marks, ∃ path, mark = .ofPlace path ∧ (n :: place) <:+ path)
    (habove : ∀ mark ∈ others, ∃ m path, n < m ∧ mark = .ofPlace path ∧ (m :: place) <:+ path) :
    Apart (marks ++ others) := by
  unfold Apart
  rw [List.map_append]
  refine List.Nodup.append hmarks hothers fun path hfirst hsecond => ?_
  obtain ⟨mark, hmark, rfl⟩ := List.mem_map.mp hfirst
  obtain ⟨other, hother, hplace⟩ := List.mem_map.mp hsecond
  obtain ⟨path, rfl, hsuffix⟩ := hbelow mark hmark
  obtain ⟨m, path', hm, rfl, hsuffix'⟩ := habove other hother
  obtain rfl : path' = path := hplace
  exact Nat.ne_of_lt hm (eq_of_below hsuffix hsuffix')

mutual

theorem apart_placed : ∀ (value : Value ι) (place : List Nat), Apart (value.placed place).identities
  | .scalar _, _ => List.nodup_nil
  | .set _, _ => List.nodup_nil
  | .tuple items, place => apart_placedItems items place 0
  | .list _ items, place => by
      refine (apart_placedItems items place 0).cons fun mark hmark => ?_
      obtain ⟨n, path, _, hpath, hsuffix⟩ := exists_place_of_placedItems items place 0 mark hmark
      exact ⟨n, path, hpath, hsuffix⟩
  | .map _ entries, place => by
      refine (apart_placedEntries entries place 0).cons fun mark hmark => ?_
      obtain ⟨n, path, _, hpath, hsuffix⟩ :=
        exists_place_of_placedEntries entries place 0 mark hmark
      exact ⟨n, path, hpath, hsuffix⟩

theorem apart_placedItems : ∀ (items : List (Value ι)) (place : List Nat) (position : Nat),
    Apart (itemIdentities (placedItems place position items))
  | [], _, _ => List.nodup_nil
  | item :: rest, place, position =>
      (apart_placed item (position :: place)).append (apart_placedItems rest place (position + 1))
        (exists_place_of_placed item (position :: place))
        (exists_place_of_placedItems rest place (position + 1))

theorem apart_placedEntries : ∀ (entries : Entries ι) (place : List Nat) (position : Nat),
    Apart (entryIdentities (placedEntries place position entries))
  | [], _, _ => List.nodup_nil
  | (_, value) :: rest, place, position => by
      refine (apart_placed value ((position + 1) :: place)).append
        (apart_placedEntries rest place (position + 2))
        (exists_place_of_placed value ((position + 1) :: place)) fun mark hmark => ?_
      obtain ⟨n, path, hn, hpath, hsuffix⟩ :=
        exists_place_of_placedEntries rest place (position + 2) mark hmark
      exact ⟨n, path, by omega, hpath, hsuffix⟩

end

/-- What JSON makes of a text has no part twice. -/
theorem unshared_placed (value : Value ι) (place : List Nat) : Unshared (value.placed place) where
  distinct := apart_placed value place
  unordered mark hmark := by
    obtain ⟨path, rfl, _⟩ := exists_place_of_placed value place mark hmark
    rfl

theorem IsJson.mapIdentity {value : Value ι} (f : ι → κ) (h : IsJson value) :
    IsJson (value.mapIdentity f) := by
  induction h with
  | null => exact .null
  | bool b => exact .bool b
  | int n => exact .int n
  | str s => exact .str s
  | list _ ih =>
      rw [Value.mapIdentity, mapIdentities_eq_map]
      exact .list (List.forall_mem_map.mpr ih)
  | map hnames hdistinct _ ih =>
      rw [Value.mapIdentity, mapEntryIdentities_eq_map]
      exact .map (List.forall_mem_map.mpr hnames) (List.pairwise_map.mpr hdistinct)
        (List.forall_mem_map.mpr ih)

theorem content_placedItems {items : List (Value ι)}
    (h : ∀ item ∈ items, ∀ place, (item.placed place).content = item.content) (place : List Nat)
    (position : Nat) :
    mapIdentities (fun _ => ()) (placedItems place position items) =
      mapIdentities (fun _ => ()) items := by
  induction items generalizing position with
  | nil => rfl
  | cons item rest ih =>
      exact congrArg₂ List.cons (h item List.mem_cons_self _)
        (ih (fun item hitem => h item (List.mem_cons_of_mem _ hitem)) _)

theorem content_placedEntries {entries : Entries ι}
    (hnames : ∀ entry ∈ entries, ∃ name, entry.1 = .str name)
    (h : ∀ entry ∈ entries, ∀ place, (entry.2.placed place).content = entry.2.content)
    (place : List Nat) (position : Nat) :
    mapEntryIdentities (fun _ => ()) (placedEntries place position entries) =
      mapEntryIdentities (fun _ => ()) entries := by
  induction entries generalizing position with
  | nil => rfl
  | cons entry rest ih =>
      obtain ⟨key, value⟩ := entry
      obtain ⟨name, rfl⟩ := hnames _ List.mem_cons_self
      exact congrArg₂ List.cons (congrArg (Prod.mk (Key.str name)) (h _ List.mem_cons_self _))
        (ih (fun entry hentry => hnames entry (List.mem_cons_of_mem _ hentry))
          (fun entry hentry => h entry (List.mem_cons_of_mem _ hentry)) _)

/-- A value of JSON holds at its places what it held. -/
theorem IsJson.content_placed {value : Value ι} (h : IsJson value) (place : List Nat) :
    (value.placed place).content = value.content := by
  induction h generalizing place with
  | null | bool | int | str => rfl
  | list _ ih =>
      exact congrArg (Value.list ()) (content_placedItems (fun item hitem => ih item hitem) place 0)
  | map hnames _ _ ih =>
      exact congrArg (Value.map ())
        (content_placedEntries hnames (fun entry hentry => ih entry hentry) place 0)

end Value

/-! ## Moving the parts -/

namespace Relabeling

/-- Parts that are different stay so at other places. -/
theorem unshared_datum (r : Relabeling) {value : Datum} (h : value.Unshared) :
    (r.datum value).Unshared where
  distinct := by
    have hplaces : (r.datum value).identities.map Mark.place =
        (value.identities.map Mark.place).map r.place := by
      rw [datum, Value.identities_mapIdentity, List.map_map, List.map_map]
      rfl
    rw [Value.Apart, hplaces]
    exact h.distinct.map r.injective
  unordered := by
    intro mark hmark
    rw [datum, Value.identities_mapIdentity] at hmark
    obtain ⟨other, hother, rfl⟩ := List.mem_map.mp hmark
    exact h.unordered other hother

/-- Different places can be moved to any different places. -/
theorem exists_place_eq {places others : List (List Nat)} (hplaces : places.Nodup)
    (hothers : others.Nodup) (hlength : places.length = others.length) :
    ∃ r : Relabeling, places.map r.place = others := by
  have htransitive : MulAction.IsMultiplyPretransitive (Equiv.Perm (List Nat)) (List Nat)
      others.length := Equiv.Perm.isMultiplyPretransitive _ _
  obtain ⟨σ, hσ⟩ := htransitive.exists_smul_eq
    ⟨fun i => places.get (i.cast hlength.symm), fun i j heq =>
      Fin.cast_injective hlength.symm (List.nodup_iff_injective_get.mp hplaces heq)⟩
    ⟨others.get, List.nodup_iff_injective_get.mp hothers⟩
  refine ⟨⟨σ, σ.injective⟩, List.ext_get (by simpa using hlength) fun i hi hi' => ?_⟩
  rw [List.get_eq_getElem, List.getElem_map]
  exact congrFun (congrArg DFunLike.coe hσ) ⟨i, hi'⟩

theorem ofPlace_map_place {marks : List Mark} (h : ∀ mark ∈ marks, mark.ordered = false) :
    (marks.map Mark.place).map Mark.ofPlace = marks := by
  rw [List.map_map]
  refine (List.map_congr_left fun mark hmark => ?_).trans (List.map_id marks)
  rw [Function.comp_apply, Mark.ofPlace, ← h mark hmark]
  rfl

/-- A value of JSON in which no two parts are the same is what JSON makes of its text, with the
parts at other places. -/
theorem exists_datum_placed {value : Datum} (hjson : value.IsJson) (hparts : value.Unshared) :
    ∃ r : Relabeling, r.datum (value.content.placed []) = value := by
  have hcontent : value.content.IsJson := hjson.mapIdentity _
  have hplaced : (value.content.placed []).content = value.content := by
    rw [hcontent.content_placed []]
    exact Value.mapIdentity_mapIdentity _ _ value
  have hmade := Value.unshared_placed value.content []
  obtain ⟨r, hr⟩ := exists_place_eq hmade.distinct hparts.distinct
    (by simpa using Value.length_identities_of_content hplaced)
  -- both hold the same, so that only the places of their parts are left to agree
  refine ⟨r, Value.eq_of_content _ _ ?_ ?_⟩
  · exact (Value.mapIdentity_mapIdentity _ _ _).trans hplaced
  · rw [datum, Value.identities_mapIdentity, ← ofPlace_map_place hparts.unordered, ← hr,
      ← ofPlace_map_place hmade.unordered]
    simp [mark, Mark.ofPlace]

end Relabeling

end Transclude
