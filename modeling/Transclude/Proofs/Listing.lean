import Mathlib
import Transclude.Proofs.Writing
import Transclude.Tree.Source

/-! # The listing of a tree

The files below a directory are listed in one order, whatever the order in which the
tree holds them, so that the same files are listed alike in two trees. Which of them are
sources does not depend on the tree. -/

namespace Transclude

namespace Location

/-- What places are ordered by: their names, and at each of them whether it is that of a
directory. -/
def rank : Location → List (Bool ×ₗ String)
  | [] => []
  | [name] => [toLex (false, name)]
  | name :: next :: rest => toLex (true, name) :: rank (next :: rest)

theorem rank_cons (name : String) {rest : Location} (h : rest ≠ []) :
    rank (name :: rest) = toLex (true, name) :: rank rest := by
  cases rest with
  | nil => exact absurd rfl h
  | cons next rest => rfl

theorem rank_injective : Function.Injective rank := by
  intro a
  fun_induction rank a with
  | case1 =>
      intro b h
      fun_cases rank b
      · rfl
      · cases h
      · cases h
  | case2 name =>
      intro b h
      fun_cases rank b
      · cases h
      · simpa [rank] using h
      · simp [rank] at h
  | case3 name next rest ih =>
      intro b h
      fun_cases rank b
      · cases h
      · simp [rank] at h
      next other next' rest' =>
        rw [rank, List.cons.injEq] at h
        have hname : name = other := by simpa using h.1
        rw [hname, ih h.2]

theorem cons_le_cons_iff {a b : Bool ×ₗ String} {as bs : List (Bool ×ₗ String)} :
    a :: as ≤ b :: bs ↔ a < b ∨ a = b ∧ as ≤ bs := by
  simp only [le_iff_lt_or_eq, List.cons_lt_cons_iff, List.cons.injEq]
  tauto

/-- A file comes before another one when its rank does. -/
theorem comesBefore_iff {a b : Location} (ha : a ≠ []) (hb : b ≠ []) :
    comesBefore a b = true ↔ rank a ≤ rank b := by
  fun_induction comesBefore a b with
  | case1 a b =>
      rw [rank, rank, cons_le_cons_iff]
      simp [Prod.Lex.toLex_lt_toLex, le_iff_lt_or_eq]
  | case2 a b h =>
      obtain ⟨first, rest, rfl⟩ := List.exists_cons_of_ne_nil hb
      have hrest : rest ≠ [] := fun hnil => h first (by rw [hnil])
      rw [rank, rank_cons first hrest, cons_le_cons_iff]
      simp [Prod.Lex.toLex_lt_toLex]
  | case3 =>
      rw [rank, rank, cons_le_cons_iff]
      simp [Prod.Lex.toLex_lt_toLex]
  | case4 as b bs hshort hfile hdirectory ih =>
      have has : as ≠ [] := hfile
      have hbs : bs ≠ [] := by
        obtain ⟨first, rest, rfl⟩ := List.exists_cons_of_ne_nil has
        exact hdirectory first rest rfl
      rw [rank_cons b has, rank_cons b hbs, cons_le_cons_iff, ih has hbs]
      simp
  | case5 a as b bs hshort hfile hdirectory hne =>
      have has : as ≠ [] := hfile
      have hbs : bs ≠ [] := by
        obtain ⟨first, rest, rfl⟩ := List.exists_cons_of_ne_nil has
        exact hdirectory first rest rfl
      rw [rank_cons a has, rank_cons b hbs, cons_le_cons_iff]
      simp [Prod.Lex.toLex_lt_toLex, hne]
  | case6 => exact absurd rfl ha
  | case7 => exact absurd rfl hb

/-- The order of places by their ranks. -/
def inOrder (a b : Location) : Bool := decide (rank a ≤ rank b)

theorem mergeSort_comesBefore {places : List Location} (h : ∀ place ∈ places, place ≠ []) :
    places.mergeSort comesBefore = places.mergeSort inOrder := by
  have hsame := @List.map_mergeSort _ _ comesBefore inOrder id places fun a ha b hb => by
    rw [Bool.eq_iff_iff, comesBefore_iff (h a ha) (h b hb), inOrder, decide_eq_true_eq]
    rfl
  simpa using hsame

/-- Some of the places are in the same order alone as among others. -/
theorem filter_mergeSort (keeps : Location → Bool) (places : List Location) :
    (places.mergeSort inOrder).filter keeps = (places.filter keeps).mergeSort inOrder := by
  have hsorted : ∀ others : List Location,
      (others.mergeSort inOrder).Pairwise fun a b => inOrder a b = true :=
    List.pairwise_mergeSort (fun a b c => by simpa [inOrder] using le_trans)
      fun a b => by simpa [inOrder] using le_total _ _
  refine List.Perm.eq_of_pairwise ?_ ((hsorted places).sublist List.filter_sublist)
    (hsorted _) (((List.mergeSort_perm places _).filter keeps).trans
      (List.mergeSort_perm _ _).symm)
  intro a b _ _ hab hba
  exact rank_injective (le_antisymm (by simpa [inOrder] using hab) (by simpa [inOrder] using hba))

end Location

open Location

namespace FileTree

variable {tree tree' : FileTree} {directory : Path} {below : Location}

/-- The files below a place as they are seen from there, in the order of the tree. -/
def seenFrom (place : Location) (files : List (Location × List UInt8)) : List Location :=
  files.filterMap fun file =>
    if place.isPrefixOf file.1 then some (file.1.drop place.length) else none

theorem mem_seenFrom {place below : Location} {files : List (Location × List UInt8)} :
    below ∈ seenFrom place files ↔ ∃ bytes, (place ++ below, bytes) ∈ files := by
  simp only [seenFrom, List.mem_filterMap]
  constructor
  · rintro ⟨⟨other, bytes⟩, hfile, hbelow⟩
    dsimp only at hbelow
    split at hbelow
    next hprefix =>
      obtain ⟨rest, rfl⟩ := List.isPrefixOf_iff_prefix.mp hprefix
      rw [List.drop_left] at hbelow
      cases hbelow
      exact ⟨bytes, hfile⟩
    next => cases hbelow
  · rintro ⟨bytes, hfile⟩
    exact ⟨_, hfile, by simp⟩

/-- What is kept is told by the places of the files. -/
theorem filter_seenFrom (place : Location) (keeps : Location → Bool)
    (files : List (Location × List UInt8)) :
    (seenFrom place files).filter (fun below => keeps (place ++ below)) =
      seenFrom place (files.filter fun file => keeps file.1) := by
  rw [seenFrom, seenFrom, List.filter_filterMap, List.filterMap_filter]
  apply List.filterMap_congr
  rintro ⟨other, bytes⟩ -
  by_cases hbelow : place <+: other
  · obtain ⟨rest, rfl⟩ := hbelow
    cases hkeeps : keeps (place ++ rest) <;> simp [hkeeps]
  · simp [hbelow]

/-- What is listed below a directory are the files of the tree there. -/
theorem mem_filesBelow (hnormal : directory.IsNormal) (h : below ∈ tree.filesBelow directory) :
    tree.hasDirectory directory.parts = true ∧
      ∃ bytes, (directory.parts ++ below, bytes) ∈ tree.files := by
  unfold filesBelow at h
  split at h
  next => cases h
  next place hplace =>
    obtain ⟨rfl, _⟩ := (locate_eq_some_iff hnormal).mp hplace
    split at h
    next hdirectory => exact ⟨hdirectory, mem_seenFrom.mp (List.mem_mergeSort.mp h)⟩
    next => cases h

namespace WellFormed

/-- Nothing is listed below a directory as the directory itself. -/
theorem below_ne_nil (h : tree.WellFormed) (hnormal : directory.IsNormal)
    (hbelow : below ∈ tree.filesBelow directory) : below ≠ [] := by
  rintro rfl
  obtain ⟨hdirectory, bytes, hfile⟩ := mem_filesBelow hnormal hbelow
  have hapart := h.apart _ hfile
  rw [List.append_nil, hdirectory] at hapart
  cases hapart

/-- What is listed below a directory is sorted by rank. -/
theorem filesBelow_eq (h : tree.WellFormed) (hnormal : directory.IsNormal)
    (hdirectory : tree.hasDirectory directory.parts = true) :
    tree.filesBelow directory = (seenFrom directory.parts tree.files).mergeSort inOrder := by
  have hplace := (locate_eq_some_iff hnormal).mpr ⟨rfl, h.above_directory _ hdirectory⟩
  have hlisted : tree.filesBelow directory =
      (seenFrom directory.parts tree.files).mergeSort comesBefore := by
    simp only [filesBelow, hplace, hdirectory]
    rfl
  rw [hlisted, mergeSort_comesBefore]
  intro below hbelow
  refine h.below_ne_nil hnormal ?_
  rw [hlisted]
  exact List.mem_mergeSort.mpr hbelow

/-- No file leads to another one. -/
theorem not_leadsTo (h : tree.WellFormed) {file other : Location × List UInt8}
    (hfile : file ∈ tree.files) (hother : other ∈ tree.files) : ¬ LeadsTo file.1 other.1 := by
  intro hleads
  have hdirectory := h.above_file other hother _ hleads
  rw [h.apart file hfile] at hdirectory
  cases hdirectory

/-- Files that two trees hold alike are listed alike below a directory of both. -/
theorem filter_filesBelow (h : tree.WellFormed) (h' : tree'.WellFormed)
    (hnormal : directory.IsNormal)
    (hdirectory : tree.hasDirectory directory.parts = true)
    (hdirectory' : tree'.hasDirectory directory.parts = true) (keeps : Location → Bool)
    (hfiles : tree.files.filter (fun file => keeps file.1) =
      tree'.files.filter fun file => keeps file.1) :
    (tree.filesBelow directory).filter (fun below => keeps (directory.parts ++ below)) =
      (tree'.filesBelow directory).filter fun below => keeps (directory.parts ++ below) := by
  rw [h.filesBelow_eq hnormal hdirectory, h'.filesBelow_eq hnormal hdirectory', filter_mergeSort,
    filter_mergeSort, filter_seenFrom, filter_seenFrom, hfiles]

end WellFormed

end FileTree

/-- Which of the listed files are sources is told by their places alone. -/
theorem Selection.exists_of_sources {selection : Selection} {tree : FileTree} {directory : Path}
    {found : List Location} (h : selection.sources tree directory = .ok found) :
    ∃ selects : Location → Bool, ∀ other : FileTree, selection.sources other directory =
      .ok ((other.filesBelow directory).filter selects) := by
  obtain ⟨chosen, hselect, h⟩ := bind_eq_ok.mp h
  obtain ⟨selecting, hselecting, hselect⟩ := bind_eq_ok.mp hselect
  obtain ⟨excluding, hexcluding, _⟩ := bind_eq_ok.mp hselect
  split at h
  next hnameable =>
    refine ⟨fun file => Glob.selects selecting ("/".intercalate file).toList &&
      !Glob.selects excluding ("/".intercalate file).toList, fun other => ?_⟩
    rw [sources, select, hselecting, hexcluding, hnameable]
    rfl
  next => cases h

end Transclude
