import Mathlib
import Transclude.FileTree

/-! # Normalized paths

A normalized path from the root has no component `..` left, so that it leads to
the place that its components name. A file has two normalized paths, which begin
with one slash and with two. -/

namespace Transclude

namespace Path

/-- The path begins at a root and normalizing it changes nothing. -/
def IsNormal (path : Path) : Prop := path.isAbsolute = true ∧ path.normalize = path

instance (path : Path) : Decidable path.IsNormal := instDecidableAnd

/-- Components pushed from the root on contain no step upwards. -/
theorem foldl_pushPart_ne_up {parts reversed : List String} (h : ∀ part ∈ reversed, part ≠ "..") :
    ∀ part ∈ parts.foldl (pushPart true) reversed, part ≠ ".." := by
  induction parts generalizing reversed with
  | nil => exact h
  | cons first rest ih =>
      apply ih
      unfold pushPart
      split
      · -- a step upwards takes the last component away, which is none itself
        cases reversed with
        | nil => simp
        | cons last others =>
            have hlast := h last (by simp)
            split
            next heq => cases heq
            next heq => exact absurd (List.cons.inj heq).1 hlast
            next heq =>
              cases heq
              exact fun part hpart => h part (by simp [hpart])
      next hup =>
        intro part hpart
        obtain rfl | hpart := List.mem_cons.mp hpart
        · exact hup
        · exact h part hpart

/-- Without steps upwards every component stays. -/
theorem foldl_pushPart_eq {absolute : Bool} {parts : List String} (reversed : List String)
    (h : ∀ part ∈ parts, part ≠ "..") :
    parts.foldl (pushPart absolute) reversed = parts.reverse ++ reversed := by
  induction parts generalizing reversed with
  | nil => rfl
  | cons first rest ih =>
      have hpush : pushPart absolute reversed first = first :: reversed := by
        unfold pushPart
        rw [if_neg (h first (by simp))]
      rw [List.foldl_cons, hpush, ih _ fun part hpart => h part (by simp [hpart])]
      simp

theorem normalize_parts_ne_up {path : Path} (h : path.isAbsolute = true) :
    ∀ part ∈ path.normalize.parts, part ≠ ".." := by
  intro part hpart
  rw [normalize, h] at hpart
  exact foldl_pushPart_ne_up (by simp) part (List.mem_reverse.mp hpart)

theorem isNormal_iff {path : Path} :
    path.IsNormal ↔ path.isAbsolute = true ∧ ∀ part ∈ path.parts, part ≠ ".." := by
  constructor
  · rintro ⟨habsolute, hnormal⟩
    refine ⟨habsolute, ?_⟩
    rw [← hnormal]
    exact normalize_parts_ne_up habsolute
  · rintro ⟨habsolute, hparts⟩
    refine ⟨habsolute, ?_⟩
    rw [normalize, foldl_pushPart_eq [] hparts]
    simp

theorem isNormal_normalize {path : Path} (h : path.isAbsolute = true) : path.normalize.IsNormal :=
  isNormal_iff.mpr ⟨h, normalize_parts_ne_up h⟩

theorem sameFile_comm (a b : Path) : a.sameFile b = b.sameFile a := by
  unfold sameFile
  exact Bool.beq_comm

@[simp] theorem sameFile_self (path : Path) : path.sameFile path = true := by
  simp [sameFile]

end Path

namespace FileTree

theorem isNormal_absolute (tree : FileTree) (path : Path) : (tree.absolute path).IsNormal := by
  apply Path.isNormal_normalize
  unfold Path.join
  split
  next h => exact h
  next => rfl

/-- A path without steps upwards can only lead to the place that its components name. -/
theorem follow_eq_some {tree : FileTree} {parts : List String} {start place : Location}
    (hparts : ∀ part ∈ parts, part ≠ "..") (h : tree.follow start parts = some place) :
    place = start ++ parts := by
  induction parts generalizing start with
  | nil =>
      cases h
      simp
  | cons first rest ih =>
      unfold follow at h
      split at h
      · rw [if_neg (hparts first (by simp))] at h
        rw [ih (fun part hpart => hparts part (by simp [hpart])) h]
        simp
      next => cases h

/-- The normalized paths that name a file of the tree. -/
def filePaths (tree : FileTree) : List Path :=
  ((tree.files.flatMap fun file => [⟨.single, file.1⟩, ⟨.double, file.1⟩]).filter fun path =>
    path.IsNormal && tree.isFile path).dedup

theorem exists_file_of_isFile {tree : FileTree} {path : Path} (hnormal : path.IsNormal)
    (h : tree.isFile path = true) : ∃ file ∈ tree.files, file.1 = path.parts := by
  unfold isFile at h
  rw [Bool.and_eq_true] at h
  obtain ⟨_, h⟩ := h
  split at h
  next place hplace =>
    unfold locate at hplace
    rw [if_pos hnormal.1] at hplace
    rw [follow_eq_some (Path.isNormal_iff.mp hnormal).2 hplace, List.nil_append, bytesAt?,
      Option.isSome_map, List.find?_isSome] at h
    obtain ⟨file, hfile, heq⟩ := h
    exact ⟨file, hfile, beq_iff_eq.mp heq⟩
  next => cases h

theorem mem_filePaths {tree : FileTree} {path : Path} :
    path ∈ tree.filePaths ↔ path.IsNormal ∧ tree.isFile path = true := by
  simp only [filePaths, List.mem_dedup, List.mem_filter, List.mem_flatMap, List.mem_cons,
    List.not_mem_nil, or_false, Bool.and_eq_true, decide_eq_true_eq, and_iff_right_iff_imp]
  rintro ⟨hnormal, hfile⟩
  obtain ⟨file, hmem, heq⟩ := exists_file_of_isFile hnormal hfile
  refine ⟨file, hmem, ?_⟩
  obtain ⟨root, parts⟩ := path
  -- a path from the root begins with one slash or with two
  cases root with
  | relative => cases hnormal.1
  | single => exact Or.inl (by rw [heq])
  | double => exact Or.inr (by rw [heq])

theorem length_filePaths_le (tree : FileTree) : tree.filePaths.length ≤ 2 * tree.files.length := by
  have hsublist := (List.dedup_sublist ((tree.files.flatMap fun file =>
    [(⟨.single, file.1⟩ : Path), ⟨.double, file.1⟩]).filter fun path =>
      path.IsNormal && tree.isFile path)).trans List.filter_sublist
  have hle := hsublist.length_le
  rw [List.length_flatMap] at hle
  simpa [filePaths, Nat.mul_comm] using hle

end FileTree

end Transclude
