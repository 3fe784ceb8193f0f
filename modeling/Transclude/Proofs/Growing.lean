import Mathlib
import Transclude.DataFile
import Transclude.Proofs.Writing

/-! # Trees that grow below a place

Files are put into a tree below one place only, along with the directories that lead
there. A path that stays clear of the place leads to the same file before and after, but
for one case: a step upwards out of a directory that is made for the place needs the
directory. -/

namespace Transclude

open Location

namespace FileTree

variable {tree grown : FileTree} {target place other directory : Location} {path : Path}

/-- A tree that has grown out of another one below a place: the files elsewhere are the same, and
new directories are below the place or lead there. -/
structure Grows (target : Location) (tree grown : FileTree) : Prop where
  wellFormed : grown.WellFormed
  workingDirectory : grown.workingDirectory = tree.workingDirectory
  home : grown.home = tree.home
  files : grown.files.filter (fun file => ¬ LeadsTo target file.1) =
    tree.files.filter fun file => ¬ LeadsTo target file.1
  hasDirectory : ∀ directory, tree.hasDirectory directory = true →
    grown.hasDirectory directory = true
  directories : ∀ directory, grown.hasDirectory directory = true →
    tree.hasDirectory directory = true ∨ directory <+: target ∨ LeadsTo target directory

namespace Grows

theorem refl (h : tree.WellFormed) (target : Location) : Grows target tree tree where
  wellFormed := h
  workingDirectory := rfl
  home := rfl
  files := rfl
  hasDirectory _ hdirectory := hdirectory
  directories _ hdirectory := .inl hdirectory

/-- Putting in a file below the place lets the tree grow there. -/
theorem put (h : Grows target tree grown) (hleads : LeadsTo target place)
    (hnames : ∀ part ∈ place, IsName part) (hfree : grown.Free place) (bytes : List UInt8) :
    Grows target tree (grown.put place bytes) where
  wellFormed := h.wellFormed.put hnames hfree
  workingDirectory := h.workingDirectory
  home := h.home
  files := by
    rw [put_eq, ← h.files]
    exact @filter_setFile _ _ (fun place => ¬ LeadsTo target place) (by simpa using hleads) _
  hasDirectory directory hdirectory := hasDirectory_put.mpr (.inl (h.hasDirectory _ hdirectory))
  directories directory hdirectory := by
    obtain hdirectory | hdirectory := hasDirectory_put.mp hdirectory
    · exact h.directories directory hdirectory
    · -- both lead to the file, so that one of them is above the other
      obtain habove | hbelow := List.prefix_or_prefix_of_prefix hdirectory.isPrefix hleads.isPrefix
      · exact .inr (.inl habove)
      · by_cases heq : target = directory
        · exact .inr (.inl (heq ▸ List.prefix_rfl))
        · exact .inr (.inr (leadsTo_iff.mpr ⟨hbelow, heq⟩))

/-- The files elsewhere are the same. -/
theorem bytesAt?_eq (h : Grows target tree grown) (hplace : ¬ LeadsTo target place) :
    grown.bytesAt? place = tree.bytesAt? place := by
  have hfind : ∀ files : List (Location × List UInt8),
      (files.filter fun file => ¬ LeadsTo target file.1).find? (fun file => file.1 == place) =
        files.find? fun file => file.1 == place := by
    intro files
    rw [List.find?_filter]
    congr 1
    funext file
    by_cases hfile : file.1 = place
    · simp [hfile, hplace]
    · simp [hfile]
  rw [bytesAt?, bytesAt?, ← hfind, h.files, hfind]

end Grows

/-! ## Paths that stay clear of a place -/

/-- Where a component leads from a place. -/
def step (place : Location) (part : String) : Location :=
  if part = ".." then place.dropLast else place ++ [part]

/-- The way of some components from a place never comes below a target, and goes up from the target
or from above it only out of directories of the tree. -/
def Bypasses (tree : FileTree) (target : Location) : Location → List String → Prop
  | place, [] => ¬ LeadsTo target place
  | place, part :: rest => ¬ LeadsTo target place ∧
      (part = ".." → place <+: target → tree.hasDirectory place = true) ∧
      tree.Bypasses target (step place part) rest

/-- A path stays clear of a target. -/
def StaysClear (tree : FileTree) (target : Location) (path : Path) : Prop :=
  tree.Bypasses target (if path.isAbsolute then [] else tree.workingDirectory) path.parts

theorem Bypasses.start {parts : List String} (h : tree.Bypasses target place parts) :
    ¬ LeadsTo target place := by
  cases parts with
  | nil => exact h
  | cons part rest => exact h.1

theorem follow_cons (tree : FileTree) (place : Location) (part : String) (rest : List String) :
    tree.follow place (part :: rest) =
      if tree.hasDirectory place then tree.follow (step place part) rest else none := rfl

/-- Through the new directories above a target a path comes to no file. -/
theorem bytesAt?_follow_new (htree : tree.WellFormed) (hgrown : Grows target tree grown)
    {parts : List String} (hdirectory : tree.hasDirectory place = false)
    (hfile : tree.bytesAt? place = none) (h : tree.Bypasses target place parts) :
    (grown.follow place parts).bind grown.bytesAt? = none := by
  -- the place stays a new one: no step leads up from it, and what is below it is new as well
  induction parts generalizing place with
  | nil =>
      rw [follow, Option.bind_some, hgrown.bytesAt?_eq h, hfile]
  | cons part rest ih =>
      obtain ⟨hplace, hup, hrest⟩ := h
      rw [follow_cons]
      split
      next hnew =>
        have habove : place <+: target := by
          obtain hold | habove | hbelow := hgrown.directories place hnew
          · rw [hdirectory] at hold
            cases hold
          · exact habove
          · exact absurd hbelow hplace
        have hpart : part ≠ ".." := by
          intro heq
          rw [hdirectory] at hup
          cases hup heq habove
        have hstep : LeadsTo place (step place part) := by
          rw [step, if_neg hpart]
          exact ⟨part, [], rfl⟩
        refine ih ?_ ?_ hrest
        · rw [← Bool.not_eq_true]
          intro hold
          rw [htree.above_directory _ hold place hstep] at hdirectory
          cases hdirectory
        · rw [Option.eq_none_iff_forall_ne_some]
          intro bytes hbytes
          rw [htree.above_file _ (mem_of_bytesAt? hbytes) place hstep] at hdirectory
          cases hdirectory
      next => rfl

/-- A path that stays clear of the target comes to the same file in the grown tree. -/
theorem bytesAt?_follow (htree : tree.WellFormed) (hgrown : Grows target tree grown)
    {parts : List String} (h : tree.Bypasses target place parts) :
    (grown.follow place parts).bind grown.bytesAt? =
      (tree.follow place parts).bind tree.bytesAt? := by
  induction parts generalizing place with
  | nil => exact hgrown.bytesAt?_eq h
  | cons part rest ih =>
      rw [follow_cons tree]
      split
      next hdirectory =>
        rw [follow_cons, if_pos (hgrown.hasDirectory place hdirectory), ih h.2.2]
      next hdirectory =>
        rw [Bool.not_eq_true] at hdirectory
        by_cases hnew : grown.hasDirectory place = true
        · refine bytesAt?_follow_new htree hgrown hdirectory ?_ h
          -- a file would be in the way of the new directory
          rw [← hgrown.bytesAt?_eq h.start, Option.eq_none_iff_forall_ne_some]
          intro bytes hbytes
          rw [hgrown.wellFormed.apart _ (mem_of_bytesAt? hbytes)] at hnew
          cases hnew
        · rw [follow_cons, if_neg hnew]
          rfl

/-! ## Reading alike -/

/-- Two trees have the same file at the place that a path leads to, or none. -/
def SameAt (tree tree' : FileTree) (path : Path) : Prop :=
  (tree'.locate path).bind tree'.bytesAt? = (tree.locate path).bind tree.bytesAt?

theorem Grows.sameAt (htree : tree.WellFormed) (hgrown : Grows target tree grown)
    (h : tree.StaysClear target path) : tree.SameAt grown path := by
  rw [SameAt, locate, locate, hgrown.workingDirectory]
  exact bytesAt?_follow htree hgrown h

namespace SameAt

variable {tree' : FileTree}

theorem readBytes_eq (h : tree.SameAt tree' path) : tree'.readBytes path = tree.readBytes path := by
  rw [readBytes, readBytes, h]

theorem isFile_eq (h : tree.SameAt tree' path) : tree'.isFile path = tree.isFile path := by
  have hsome : ∀ tree : FileTree, tree.isFile path =
      (isNameable path && ((tree.locate path).bind tree.bytesAt?).isSome) := by
    intro tree
    rw [isFile]
    cases tree.locate path <;> rfl
  rw [hsome, hsome, h]

theorem readText_eq (h : tree.SameAt tree' path) :
    DataFile.readText tree' path = DataFile.readText tree path := by
  rw [DataFile.readText, DataFile.readText, h.readBytes_eq]

theorem read_eq (h : tree.SameAt tree' path) :
    DataFile.read tree' path = DataFile.read tree path := by
  rw [DataFile.read, DataFile.read, h.readText_eq]

end SameAt

end FileTree

end Transclude
