import Mathlib
import Transclude.Proofs.Outcome
import Transclude.Proofs.Paths

/-! # Writing files

A file is written after the directories that lead to it have been made. Nothing is in
its way when no directory has its place and no file stands where one of those
directories is to be. Then the tree has the file and the directories, and is as it was
elsewhere. -/

namespace Transclude

namespace Location

/-- The directory at a place leads to another place below it. -/
def LeadsTo (above place : Location) : Prop := ∃ part rest, place = above ++ part :: rest

variable {above place : Location}

theorem leadsTo_iff : LeadsTo above place ↔ above <+: place ∧ above ≠ place := by
  constructor
  · rintro ⟨part, rest, rfl⟩
    exact ⟨List.prefix_append _ _, by simp⟩
  · rintro ⟨⟨rest, rfl⟩, hne⟩
    cases rest with
    | nil => simp at hne
    | cons part rest => exact ⟨part, rest, rfl⟩

instance (above place : Location) : Decidable (LeadsTo above place) :=
  decidable_of_iff _ leadsTo_iff.symm

theorem LeadsTo.isPrefix (h : LeadsTo above place) : above <+: place := (leadsTo_iff.mp h).1

theorem LeadsTo.ne (h : LeadsTo above place) : above ≠ place := (leadsTo_iff.mp h).2

theorem not_leadsTo_self (place : Location) : ¬ LeadsTo place place := fun h => h.ne rfl

theorem LeadsTo.of_isPrefix {further : Location} (h : above <+: place)
    (hplace : LeadsTo place further) : LeadsTo above further := by
  obtain ⟨part, rest, rfl⟩ := hplace
  obtain ⟨more, rfl⟩ := h
  cases more with
  | nil => exact ⟨part, rest, by simp⟩
  | cons first more => exact ⟨first, more ++ part :: rest, by simp⟩

theorem leadsTo_dropLast (h : place ≠ []) : LeadsTo place.dropLast place := by
  rw [leadsTo_iff]
  refine ⟨List.dropLast_prefix _, fun heq => ?_⟩
  have hlength := congrArg List.length heq
  have hpos := List.length_pos_iff.mpr h
  rw [List.length_dropLast] at hlength
  omega

/-- The places that lead to a place, from the root on. -/
def leading (place : Location) : List Location :=
  (List.range place.length).map fun count => place.take count

theorem mem_leading : above ∈ leading place ↔ LeadsTo above place := by
  simp only [leading, List.mem_map, List.mem_range]
  constructor
  · rintro ⟨count, hcount, rfl⟩
    exact leadsTo_iff.mpr ⟨List.take_prefix _ _, fun h => by
      have hlength := congrArg List.length h
      rw [List.length_take] at hlength
      omega⟩
  · rintro ⟨part, rest, rfl⟩
    exact ⟨above.length, by simp, by simp⟩

end Location

open Location

namespace FileTree

variable {tree : FileTree} {place other directory : Location} {bytes : List UInt8} {path : Path}

@[simp] theorem hasDirectory_nil (tree : FileTree) : tree.hasDirectory [] = true := rfl

theorem hasDirectory_iff :
    tree.hasDirectory directory = true ↔ directory = [] ∨ directory ∈ tree.directories := by
  simp [hasDirectory]

/-! ## Where paths lead -/

/-- A path without steps upwards leads to the place that its components name, as far as they name
directories. -/
theorem follow_eq_some_iff {parts : List String} {start : Location}
    (hparts : ∀ part ∈ parts, part ≠ "..") :
    tree.follow start parts = some place ↔ place = start ++ parts ∧
      ∀ above, LeadsTo above parts → tree.hasDirectory (start ++ above) = true := by
  induction parts generalizing start with
  | nil =>
      rw [follow, List.append_nil, Option.some.injEq, eq_comm, iff_self_and]
      rintro - above ⟨part, rest, h⟩
      simp at h
  | cons first rest ih =>
      have hrest := fun part hpart => hparts part (List.mem_cons_of_mem first hpart)
      rw [follow, if_neg (hparts first (by simp))]
      constructor
      · intro h
        split at h
        next hstart =>
          obtain ⟨rfl, habove⟩ := (ih hrest).mp h
          refine ⟨by simp, ?_⟩
          rintro above ⟨part, behind, hsplit⟩
          cases above with
          | nil => rwa [List.append_nil]
          | cons next above =>
              obtain ⟨rfl, rfl⟩ := List.cons.inj hsplit
              have := habove above ⟨part, behind, rfl⟩
              simpa using this
        next => cases h
      · rintro ⟨rfl, habove⟩
        have hstart := habove [] ⟨first, rest, rfl⟩
        rw [List.append_nil] at hstart
        rw [if_pos hstart, (ih hrest).mpr]
        refine ⟨by simp, ?_⟩
        rintro above ⟨part, behind, rfl⟩
        have := habove (first :: above) ⟨part, behind, rfl⟩
        simpa using this

theorem locate_eq_some_iff (hnormal : path.IsNormal) :
    tree.locate path = some place ↔ place = path.parts ∧
      ∀ above, LeadsTo above path.parts → tree.hasDirectory above = true := by
  rw [locate, if_pos hnormal.1, follow_eq_some_iff (Path.isNormal_iff.mp hnormal).2]
  simp

/-! ## Files of a tree -/

theorem bytesAt?_setFile (place : Location) (bytes : List UInt8) (other : Location) :
    { tree with files := setFile place bytes tree.files }.bytesAt? other =
      if other = place then some bytes else tree.bytesAt? other := by
  unfold bytesAt?
  dsimp only
  induction tree.files with
  | nil =>
      rw [setFile, List.find?_cons]
      by_cases h : other = place
      · simp [h]
      · simp [h, beq_eq_false_iff_ne.mpr (Ne.symm h)]
  | cons file rest ih =>
      rw [setFile]
      by_cases hfile : file.1 = place
      · rw [if_pos hfile, List.find?_cons, List.find?_cons, hfile]
        by_cases h : other = place
        · simp [h]
        · rw [if_neg h, beq_eq_false_iff_ne.mpr (Ne.symm h)]
      · rw [if_neg hfile, List.find?_cons, List.find?_cons]
        cases hother : file.1 == other with
        | false => exact ih
        | true => rw [if_neg fun h => hfile ((beq_iff_eq.mp hother).trans h)]

theorem setFile_eq_self {files : List (Location × List UInt8)}
    (h : (files.find? fun file => file.1 == place).map (·.2) = some bytes) :
    setFile place bytes files = files := by
  induction files with
  | nil => cases h
  | cons file rest ih =>
      rw [List.find?_cons] at h
      rw [setFile]
      by_cases hfile : file.1 = place
      · rw [beq_iff_eq.mpr hfile] at h
        rw [if_pos hfile, ← hfile, ← Option.some.inj h]
      · rw [beq_eq_false_iff_ne.mpr hfile] at h
        rw [if_neg hfile, ih h]

/-- The other files stay where they are. -/
theorem filter_setFile {keeps : Location → Bool} (h : keeps place = false)
    (files : List (Location × List UInt8)) :
    (setFile place bytes files).filter (fun file => keeps file.1) =
      files.filter fun file => keeps file.1 := by
  induction files with
  | nil => simp [setFile, h]
  | cons file rest ih =>
      rw [setFile]
      split
      next hfile => rw [List.filter_cons, List.filter_cons, hfile, h]; rfl
      next => rw [List.filter_cons, List.filter_cons, ih]

theorem mem_setFile {files : List (Location × List UInt8)} {file : Location × List UInt8}
    (h : file ∈ setFile place bytes files) : file = (place, bytes) ∨ file ∈ files := by
  induction files with
  | nil => exact .inl (List.mem_singleton.mp h)
  | cons first rest ih =>
      rw [setFile] at h
      split at h
      · obtain rfl | h := List.mem_cons.mp h
        · exact .inl rfl
        · exact .inr (List.mem_cons_of_mem first h)
      · obtain rfl | h := List.mem_cons.mp h
        · exact .inr List.mem_cons_self
        · exact (ih h).imp_right (List.mem_cons_of_mem first)

theorem bytesAt?_isSome {file : Location × List UInt8} (h : file ∈ tree.files) :
    (tree.bytesAt? file.1).isSome = true := by
  rw [bytesAt?, Option.isSome_map, List.find?_isSome]
  exact ⟨file, h, beq_self_eq_true _⟩

theorem mem_of_bytesAt? (h : tree.bytesAt? place = some bytes) :
    (place, bytes) ∈ tree.files := by
  obtain ⟨file, hfound, rfl⟩ := Option.map_eq_some_iff.mp h
  have hplace : file.1 = place := by simpa using List.find?_some hfound
  subst hplace
  exact List.mem_of_find?_eq_some hfound

/-! ## Trees with a file put in -/

theorem put_eq (tree : FileTree) (place : Location) (bytes : List UInt8) :
    tree.put place bytes = { tree with
      files := setFile place bytes tree.files
      directories := tree.directories ++
        (leading place).filter fun directory => !tree.hasDirectory directory } := rfl

theorem bytesAt?_put (tree : FileTree) (place : Location) (bytes : List UInt8) (other : Location) :
    (tree.put place bytes).bytesAt? other =
      if other = place then some bytes else tree.bytesAt? other :=
  bytesAt?_setFile place bytes other

theorem hasDirectory_put : (tree.put place bytes).hasDirectory directory = true ↔
    tree.hasDirectory directory = true ∨ LeadsTo directory place := by
  rw [hasDirectory_iff, put_eq, List.mem_append, List.mem_filter, mem_leading, ← or_assoc,
    ← hasDirectory_iff]
  by_cases h : tree.hasDirectory directory = true <;> simp [h]

/-- Putting in what is there changes nothing. -/
theorem put_eq_self (hbytes : tree.bytesAt? place = some bytes)
    (hleading : ∀ above, LeadsTo above place → tree.hasDirectory above = true) :
    tree.put place bytes = tree := by
  have hmissing : (leading place).filter (fun directory => !tree.hasDirectory directory) = [] := by
    refine List.filter_eq_nil_iff.mpr fun above habove => ?_
    simp [hleading above (mem_leading.mp habove)]
  rw [put_eq, setFile_eq_self hbytes, hmissing, List.append_nil]

/-- Nothing is in the way of a file at a place: no directory is there, and no file stands where a
directory must lead to it. -/
structure Free (tree : FileTree) (place : Location) : Prop where
  no_directory : tree.hasDirectory place = false
  no_file : ∀ above, LeadsTo above place → tree.bytesAt? above = none

theorem free_iff : tree.Free place ↔ tree.hasDirectory place = false ∧
    ∀ above ∈ leading place, tree.bytesAt? above = none :=
  ⟨fun h => ⟨h.no_directory, fun above habove => h.no_file above (mem_leading.mp habove)⟩,
    fun h => ⟨h.1, fun above habove => h.2 above (mem_leading.mpr habove)⟩⟩

instance (tree : FileTree) (place : Location) : Decidable (tree.Free place) :=
  decidable_of_iff _ free_iff.symm

theorem Free.ne_nil (h : tree.Free place) : place ≠ [] := by
  rintro rfl
  cases h.no_directory

/-- A file is in the way of another one only where one leads to the other. -/
theorem Free.put (h : tree.Free other) (hbelow : ¬ LeadsTo other place)
    (habove : ¬ LeadsTo place other) : (tree.put place bytes).Free other where
  no_directory := by
    rw [← Bool.not_eq_true, hasDirectory_put, h.no_directory]
    simpa using hbelow
  no_file above hleads := by
    rw [bytesAt?_put, if_neg, h.no_file above hleads]
    rintro rfl
    exact habove hleads

/-- A component that can stand in the place of a file. -/
def IsName (part : String) : Prop := part ≠ ".." ∧ part.toList.contains (Char.ofNat 0) = false

/-- The files and directories of a tree stand in directories of the tree, and none is both. -/
structure WellFormed (tree : FileTree) : Prop where
  names : ∀ file ∈ tree.files, ∀ part ∈ file.1, IsName part
  above_file : ∀ file ∈ tree.files, ∀ above, LeadsTo above file.1 → tree.hasDirectory above = true
  above_directory : ∀ directory, tree.hasDirectory directory = true →
    ∀ above, LeadsTo above directory → tree.hasDirectory above = true
  apart : ∀ file ∈ tree.files, tree.hasDirectory file.1 = false

theorem empty_wellFormed (workingDirectory home : Location) :
    (empty workingDirectory home).WellFormed where
  names := nofun
  above_file := nofun
  apart := nofun
  above_directory := by
    intro directory hdirectory above habove
    have hmem : ∀ other, (empty workingDirectory home).hasDirectory other = true ↔
        other <+: workingDirectory := by
      intro other
      simp only [hasDirectory_iff, empty, List.mem_map, List.mem_range]
      constructor
      · rintro (rfl | ⟨count, _, rfl⟩)
        · exact List.nil_prefix
        · exact List.take_prefix _ _
      · intro h
        have hle := h.length_le
        exact .inr ⟨other.length, by omega, (List.prefix_iff_eq_take.mp h).symm⟩
    exact (hmem above).mpr (habove.isPrefix.trans ((hmem directory).mp hdirectory))

theorem WellFormed.put (h : tree.WellFormed) (hnames : ∀ part ∈ place, IsName part)
    (hfree : tree.Free place) : (tree.put place bytes).WellFormed where
  names file hfile := by
    obtain rfl | hfile := mem_setFile hfile
    · exact hnames
    · exact h.names file hfile
  above_file file hfile above habove := by
    rw [hasDirectory_put]
    obtain rfl | hfile := mem_setFile hfile
    · exact .inr habove
    · exact .inl (h.above_file file hfile above habove)
  above_directory directory hdirectory above habove := by
    rw [hasDirectory_put] at hdirectory ⊢
    obtain hdirectory | hdirectory := hdirectory
    · exact .inl (h.above_directory directory hdirectory above habove)
    · exact .inr (.of_isPrefix habove.isPrefix hdirectory)
  apart file hfile := by
    rw [← Bool.not_eq_true, hasDirectory_put]
    obtain rfl | hfile := mem_setFile hfile
    · rw [hfree.no_directory]
      simpa using not_leadsTo_self place
    · rintro (hdirectory | hleads)
      · rw [h.apart file hfile] at hdirectory
        cases hdirectory
      · have hsome := bytesAt?_isSome hfile
        rw [hfree.no_file file.1 hleads] at hsome
        cases hsome

/-! ## Writing below new directories -/

/-- The path to one of the places that lead to the place of a path. -/
theorem isNormal_take (hnormal : path.IsNormal) (count : Nat) :
    ({ path with parts := path.parts.take count } : Path).IsNormal := by
  rw [Path.isNormal_iff] at hnormal ⊢
  exact ⟨hnormal.1, fun part hpart => hnormal.2 part (List.mem_of_mem_take hpart)⟩

theorem isNameable_take (hnameable : isNameable path = true) (count : Nat) :
    isNameable { path with parts := path.parts.take count } = true := by
  rw [isNameable, List.all_eq_true] at hnameable ⊢
  exact fun part hpart => hnameable part (List.mem_of_mem_take hpart)

/-- A directory is made at a place where nothing is, below directories. -/
theorem makeDirectory_eq (hnormal : path.IsNormal) (hnameable : isNameable path = true)
    (hleading : ∀ above, LeadsTo above path.parts → tree.hasDirectory above = true)
    (hfile : tree.bytesAt? path.parts = none) :
    tree.makeDirectory path = .ok { tree with directories := tree.directories ++
      ([path.parts].filter fun directory => !tree.hasDirectory directory) } := by
  have hplace := (locate_eq_some_iff hnormal).mpr ⟨rfl, hleading⟩
  unfold makeDirectory isDirectory
  rw [hnameable, hplace]
  cases hdirectory : tree.hasDirectory path.parts with
  | true => simp [hdirectory]
  | false =>
      have hparent : tree.hasDirectory path.parts.dropLast = true := by
        refine hleading _ (leadsTo_dropLast fun hnil => ?_)
        rw [hnil] at hdirectory
        cases hdirectory
      simp [hdirectory, hfile, hparent]

/-- The tree with the first few of the directories that lead to a place. -/
def withLeading (tree : FileTree) (place : Location) (count : Nat) : FileTree :=
  { tree with directories := tree.directories ++
      (((List.range count).map fun less => place.take less).filter
        fun directory => !tree.hasDirectory directory) }

theorem hasDirectory_withLeading {count : Nat} :
    (tree.withLeading place count).hasDirectory directory = true ↔
      tree.hasDirectory directory = true ∨ ∃ less < count, place.take less = directory := by
  rw [hasDirectory_iff, withLeading, List.mem_append, List.mem_filter, List.mem_map, ← or_assoc,
    ← hasDirectory_iff]
  by_cases h : tree.hasDirectory directory = true <;> simp [h]

/-- The next directory is made unless it is there. -/
theorem makeDirectory_withLeading (hnormal : path.IsNormal) (hnameable : isNameable path = true)
    {count : Nat} (hcount : count < path.parts.length)
    (hfile : tree.bytesAt? (path.parts.take count) = none) :
    (tree.withLeading path.parts count).makeDirectory
        { path with parts := path.parts.take count } =
      .ok (tree.withLeading path.parts (count + 1)) := by
  replace hfile : (tree.withLeading path.parts count).bytesAt? (path.parts.take count) = none :=
    hfile
  rw [makeDirectory_eq (isNormal_take hnormal count) (isNameable_take hnameable count) ?_ hfile]
  · have hsame : (tree.withLeading path.parts count).hasDirectory (path.parts.take count) =
        tree.hasDirectory (path.parts.take count) := by
      rw [Bool.eq_iff_iff, hasDirectory_withLeading, or_iff_left_iff_imp]
      rintro ⟨less, hless, heq⟩
      have hlength := congrArg List.length heq
      rw [List.length_take, List.length_take] at hlength
      omega
    simp only [List.filter_singleton, hsame]
    simp [withLeading, List.range_succ, List.filter_singleton]
  · intro above habove
    refine hasDirectory_withLeading.mpr (.inr ⟨above.length, ?_, ?_⟩)
    · obtain ⟨part, rest, hsplit⟩ := habove
      have hlength := congrArg List.length hsplit
      rw [List.length_take, List.length_append, List.length_cons] at hlength
      omega
    · exact (List.prefix_iff_eq_take.mp (habove.isPrefix.trans (List.take_prefix _ _))).symm

/-- The directories that lead to a place are made from the root on. -/
theorem foldlM_makeDirectory (hnormal : path.IsNormal) (hnameable : isNameable path = true)
    (hfree : tree.Free path.parts) {count : Nat} (hcount : count ≤ path.parts.length) :
    ((List.range count).map fun less => { path with parts := path.parts.take less }).foldlM
        makeDirectory tree = .ok (tree.withLeading path.parts count) := by
  -- after each step the directories that are still to be made are the longer ones
  induction count with
  | zero => simp [withLeading, pure, Except.pure]
  | succ count ih =>
      have hleads : LeadsTo (path.parts.take count) path.parts :=
        mem_leading.mp (List.mem_map.mpr ⟨count, List.mem_range.mpr hcount, rfl⟩)
      rw [List.range_succ, List.map_append, List.foldlM_append, ih (Nat.le_of_succ_le hcount),
        ok_bind, List.map_singleton, List.foldlM_cons,
        makeDirectory_withLeading hnormal hnameable hcount (hfree.no_file _ hleads)]
      rfl

/-- The paths of the directories that lead to the place of a path. -/
theorem parents_parent (hne : path.parts ≠ []) : path.parent.parents.reverse ++ [path.parent] =
    (List.range path.parts.length).map fun less => { path with parts := path.parts.take less } := by
  have hlength : path.parts.length = path.parts.length - 1 + 1 := by
    have hpos := List.length_pos_iff.mpr hne
    omega
  rw [hlength, List.range_succ, List.map_append, List.map_singleton, Path.parents, Path.parent]
  simp only [← List.map_reverse, List.reverse_reverse, List.length_dropLast]
  congr 1
  · refine List.map_congr_left fun less hless => ?_
    rw [List.dropLast_eq_take, List.take_take, Nat.min_eq_left (List.mem_range.mp hless).le]
  · rw [List.dropLast_eq_take]

/-- Where nothing is in its way, a file is written together with the directories that lead to it. -/
theorem writeBelow_eq_put (hnormal : path.IsNormal) (hnameable : isNameable path = true)
    (hfree : tree.Free path.parts) (bytes : List UInt8) :
    tree.writeBelow path bytes = (tree.put path.parts bytes, .ok ()) := by
  have hparent : isNameable path.parent = true := by
    rw [Path.parent, List.dropLast_eq_take]
    exact isNameable_take hnameable _
  have hmade : tree.makeDirectories path.parent =
      .ok (tree.withLeading path.parts path.parts.length) := by
    rw [makeDirectories, if_pos hparent, parents_parent hfree.ne_nil,
      foldlM_makeDirectory hnormal hnameable hfree le_rfl]
  have hput : tree.put path.parts bytes = { tree.withLeading path.parts path.parts.length with
      files := setFile path.parts bytes tree.files } := rfl
  have hdirectory : ∀ directory,
      (tree.withLeading path.parts path.parts.length).hasDirectory directory = true ↔
        tree.hasDirectory directory = true ∨ LeadsTo directory path.parts := by
    intro directory
    change (tree.put path.parts bytes).hasDirectory directory = true ↔ _
    exact hasDirectory_put
  rw [writeBelow, hmade]
  dsimp only
  rw [write, if_pos hnameable, (locate_eq_some_iff hnormal).mpr
    ⟨rfl, fun above habove => (hdirectory above).mpr (.inr habove)⟩]
  have hplace : (tree.withLeading path.parts path.parts.length).hasDirectory
      path.parts = false := by
    rw [← Bool.not_eq_true, hdirectory, hfree.no_directory]
    simpa using not_leadsTo_self path.parts
  have habove : (tree.withLeading path.parts path.parts.length).hasDirectory
      path.parts.dropLast = true := (hdirectory _).mpr (.inr (leadsTo_dropLast hfree.ne_nil))
  simp only [hplace, habove]
  exact congrArg (·, Except.ok ()) hput.symm

end FileTree

end Transclude
