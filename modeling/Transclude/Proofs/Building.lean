import Mathlib
import Transclude.Proofs.Listing
import Transclude.Tree.Build

/-! # What a build writes

A build whose sources render writes each of them, as long as nothing is in the way of its
output. It leaves out the sources that lie below the target directory: none when that
lies apart from the source directory, those in it when it lies inside of the source
directory, and all of them when the source directory lies inside of it. -/

namespace Transclude

open FileTree Location

/-- A path lies inside of a directory when the directory is among the paths above it. -/
def Path.LiesIn (path directory : Path) : Prop :=
  directory.root = path.root ∧ LeadsTo directory.parts path.parts

instance (path directory : Path) : Decidable (path.LiesIn directory) := instDecidableAnd

namespace Build

variable {settings : Settings} {directory target : Path} {tree : FileTree} {source : Location}

theorem isBelow_iff : isBelow directory target source = true ↔
    (directory.join ⟨.relative, source⟩).LiesIn target := by
  obtain ⟨root, parts⟩ := target
  change (Path.parents ⟨directory.root, directory.parts ++ source⟩).contains _ = true ↔ _
  simp only [Path.parents, List.contains_iff_mem, List.mem_map, List.mem_reverse, List.mem_range,
    Path.mk.injEq, Path.LiesIn, ← mem_leading, leading]
  constructor
  · rintro ⟨count, hcount, rfl, rfl⟩
    exact ⟨rfl, count, hcount, rfl⟩
  · rintro ⟨hroot, count, hcount, hparts⟩
    exact ⟨count, hcount, hroot.symm, hparts⟩

/-! ## One source -/

theorem buildSource_of_error {reason : Halt Error}
    (h : (renderSource ⟨tree, settings⟩ directory
      (directory.join ⟨.relative, source⟩)).outcome = .error reason) :
    buildSource settings directory target tree source =
      (tree, ⟨(renderSource ⟨tree, settings⟩ directory
        (directory.join ⟨.relative, source⟩)).events, .error reason⟩) := by
  unfold buildSource
  dsimp only
  rw [h]

/-- The output of a source is put into the tree where nothing is in its way. -/
theorem buildSource_of_ok {text : List Char}
    (h : (renderSource ⟨tree, settings⟩ directory
      (directory.join ⟨.relative, source⟩)).outcome = .ok text)
    (hnormal : (target.join ⟨.relative, source⟩).IsNormal)
    (hnameable : isNameable (target.join ⟨.relative, source⟩) = true)
    (hfree : tree.Free (target.parts ++ source)) :
    buildSource settings directory target tree source =
      (tree.put (target.parts ++ source) (Text.encode text),
        ⟨(renderSource ⟨tree, settings⟩ directory (directory.join ⟨.relative, source⟩)).events ++
          [.notice ("/".intercalate source ++ " -> " ++
            (target.join ⟨.relative, source⟩).toText)],
          .ok (target.join ⟨.relative, source⟩)⟩) := by
  have hwrite := writeBelow_eq_put hnormal hnameable hfree (Text.encode text)
  unfold buildSource
  dsimp only
  rw [h]
  dsimp only
  rw [hwrite]
  rfl

/-! ## Many sources -/

/-- Nothing is in the way of the outputs of some sources, neither in the tree nor among them. -/
structure Ready (target : Path) (sources : List Location) (tree : FileTree) : Prop where
  normal : target.IsNormal
  nameable : isNameable target = true
  ne_nil : ∀ source ∈ sources, source ≠ []
  names : ∀ source ∈ sources, ∀ part ∈ source, IsName part
  free : ∀ source ∈ sources, tree.Free (target.parts ++ source)
  apart : ∀ source ∈ sources, ∀ other ∈ sources, ¬ LeadsTo source other

namespace Ready

variable {sources rest : List Location}

/-- The outputs can stand in the places of files. -/
theorem isName (h : Ready target sources tree) (hsource : source ∈ sources) :
    ∀ part ∈ target.parts ++ source, IsName part := by
  intro part hpart
  obtain hpart | hpart := List.mem_append.mp hpart
  · have hnameable := List.all_eq_true.mp h.nameable part hpart
    exact ⟨(Path.isNormal_iff.mp h.normal).2 part hpart, by simpa using hnameable⟩
  · exact h.names source hsource part hpart

theorem isNormal (h : Ready target sources tree) (hsource : source ∈ sources) :
    (target.join ⟨.relative, source⟩).IsNormal :=
  Path.isNormal_iff.mpr ⟨h.normal.1, fun part hpart => (h.isName hsource part hpart).1⟩

theorem isNameable (h : Ready target sources tree) (hsource : source ∈ sources) :
    isNameable (target.join ⟨.relative, source⟩) = true := by
  refine List.all_eq_true.mpr fun part hpart => ?_
  rw [(h.isName hsource part hpart).2]
  rfl

theorem tail (h : Ready target (source :: rest) tree) : Ready target rest tree where
  normal := h.normal
  nameable := h.nameable
  ne_nil other hother := h.ne_nil other (List.mem_cons_of_mem source hother)
  names other hother := h.names other (List.mem_cons_of_mem source hother)
  free other hother := h.free other (List.mem_cons_of_mem source hother)
  apart other hother further hfurther := h.apart other (List.mem_cons_of_mem source hother)
    further (List.mem_cons_of_mem source hfurther)

/-- The output of one source is not in the way of the others. -/
theorem put (h : Ready target sources tree) (hsource : source ∈ sources) (bytes : List UInt8) :
    Ready target sources (tree.put (target.parts ++ source) bytes) where
  normal := h.normal
  nameable := h.nameable
  ne_nil := h.ne_nil
  names := h.names
  apart := h.apart
  free other hother := by
    have hleads : ∀ {a b : Location}, LeadsTo (target.parts ++ a) (target.parts ++ b) →
        LeadsTo a b := by
      rintro a b ⟨part, behind, hsplit⟩
      rw [List.append_assoc] at hsplit
      exact ⟨part, behind, List.append_cancel_left hsplit⟩
    exact (h.free other hother).put
      (fun hbelow => h.apart other hother source hsource (hleads hbelow))
      fun habove => h.apart source hsource other hother (hleads habove)

end Ready

theorem buildAll_of_error {run : Rendering Path} {middle : FileTree} {reason : Halt Error}
    (h : buildSource settings directory target tree source = (middle, run))
    (hrun : run.outcome = .error reason) (rest : List Location) :
    buildAll settings directory target tree (source :: rest) =
      (middle, ⟨run.events, .error reason⟩) := by
  rw [buildAll, h]
  dsimp only
  rw [hrun]

/-- When a source is written, the build goes on with the tree in which it is. -/
theorem buildAll_of_ok {run : Rendering Path} {middle : FileTree} {path : Path}
    (h : buildSource settings directory target tree source = (middle, run))
    (hrun : run.outcome = .ok path) (rest : List Location) :
    buildAll settings directory target tree (source :: rest) =
      ((buildAll settings directory target middle rest).1,
        do return (← run) :: (← (buildAll settings directory target middle rest).2)) := by
  rw [buildAll, h]
  dsimp only
  rw [hrun]

/-- Sources that each render in their turn are all written. -/
theorem outcome_buildAll {sources : List Location} (hready : Ready target sources tree)
    (hrender : ∀ before source after, sources = before ++ source :: after → ∃ text,
      (renderSource ⟨(buildAll settings directory target tree before).1, settings⟩ directory
        (directory.join ⟨.relative, source⟩)).outcome = .ok text) :
    (buildAll settings directory target tree sources).2.outcome =
      .ok (sources.map fun source => target.join ⟨.relative, source⟩) := by
  induction sources generalizing tree with
  | nil => rfl
  | cons source rest ih =>
      obtain ⟨text, htext⟩ := hrender [] source rest rfl
      replace htext : (renderSource ⟨tree, settings⟩ directory
          (directory.join ⟨.relative, source⟩)).outcome = .ok text := htext
      have hsource := buildSource_of_ok htext (hready.isNormal List.mem_cons_self)
        (hready.isNameable List.mem_cons_self) (hready.free source List.mem_cons_self)
      have hrest := ih (hready.put List.mem_cons_self (Text.encode text)).tail ?_
      · rw [buildAll_of_ok hsource rfl]
        simp only [Run.outcome_bind, Run.outcome_pure, ok_bind, hrest, List.map_cons]
      · intro before other after hsplit
        have hother := hrender (source :: before) other after (by rw [hsplit]; rfl)
        rwa [buildAll_of_ok hsource rfl] at hother

/-! ## The sources of a tree -/

/-- The selected files of a tree can be written next to each other where nothing is in their way. -/
theorem ready_of_sources (htree : tree.WellFormed) (hdirectory : directory.IsNormal)
    (htarget : target.IsNormal) (hnameable : isNameable target = true) {sources : List Location}
    (hsources : ∀ source ∈ sources, source ∈ tree.filesBelow directory)
    (hfree : ∀ source ∈ sources, tree.Free (target.parts ++ source)) :
    Ready target sources tree where
  normal := htarget
  nameable := hnameable
  ne_nil source hsource := htree.below_ne_nil hdirectory (hsources source hsource)
  free := hfree
  names source hsource part hpart := by
    obtain ⟨_, bytes, hfile⟩ := mem_filesBelow hdirectory (hsources source hsource)
    exact htree.names _ hfile part (List.mem_append_right _ hpart)
  apart source hsource other hother := by
    rintro ⟨part, behind, rfl⟩
    obtain ⟨_, bytes, hfile⟩ := mem_filesBelow hdirectory (hsources source hsource)
    obtain ⟨_, bytes', hfile'⟩ := mem_filesBelow hdirectory (hsources _ hother)
    exact htree.not_leadsTo hfile hfile' ⟨part, behind, (List.append_assoc _ _ _).symm⟩

theorem mem_filesBelow_of_sources {selection : Selection} {sources : List Location}
    (h : selection.sources tree directory = .ok sources) :
    ∀ source ∈ sources, source ∈ tree.filesBelow directory := by
  obtain ⟨selects, hselects⟩ := Selection.exists_of_sources h
  obtain rfl := Except.ok.inj (h.symm.trans (hselects tree))
  exact fun source hsource => List.mem_of_mem_filter hsource

/-- The sources that a build writes: those that do not lie inside of its target directory. -/
def kept (directory target : Path) (sources : List Location) : List Location :=
  sources.filter fun source => ¬ (directory.join ⟨.relative, source⟩).LiesIn target

theorem filter_isBelow (directory target : Path) (sources : List Location) :
    sources.filter (fun source => !isBelow directory target source) =
      kept directory target sources := by
  refine List.filter_congr fun source _ => ?_
  rw [Bool.eq_iff_iff, Bool.not_eq_true', ← Bool.not_eq_true, isBelow_iff, decide_eq_true_eq]

/-- Nothing of a directory is written into another one that it lies inside of. -/
theorem kept_eq_nil (h : directory.LiesIn target) (sources : List Location) :
    kept directory target sources = [] := by
  refine List.filter_eq_nil_iff.mpr fun source _ => ?_
  rw [decide_eq_true_eq, not_not]
  obtain ⟨hroot, part, rest, hsplit⟩ := h
  exact ⟨hroot, part, rest ++ source, by simp [Path.join, Path.isAbsolute, hsplit]⟩

/-- All of a directory is written into another one where neither lies inside of the other. -/
theorem kept_eq_self (hne : directory ≠ target) (hinside : ¬ directory.LiesIn target)
    (haround : ¬ target.LiesIn directory) (sources : List Location) :
    kept directory target sources = sources := by
  refine List.filter_eq_self.mpr fun source _ => decide_eq_true fun hlies => ?_
  obtain ⟨hroot, hleads⟩ := hlies
  replace hroot : target.root = directory.root := hroot
  have hparts : directory.parts ≠ target.parts := by
    intro hparts
    obtain ⟨root, parts⟩ := directory
    obtain ⟨root', parts'⟩ := target
    exact hne (by cases hroot; cases hparts; rfl)
  -- both directories are above the source, so that one is above the other
  obtain habove | hbelow := List.prefix_or_prefix_of_prefix hleads.isPrefix
    (List.prefix_append directory.parts source)
  · exact hinside ⟨hroot, leadsTo_iff.mpr ⟨habove, hparts.symm⟩⟩
  · exact haround ⟨hroot.symm, leadsTo_iff.mpr ⟨hbelow, hparts⟩⟩

theorem build_eq {selection : Selection} {sources : List Location}
    (hsources : selection.sources tree (tree.absolute directory) = .ok sources) :
    build settings selection directory target tree =
      ((buildAll settings (tree.absolute directory) (tree.absolute target) tree
          (kept (tree.absolute directory) (tree.absolute target) sources)).1,
        do
          let written ← (buildAll settings (tree.absolute directory) (tree.absolute target) tree
            (kept (tree.absolute directory) (tree.absolute target) sources)).2
          Run.detail ("Built " ++ toString written.length ++ " file(s) from " ++
            (tree.absolute directory).toText)
          return written) := by
  unfold build
  dsimp only
  rw [hsources]
  dsimp only
  rw [filter_isBelow]

/-- A tree with one page. -/
def onePage : FileTree :=
  (FileTree.empty ["site"] ["home"]).put ["site", "a", "x.html"] (Text.encode ['A'])

theorem wellFormed_onePage : onePage.WellFormed :=
  (empty_wellFormed _ _).put (by simp [IsName]) (by decide)

/-- The selection of all pages. -/
def allPages : Selection := ⟨Selection.standardPatterns, []⟩

theorem sources_onePage : allPages.sources onePage (.ofText "/site/a") = .ok [["x.html"]] := by
  cbv

theorem render_onePage :
    (renderSource ⟨onePage, .standard⟩ (.ofText "/site/a") (.ofText "/site/a/x.html")).outcome =
      .ok ['A'] := by
  cbv

end Build

end Transclude
