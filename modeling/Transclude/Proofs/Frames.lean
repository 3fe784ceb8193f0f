import Mathlib
import Transclude.Proofs.Outcome
import Transclude.Proofs.Paths
import Transclude.Render

/-! # The frames of a rendering

Every frame that a rendering reaches keeps the files on the way to it apart from
each other, so that a chain of includes is no longer than the tree has files. -/

namespace Transclude

/-- The path names a file whose text can be read. -/
def FileTree.Readable (tree : FileTree) (path : Path) : Prop :=
  ∃ text, DataFile.readText tree path = .ok text

theorem FileTree.Readable.isFile {tree : FileTree} {path : Path} (h : tree.Readable path) :
    tree.isFile path = true := by
  obtain ⟨text, h⟩ := h
  obtain ⟨bytes, hbytes, _⟩ := bind_eq_ok.mp h
  replace hbytes : tree.readBytes path = .ok bytes := by
    cases hread : tree.readBytes path with
    | ok found => rw [hread] at hbytes; cases hbytes; rfl
    | error kind => rw [hread] at hbytes; cases hbytes
  unfold FileTree.readBytes at hbytes
  unfold FileTree.isFile
  split at hbytes
  next hnameable =>
    rw [hnameable]
    cases hplace : tree.locate path with
    | none => simp [hplace] at hbytes
    | some place =>
        cases hfound : tree.bytesAt? place with
        | none => simp [hplace, hfound] at hbytes
        | some found => simp [hfound]
  next => cases hbytes

namespace Frame

/-- The invariant of the frames of a rendering: no file is rendered while it is being rendered, the
last one is the frame's own, and all but the first are files of the tree. -/
structure WellNested (tree : FileTree) (frame : Frame) : Prop where
  distinct : frame.stack.Pairwise fun a b => a.sameFile b = false
  last : frame.stack.getLast? = some frame.document.path
  readable : ∀ path ∈ frame.stack.tail, path.IsNormal ∧ tree.Readable path

theorem outermost_wellNested (tree : FileTree) (document : Document) (shared : Data)
    (parameter : Option Data) : (outermost document shared parameter).WellNested tree where
  distinct := List.pairwise_singleton _ _
  last := rfl
  readable := nofun

/-- What is included is none of the files on the way to the frame. -/
theorem checkRecursion_eq_ok {frame : Frame} {target : Path} {u : Unit}
    (h : frame.checkRecursion target = .ok u) :
    ∀ seen ∈ frame.stack, target.sameFile seen = false := by
  unfold checkRecursion at h
  dsimp only at h
  split at h
  next => cases h
  next =>
    split at h
    next hnone =>
      intro seen hseen
      simpa using List.dropWhile_eq_nil_iff.mp hnone seen hseen
    next => cases h

/-- A frame opened behind all others keeps the invariant. -/
theorem WellNested.inner {tree : FileTree} {frame : Frame} (h : frame.WellNested tree)
    {document : Document} (parameter : Option Data) (hnormal : document.path.IsNormal)
    (hreadable : tree.Readable document.path)
    (hnew : ∀ seen ∈ frame.stack, document.path.sameFile seen = false) :
    (frame.inner document parameter).WellNested tree where
  distinct := by
    refine List.pairwise_append.mpr ⟨h.distinct, List.pairwise_singleton _ _, ?_⟩
    intro seen hseen path hpath
    obtain rfl := List.mem_singleton.mp hpath
    rw [Path.sameFile_comm]
    exact hnew seen hseen
  last := by simp [Frame.inner]
  readable := by
    intro path hpath
    have hne : frame.stack ≠ [] := by
      intro hnil
      have hlast := h.last
      rw [hnil] at hlast
      cases hlast
    rw [Frame.inner, List.tail_append_of_ne_nil hne, List.mem_append, List.mem_singleton] at hpath
    obtain hpath | rfl := hpath
    · exact h.readable path hpath
    · exact ⟨hnormal, hreadable⟩

/-- There are no more frames on the way to one than the tree has files, but for the outermost. -/
theorem WellNested.length_stack_le {tree : FileTree} {frame : Frame} (h : frame.WellNested tree) :
    frame.stack.length ≤ tree.filePaths.length + 1 := by
  -- paths that name different files are different
  have hnodup : frame.stack.tail.Nodup := by
    refine (h.distinct.sublist (List.tail_sublist _)).imp ?_
    rintro a _ hdifferent rfl
    simp at hdifferent
  have hsubset : frame.stack.tail ⊆ tree.filePaths := by
    intro path hpath
    obtain ⟨hnormal, hreadable⟩ := h.readable path hpath
    exact FileTree.mem_filePaths.mpr ⟨hnormal, hreadable.isFile⟩
  have hle := (hnodup.subperm hsubset).length_le
  rw [List.length_tail] at hle
  omega

end Frame

namespace Renderer

variable {renderer : Renderer} {frame child : Frame}

/-- An include or a loop in a frame may open another one: for a document that it puts in its place,
whatever its directive, its arguments and the data that it gives. -/
def Opens (renderer : Renderer) (frame child : Frame) : Prop :=
  ∃ directive arguments document parameter,
    (renderer.included frame directive arguments).outcome = .ok document ∧
      child = frame.inner document parameter

/-- An included document is a readable file that is not being rendered. -/
theorem included_eq_ok {directive : Directive} {arguments : Include.Arguments}
    {document : Document}
    (h : (renderer.included frame directive arguments).outcome = .ok document) :
    document.path.IsNormal ∧ renderer.tree.Readable document.path ∧
      ∀ seen ∈ frame.stack, document.path.sameFile seen = false := by
  unfold included at h
  obtain ⟨_, hcheck, h⟩ := Run.bind_eq_ok.mp h
  obtain ⟨text, htext, h⟩ := Run.bind_eq_ok.mp h
  obtain ⟨prepared, _, h⟩ := Run.bind_eq_ok.mp h
  cases h
  refine ⟨FileTree.isNormal_absolute _ _, ?_, ?_⟩
  · rw [Run.outcome_lift] at htext
    unfold readIncluded at htext
    cases hread : DataFile.readText renderer.tree (renderer.target frame arguments.path) with
    | ok found => exact ⟨found, hread⟩
    | error reason => rw [hread] at htext; cases htext
  · rw [Run.outcome_lift] at hcheck
    cases hresult : frame.checkRecursion (renderer.target frame arguments.path) with
    | ok u => exact Frame.checkRecursion_eq_ok hresult
    | error reason => rw [hresult] at hcheck; cases hcheck

theorem Opens.wellNested (h : renderer.Opens frame child)
    (hframe : frame.WellNested renderer.tree) : child.WellNested renderer.tree := by
  obtain ⟨directive, arguments, document, parameter, hdocument, rfl⟩ := h
  obtain ⟨hnormal, hreadable, hnew⟩ := included_eq_ok hdocument
  exact hframe.inner parameter hnormal hreadable hnew

theorem Opens.length_stack (h : renderer.Opens frame child) :
    child.stack.length = frame.stack.length + 1 := by
  obtain ⟨directive, arguments, document, parameter, _, rfl⟩ := h
  simp [Frame.inner]

/-- The invariant holds of every frame that a rendering reaches. -/
theorem wellNested_of_reaches {outer : Frame} (houter : outer.WellNested renderer.tree)
    (h : Relation.ReflTransGen renderer.Opens outer frame) : frame.WellNested renderer.tree := by
  induction h with
  | refl => exact houter
  | tail _ hopens ih => exact hopens.wellNested ih

/-! ## What the text of a frame depends on -/

theorem expandInclude_congr {render render' : Frame → Rendering (List Char)}
    (h : ∀ child, renderer.Opens frame child → render child = render' child) :
    renderer.expandInclude render frame = renderer.expandInclude render' frame := by
  funext directive
  unfold expandInclude
  split
  next => rfl
  next arguments _ =>
    apply Run.bind_congr_of_ok
    intro document hdocument
    apply Run.bind_congr_of_ok
    intro parameter _
    apply Run.bind_congr_of_ok
    intro data _
    rw [h _ ⟨directive, arguments, document, data, hdocument, rfl⟩]

/-- Items are rendered alike in frames that open the document alike. -/
theorem renderItems_congr {render render' : Frame → Rendering (List Char)} {frame frame' : Frame}
    {document : Document} (h : ∀ parameter, render (frame.inner document parameter) =
      render' (frame'.inner document parameter)) (items : List Datum) :
    renderItems render frame document items = renderItems render' frame' document items := by
  induction items with
  | nil => rfl
  | cons item rest ih => rw [renderItems, renderItems, h, ih]

theorem expandLoop_congr {render render' : Frame → Rendering (List Char)}
    (h : ∀ child, renderer.Opens frame child → render child = render' child) :
    renderer.expandLoop render frame = renderer.expandLoop render' frame := by
  funext directive
  unfold expandLoop
  split
  next => rfl
  next arguments _ =>
    apply Run.bind_congr_of_ok
    intro parameter _
    apply Run.bind_congr_of_ok
    intro items _
    split
    next => rfl
    next =>
      apply Run.bind_congr_of_ok
      intro document hdocument
      rw [renderItems_congr fun parameter =>
        h _ ⟨directive, arguments, document, parameter, hdocument, rfl⟩]

/-- The text of a frame depends on no frames but those that it opens. -/
theorem expandFrame_congr {render render' : Frame → Rendering (List Char)}
    (h : ∀ child, renderer.Opens frame child → render child = render' child) :
    renderer.expandFrame render frame = renderer.expandFrame render' frame := by
  rw [expandFrame, expandFrame, expandInclude_congr h, expandLoop_congr h]

/-- The rendering of a frame comes to an end with a run, which is made from those of the frames that
it opens. -/
inductive Resolves (renderer : Renderer) : Frame → Rendering (List Char) → Prop
  | expand (frame : Frame) (render : Frame → Rendering (List Char))
    (hopened : ∀ child, renderer.Opens frame child → Resolves renderer child (render child)) :
    Resolves renderer frame (renderer.expandFrame render frame)

/-- A rendering ends in at most one way. -/
theorem Resolves.unique {run run' : Rendering (List Char)} (h : renderer.Resolves frame run)
    (h' : renderer.Resolves frame run') : run = run' := by
  induction h generalizing run' with
  | expand frame render _ ih =>
      cases h' with
      | expand _ render' hopened' =>
          exact expandFrame_congr fun child hchild => ih child hchild (hopened' child hchild)

/-- With enough depth left for the files that are not being rendered yet, the rendering of a frame
comes to its end. -/
theorem resolves_renderFrame {depth : Nat} (hframe : frame.WellNested renderer.tree)
    (hdepth : renderer.tree.filePaths.length + 2 ≤ frame.stack.length + depth) :
    renderer.Resolves frame (renderer.renderFrame depth frame) := by
  induction depth generalizing frame with
  | zero =>
      have hle := hframe.length_stack_le
      omega
  | succ depth ih =>
      refine .expand frame _ fun child hchild => ih (hchild.wellNested hframe) ?_
      rw [hchild.length_stack]
      omega

/-- The depth that a rendering is given is never used up. -/
theorem resolves_outermost (document : Document) (shared : Data) (parameter : Option Data) :
    renderer.Resolves (.outermost document shared parameter)
      (renderer.renderFrame renderer.depthBound (.outermost document shared parameter)) := by
  refine resolves_renderFrame (Frame.outermost_wellNested _ _ _ _) ?_
  have hle := renderer.tree.length_filePaths_le
  simp only [Frame.outermost, List.length_singleton, depthBound]
  omega

end Renderer

end Transclude
