import Mathlib
import Transclude.Proofs.Frames
import Transclude.Proofs.Growing
import Transclude.Proofs.Silence
import Transclude.Proofs.Substitution

/-! # What a rendering reads

A rendering reads the files that its includes and loops name, and the data files that
their parameters name: those of the calls that it comes to, which are the calls behind
others that have been expanded. Where two trees have the same files at these paths, a
document is rendered alike in both. -/

namespace Transclude

/-- Something in a list that is gone through from the left is come to once all before it is done. -/
inductive ComesTo {α : Type} (done : α → Prop) : List α → α → Prop
  | here {a : α} {rest : List α} : ComesTo done (a :: rest) a
  | behind {first a : α} {rest : List α} (hfirst : done first) (h : ComesTo done rest a) :
    ComesTo done (first :: rest) a

theorem ComesTo.mem {α : Type} {done : α → Prop} {items : List α} {a : α}
    (h : ComesTo done items a) : a ∈ items := by
  induction h with
  | here => exact List.mem_cons_self
  | behind _ _ ih => exact List.mem_cons_of_mem _ ih

/-- A piece is done with when it is text, or a directive for which the handler gives something. -/
def Piece.Done (handler : Directive → Rendering (Option (List Char))) : Piece → Prop
  | .directive found _ => ∃ replacement, (handler found).outcome = .ok replacement
  | _ => True

/-- Pieces are put together alike by handlers that agree on the directives that are come to. -/
theorem Piece.assemble_comesTo {remark : Part → Nat → Rendering Unit}
    {handler handler' : Directive → Rendering (Option (List Char))} {pieces : List Piece}
    (h : ∀ found source, ComesTo (Piece.Done handler) pieces (.directive found source) →
      handler' found = handler found) :
    Piece.assemble remark handler' pieces = Piece.assemble remark handler pieces := by
  induction pieces with
  | nil => rfl
  | cons piece rest ih =>
      cases piece with
      | literal text =>
          rw [assemble, assemble,
            ih fun found source hfound => h found source (.behind trivial hfound)]
      | unbalanced part start =>
          rw [assemble, assemble,
            ih fun found source hfound => h found source (.behind trivial hfound)]
      | directive first text =>
          rw [assemble, assemble, h first text .here]
          apply Run.bind_congr_of_ok
          intro replacement hreplacement
          rw [ih fun found source hfound =>
            h found source (.behind ⟨replacement, hreplacement⟩ hfound)]

namespace Renderer

variable {renderer : Renderer} {frame : Frame}

/-- The rendered text of a frame, for the depth that no chain of includes reaches. -/
def rendered (renderer : Renderer) (frame : Frame) : Rendering (List Char) :=
  renderer.renderFrame renderer.depthBound frame

theorem resolves_rendered (h : frame.WellNested renderer.tree) :
    renderer.Resolves frame (renderer.rendered frame) := by
  refine resolves_renderFrame h ?_
  have hle := renderer.tree.length_filePaths_le
  rw [depthBound]
  omega

/-- A frame is expanded with the texts of the frames that it opens. -/
theorem rendered_eq (h : frame.WellNested renderer.tree) :
    renderer.rendered frame = renderer.expandFrame renderer.rendered frame :=
  (resolves_rendered h).unique
    (.expand frame _ fun _ hchild => resolves_rendered (hchild.wellNested h))

/-! ## The paths that are evaluated -/

/-- The data file that a parameter names in quotes. -/
def dataFile? (frame : Frame) (arguments : Include.Arguments) : Option Path :=
  (Include.Parameter.quotedPath? (Text.trim (arguments.parameter.getD []))).map fun path =>
    frame.document.base.join (Path.ofChars path)

/-- The rendering of a frame comes to an include. -/
def Includes (renderer : Renderer) (frame : Frame) (found : Directive) : Prop :=
  ∃ text source, (renderer.renderText frame).outcome = .ok text ∧
    ComesTo (Piece.Done (renderer.expandInclude renderer.rendered frame))
      (Directive.pieces renderer.settings.delimiters "include".toList .call text)
      (.directive found source)

/-- The rendering of a frame comes to a loop over files. -/
def Loops (renderer : Renderer) (frame : Frame) (found : Directive) : Prop :=
  ∃ text source, (renderer.renderText frame >>=
      replaceDirectives renderer.settings.delimiters "include".toList .call
        (renderer.expandInclude renderer.rendered frame)).outcome = .ok text ∧
    ComesTo (Piece.Done (renderer.expandLoop renderer.rendered frame))
      (Directive.pieces renderer.settings.delimiters "loop".toList .call text)
      (.directive found source)

/-- The paths that the rendering of a frame evaluates: those of the files that its calls put in
their place, those of the data files of their parameters, and what the frames of these files
evaluate. An include evaluates its file first and a loop its parameter. -/
inductive Evaluates (renderer : Renderer) : Frame → Path → Prop
  | includeFile {frame : Frame} {found : Directive} {arguments : Include.Arguments}
    (hfound : renderer.Includes frame found)
    (harguments : Include.Arguments.parse? found.args = some arguments) :
    Evaluates renderer frame (renderer.target frame arguments.path)
  | includeData {frame : Frame} {found : Directive} {arguments : Include.Arguments}
    {document : Document} {path : Path} (hfound : renderer.Includes frame found)
    (harguments : Include.Arguments.parse? found.args = some arguments)
    (hdocument : (renderer.included frame found arguments).outcome = .ok document)
    (hpath : dataFile? frame arguments = some path) : Evaluates renderer frame path
  | includeInner {frame : Frame} {found : Directive} {arguments : Include.Arguments}
    {document : Document} {parameter : Datum} {data : Option Data} {path : Path}
    (hfound : renderer.Includes frame found)
    (harguments : Include.Arguments.parse? found.args = some arguments)
    (hdocument : (renderer.included frame found arguments).outcome = .ok document)
    (hparameter : (renderer.parameter frame arguments).outcome = .ok parameter)
    (hdata : (Renderer.includeData frame parameter).outcome = .ok data)
    (h : Evaluates renderer (frame.inner document data) path) : Evaluates renderer frame path
  | loopData {frame : Frame} {found : Directive} {arguments : Include.Arguments} {path : Path}
    (hfound : renderer.Loops frame found)
    (harguments : Include.Arguments.parse? found.args = some arguments)
    (hpath : dataFile? frame arguments = some path) : Evaluates renderer frame path
  | loopFile {frame : Frame} {found : Directive} {arguments : Include.Arguments}
    {parameter : Datum} {items : List Datum} (hfound : renderer.Loops frame found)
    (harguments : Include.Arguments.parse? found.args = some arguments)
    (hparameter : (renderer.parameter frame arguments).outcome = .ok parameter)
    (hitems : (loopItems frame parameter).outcome = .ok items) (hne : items ≠ []) :
    Evaluates renderer frame (renderer.target frame arguments.path)
  | loopInner {frame : Frame} {found : Directive} {arguments : Include.Arguments}
    {parameter : Datum} {items : List Datum} {document : Document} {item : Datum} {path : Path}
    (hfound : renderer.Loops frame found)
    (harguments : Include.Arguments.parse? found.args = some arguments)
    (hparameter : (renderer.parameter frame arguments).outcome = .ok parameter)
    (hitems : (loopItems frame parameter).outcome = .ok items)
    (hdocument : (renderer.included frame found arguments).outcome = .ok document)
    (hitem : ComesTo (fun item => ∃ text,
      (renderer.rendered (frame.inner document (itemData item))).outcome = .ok text) items item)
    (h : Evaluates renderer (frame.inner document (itemData item)) path) :
    Evaluates renderer frame path

/-! ## Texts without includes -/

theorem not_mem_pieces_of_silent {delimiters : Delimiters} {name text : List Char}
    (h : Directive.Silent delimiters name text []) (shape : Shape) (found : Directive)
    (source : List Char) :
    Piece.directive found source ∉ Directive.pieces delimiters name shape text := by
  rw [Directive.pieces_silent h]
  split <;> simp

theorem not_includes_of_silent {text : List Char}
    (htext : (renderer.renderText frame).outcome = .ok text)
    (hsilent : Directive.Silent renderer.settings.delimiters "include".toList text [])
    (found : Directive) : ¬ renderer.Includes frame found := by
  rintro ⟨other, source, hother, hfound⟩
  cases htext.symm.trans hother
  exact not_mem_pieces_of_silent hsilent .call found source hfound.mem

/-- In a text without includes the loops that are come to are its own. -/
theorem Loops.mem_of_silent {text : List Char} {found : Directive}
    (h : renderer.Loops frame found) (htext : (renderer.renderText frame).outcome = .ok text)
    (hsilent : Directive.Silent renderer.settings.delimiters "include".toList text []) :
    ∃ source, .directive found source ∈
      Directive.pieces renderer.settings.delimiters "loop".toList .call text := by
  obtain ⟨other, source, hother, hfound⟩ := h
  obtain ⟨first, hfirst, hother⟩ := Run.bind_eq_ok.mp hother
  cases htext.symm.trans hfirst
  rw [outcome_replaceDirectives_silent hsilent] at hother
  cases hother
  exact ⟨source, hfound.mem⟩

/-- A document without directives evaluates no path. -/
theorem not_evaluates_of_plain (hdelimiters : renderer.settings.delimiters = .standard)
    (hplain : '@' ∉ frame.document.text) (path : Path) : ¬ renderer.Evaluates frame path := by
  have htext : (renderer.renderText frame).outcome = .ok frame.document.text := by
    have hreplace := Variable.replace_plain hplain frame.data []
    rw [Variable.replace_nil, List.append_nil, map_pure, List.append_nil] at hreplace
    unfold renderText
    simp only [hdelimiters, Comment.strip_plain hplain, decideConditions,
      replaceDirectives_silent (Directive.silent_of_plain hplain []), pure_bind, hreplace,
      Run.outcome_pure]
  have hsilent : ∀ name, Directive.Silent renderer.settings.delimiters name
      frame.document.text [] := by
    rw [hdelimiters]
    exact fun name => Directive.silent_of_plain hplain []
  have hincludes := not_includes_of_silent htext (hsilent _)
  have hloops : ∀ found, ¬ renderer.Loops frame found := by
    intro found hfound
    obtain ⟨source, hmem⟩ := hfound.mem_of_silent htext (hsilent _)
    exact not_mem_pieces_of_silent (hsilent _) .call found source hmem
  intro h
  cases h with
  | includeFile hfound => exact hincludes _ hfound
  | includeData hfound => exact hincludes _ hfound
  | includeInner hfound => exact hincludes _ hfound
  | loopData hfound => exact hloops _ hfound
  | loopFile hfound => exact hloops _ hfound
  | loopInner hfound => exact hloops _ hfound

/-! ## Rendering alike in two trees -/

theorem replaceDirectives_comesTo {delimiters : Delimiters} {name : List Char} {shape : Shape}
    {handler handler' : Directive → Rendering (Option (List Char))} {text : List Char}
    (h : ∀ found source, ComesTo (Piece.Done handler)
      (Directive.pieces delimiters name shape text) (.directive found source) →
        handler' found = handler found) :
    replaceDirectives delimiters name shape handler' text =
      replaceDirectives delimiters name shape handler text :=
  Piece.assemble_comesTo h

/-- Items are rendered alike when those that are come to are. -/
theorem renderItems_comesTo {render render' : Frame → Rendering (List Char)} {document : Document}
    {items : List Datum} (h : ∀ item, ComesTo (fun item => ∃ text,
      (render (frame.inner document (itemData item))).outcome = .ok text) items item →
        render' (frame.inner document (itemData item)) =
          render (frame.inner document (itemData item))) :
    renderItems render' frame document items = renderItems render frame document items := by
  induction items with
  | nil => rfl
  | cons item rest ih =>
      rw [renderItems, renderItems, h item .here]
      apply Run.bind_congr_of_ok
      intro text htext
      rw [ih fun other hother => h other (.behind ⟨text, htext⟩ hother)]

variable {settings : Settings} {tree tree' : FileTree}

theorem target_congr (h : tree'.workingDirectory = tree.workingDirectory) (frame : Frame)
    (path : List Char) :
    target ⟨tree', settings⟩ frame path = target ⟨tree, settings⟩ frame path := by
  rw [target, target, FileTree.absolute, FileTree.absolute, FileTree.workingPath,
    FileTree.workingPath, h]

theorem included_congr (h : tree'.workingDirectory = tree.workingDirectory) {found : Directive}
    {arguments : Include.Arguments}
    (hsame : tree.SameAt tree' (target ⟨tree, settings⟩ frame arguments.path)) :
    included ⟨tree', settings⟩ frame found arguments =
      included ⟨tree, settings⟩ frame found arguments := by
  unfold included
  rw [target_congr h]
  dsimp only
  unfold readIncluded
  rw [hsame.readText_eq]
  rfl

theorem parameter_congr {arguments : Include.Arguments}
    (hsame : ∀ path, dataFile? frame arguments = some path → tree.SameAt tree' path) :
    parameter ⟨tree', settings⟩ frame arguments = parameter ⟨tree, settings⟩ frame arguments := by
  unfold parameter Include.Parameter.resolve
  dsimp only
  unfold dataFile? at hsame
  split
  next => rfl
  next =>
    split
    next path hpath =>
      replace hsame := hsame _ (by rw [hpath]; rfl)
      unfold Include.Parameter.fromFile
      rw [hsame.isFile_eq, hsame.read_eq]
    next => rfl

/-- The frames that a frame opens in both of two trees, and whose paths it evaluates, are rendered
alike in both. -/
def RendersInner (settings : Settings) (tree tree' : FileTree) (frame : Frame) : Prop :=
  ∀ child, Opens ⟨tree, settings⟩ frame child → Opens ⟨tree', settings⟩ frame child →
    (∀ path, Evaluates ⟨tree, settings⟩ child path → Evaluates ⟨tree, settings⟩ frame path) →
      rendered ⟨tree', settings⟩ child = rendered ⟨tree, settings⟩ child

theorem expandInclude_sameAt (h : tree'.workingDirectory = tree.workingDirectory)
    (hsame : ∀ path, Evaluates ⟨tree, settings⟩ frame path → tree.SameAt tree' path)
    (hinner : RendersInner settings tree tree' frame) {found : Directive}
    (hfound : Includes ⟨tree, settings⟩ frame found) :
    expandInclude ⟨tree', settings⟩ (rendered ⟨tree', settings⟩) frame found =
      expandInclude ⟨tree, settings⟩ (rendered ⟨tree, settings⟩) frame found := by
  unfold expandInclude
  split
  next => rfl
  next arguments harguments =>
    have hincluded := @included_congr frame settings tree tree' h found arguments
      (hsame _ (.includeFile hfound harguments))
    rw [hincluded]
    apply Run.bind_congr_of_ok
    intro document hdocument
    rw [parameter_congr fun path hpath =>
      hsame path (.includeData hfound harguments hdocument hpath)]
    apply Run.bind_congr_of_ok
    intro parameter hparameter
    apply Run.bind_congr_of_ok
    intro data hdata
    rw [hinner _ ⟨found, arguments, document, data, hdocument, rfl⟩
      ⟨found, arguments, document, data, by rw [hincluded, hdocument], rfl⟩
      fun path => .includeInner hfound harguments hdocument hparameter hdata]

theorem expandLoop_sameAt (h : tree'.workingDirectory = tree.workingDirectory)
    (hsame : ∀ path, Evaluates ⟨tree, settings⟩ frame path → tree.SameAt tree' path)
    (hinner : RendersInner settings tree tree' frame) {found : Directive}
    (hfound : Loops ⟨tree, settings⟩ frame found) :
    expandLoop ⟨tree', settings⟩ (rendered ⟨tree', settings⟩) frame found =
      expandLoop ⟨tree, settings⟩ (rendered ⟨tree, settings⟩) frame found := by
  unfold expandLoop
  split
  next => rfl
  next arguments harguments =>
    rw [parameter_congr fun path hpath => hsame path (.loopData hfound harguments hpath)]
    apply Run.bind_congr_of_ok
    intro parameter hparameter
    apply Run.bind_congr_of_ok
    intro items hitems
    split
    next => rfl
    next hne =>
      rw [List.isEmpty_iff] at hne
      have hincluded := @included_congr frame settings tree tree' h found arguments
        (hsame _ (.loopFile hfound harguments hparameter hitems hne))
      rw [hincluded]
      apply Run.bind_congr_of_ok
      intro document hdocument
      rw [renderItems_comesTo fun item hitem => hinner _
        ⟨found, arguments, document, itemData item, hdocument, rfl⟩
        ⟨found, arguments, document, itemData item, by rw [hincluded, hdocument], rfl⟩
        fun path => .loopInner hfound harguments hparameter hitems hdocument hitem]

/-- A frame is rendered alike in two trees that have the same files at the paths that its rendering
evaluates. -/
theorem rendered_congr (h : tree'.workingDirectory = tree.workingDirectory)
    {run : Rendering (List Char)} (hresolves : Resolves ⟨tree, settings⟩ frame run)
    (hframe : frame.WellNested tree) (hframe' : frame.WellNested tree')
    (hsame : ∀ path, Evaluates ⟨tree, settings⟩ frame path → tree.SameAt tree' path) :
    rendered ⟨tree', settings⟩ frame = rendered ⟨tree, settings⟩ frame := by
  induction hresolves with
  | expand frame render hopened ih =>
      have hinner : RendersInner settings tree tree' frame := by
        intro child hopens hopens' hpaths
        exact ih child hopens (hopens.wellNested hframe) (hopens'.wellNested hframe')
          fun path hpath => hsame path (hpaths path hpath)
      rw [@rendered_eq ⟨tree, settings⟩ frame hframe, @rendered_eq ⟨tree', settings⟩ frame hframe',
        expandFrame, expandFrame]
      refine congrArg (Run.mapError _) ?_
      apply Run.bind_congr_of_ok
      intro text htext
      have hincludes := @replaceDirectives_comesTo settings.delimiters "include".toList .call
        (expandInclude ⟨tree, settings⟩ (rendered ⟨tree, settings⟩) frame)
        (expandInclude ⟨tree', settings⟩ (rendered ⟨tree', settings⟩) frame) text
        fun found source hfound =>
          expandInclude_sameAt h hsame hinner ⟨text, source, htext, hfound⟩
      dsimp only
      rw [hincludes]
      apply Run.bind_congr_of_ok
      intro included hincluded
      apply replaceDirectives_comesTo
      intro found source hfound
      exact expandLoop_sameAt h hsame hinner
        ⟨included, source, Run.bind_eq_ok.mpr ⟨text, htext, hincluded⟩, hfound⟩

/-- A document is rendered alike in two trees that have the same files at the paths that its
rendering evaluates. -/
theorem renderDocument_congr (h : tree'.workingDirectory = tree.workingDirectory)
    (document : Document) (data : Option Data)
    (hsame : ∀ path, Evaluates ⟨tree, settings⟩
      (.outermost document (sharedData ⟨tree, settings⟩ document) data) path →
        tree.SameAt tree' path) :
    renderDocument ⟨tree', settings⟩ document data =
      renderDocument ⟨tree, settings⟩ document data := by
  have hrendered := rendered_congr h
    (@resolves_outermost ⟨tree, settings⟩ document _ data)
    (Frame.outermost_wellNested tree document _ data)
    (Frame.outermost_wellNested tree' document _ data) hsame
  unfold renderDocument
  exact congrArg (_ >>= fun _ => ·) hrendered

end Renderer

end Transclude
