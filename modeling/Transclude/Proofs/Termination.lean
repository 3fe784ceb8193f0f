import Mathlib
import Transclude.Proofs.Frames
import Transclude.Proofs.Nesting
import Transclude.Proofs.ReadingDepth

/-! # Rendering comes to an end

No file is rendered while it is being rendered, so that the way from the outermost
document to any frame is bounded by the files of the tree. Inside of a frame every
scan advances, blocks are followed into shorter texts, and loops are bounded. -/

namespace Transclude

/-- What the steps of a rendering do that keeps each of them finite, for some delimiters. -/
structure Progress (delimiters : Delimiters) : Prop where
  /-- Removing commented includes only takes characters away. -/
  comments : ∀ text, (Comment.strip delimiters text).Sublist text
  /-- Directives stand one behind the other, each longer than its arguments and its body. -/
  directives : ∀ name shape text,
    Directive.Advance 0 text.length (Directive.all delimiters name shape text)
  /-- Variables stand one behind the other, none of them empty. -/
  references : ∀ text, (Variable.fragments delimiters text).flatMap Variable.Fragment.source = text ∧
    ∀ fragment ∈ Variable.fragments delimiters text, fragment.source ≠ []
  /-- Conditions are decided in a text by deciding those in the bodies of its blocks. -/
  conditions : ∀ scope text, Renderer.decided delimiters scope text =
    Renderer.replaceDirectives delimiters "if".toList .block (fun directive => do
      if ← Renderer.conditionHolds scope directive then
        return some (← Renderer.decided delimiters scope directive.body)
      else return some []) text
  /-- The body of a loop is cut into segments by cutting the bodies of the loops in it. -/
  bodies : ∀ body, Loop.compile (ω := Warning) delimiters body =
    Loop.cut (Loop.compile delimiters) (Directive.pieces delimiters Loop.directiveName .block body)

theorem progress (delimiters : Delimiters) : Progress delimiters where
  comments := Comment.strip_sublist delimiters
  directives := Directive.all_advance delimiters
  references := Variable.fragments_source delimiters
  conditions := Renderer.decided_eq delimiters
  bodies := Loop.compile_eq delimiters

/-- Loops render their body at most the greatest number of times, and the depth of the reader of
expressions is never used up. -/
structure Bounded : Prop where
  /-- A finished loop has rendered its body no more often. -/
  rendered : ∀ {render scope path header texts},
    Loop.iterations render scope path header = .ok texts → texts.length ≤ Expr.maxIterations
  /-- No loop asks for its body in a later iteration. -/
  asked : ∀ {render render' : Scope → List Nat → Expr.Evaluation String} {scope path},
    (∀ inner count, count < Expr.maxIterations →
      render inner (2 :: count :: 1 :: path) = render' inner (2 :: count :: 1 :: path)) →
    ∀ header, Loop.iterations render scope path header = Loop.iterations render' scope path header
  /-- More depth than that chosen for the tokens gives the same expression or the same failure. -/
  expressions : ∀ {tokens extra},
    Expr.readExpr (Expr.depthFor tokens + extra) tokens = Expr.readExpression tokens

theorem bounded : Bounded where
  rendered := Loop.length_of_iterations
  asked := Loop.iterations_congr
  expressions := Expr.readExpr_eq_readExpression (by unfold Expr.depthFor; omega)

namespace Renderer

/-- Every rendering comes to an end with one run, since all frames on the way keep the invariant and
each step in them is finite. -/
theorem renderDocument_terminates (renderer : Renderer) (document : Document)
    (data : Option Data) :
    (∃! run, renderer.Resolves (.outermost document (renderer.sharedData document) data) run) ∧
    (∀ run, renderer.Resolves (.outermost document (renderer.sharedData document) data) run →
      (renderer.renderDocument document data).outcome = run.outcome ∧
        (renderer.renderDocument document data).warnings = run.warnings) ∧
    (∀ frame, Relation.ReflTransGen renderer.Opens
        (.outermost document (renderer.sharedData document) data) frame →
      frame.WellNested renderer.tree ∧
        frame.stack.length ≤ renderer.tree.filePaths.length + 1) ∧
    Progress renderer.settings.delimiters ∧ Bounded := by
  have hresolves := renderer.resolves_outermost document (renderer.sharedData document) data
  refine ⟨⟨_, hresolves, fun run hrun => hrun.unique hresolves⟩, ?_, ?_, progress _, bounded⟩
  · intro run hrun
    rw [hrun.unique hresolves]
    exact ⟨rfl, rfl⟩
  · intro frame hframe
    have hnested := wellNested_of_reaches
      (Frame.outermost_wellNested renderer.tree document _ data) hframe
    exact ⟨hnested, hnested.length_stack_le⟩

end Renderer

end Transclude
