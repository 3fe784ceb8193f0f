import Mathlib
import Transclude.Proofs.FreeNames

/-! # Data at other places

When the parts of data are moved to other places, different ones to different ones,
every expression has the value it had, moved alike, and every loop the text. -/

namespace Transclude

/-- Other places for the parts of data. Different parts stay different. -/
structure Relabeling where
  place : List Nat → List Nat
  injective : Function.Injective place

namespace Relabeling

/-- The mark at its other place. -/
def mark (r : Relabeling) (mark : Mark) : Mark := { mark with place := r.place mark.place }

/-- What comes from data comes from another place. -/
def origin (r : Relabeling) : Origin → Origin
  | .data path => .data (r.place path)
  | .literal path => .literal path

theorem origin_injective (r : Relabeling) : Function.Injective r.origin := by
  rintro (path | path) (other | other) heq
  · exact congrArg Origin.data (r.injective (Origin.data.inj heq))
  · cases heq
  · cases heq
  · exact heq

theorem moves (r : Relabeling) : Origin.Moves r.origin [] where
  injective := r.origin_injective
  literal path := by rw [List.append_nil]; rfl

/-- A value inside an evaluation with its parts at other places. -/
abbrev located (r : Relabeling) (value : Located) : Located := value.mapIdentity r.origin

/-- A scope with the parts of its values at other places. -/
def scope (r : Relabeling) (scope : Scope) : Scope :=
  scope.map fun binding => (binding.1, r.located binding.2)

@[simp] theorem scope_cons (r : Relabeling) (name : String) (value : Located) (rest : Scope) :
    r.scope ((name, value) :: rest) = (name, r.located value) :: r.scope rest := rfl

@[simp] theorem get?_scope (r : Relabeling) (scope : Scope) (name : String) :
    (r.scope scope).get? name = (scope.get? name).map r.located := by
  unfold Scope.get? Relabeling.scope
  rw [List.find?_map, Option.map_map, Option.map_map]
  rfl

theorem agree (r : Relabeling) (names : List String) (scope : Scope) :
    Scope.Agree r.origin names scope (r.scope scope) :=
  fun name _ => r.get?_scope scope name

end Relabeling

namespace Expr

open Value

variable (r : Relabeling)

/-- The value of an expression moves with the parts of the data. -/
theorem eval_relabeled (scope : Scope) (path : List Nat) (e : Expr) :
    eval (r.scope scope) path e = r.located <$> eval scope path e := by
  have heval := eval_of_agree r.moves path e (r.agree e.names scope)
  rwa [List.append_nil] at heval

theorem evalText_relabeled (text : List Char) (scope : Scope) :
    evalText text (r.scope scope) = r.located <$> evalText text scope := by
  unfold evalText
  cases parse text with
  | error error => rfl
  | ok e =>
      dsimp only
      rw [eval_relabeled]
      cases eval scope [] e <;> rfl

/-- A condition holds wherever the parts of the data are. -/
theorem holds_relabeled (text : List Char) (scope : Scope) :
    holds text (r.scope scope) = holds text scope := by
  simp [holds, evalText_relabeled]

end Expr

namespace Loop

variable (r : Relabeling)

theorem renderSegment_relabeled (scope : Scope) (path : List Nat) (segment : Segment) :
    renderSegment (r.scope scope) path segment = renderSegment scope path segment := by
  have hrender := renderSegment_of_agree r.moves segment (r.agree segment.freeNames scope) path
  rwa [List.append_nil] at hrender

/-- A loop is unrolled alike wherever the parts of the data are. -/
theorem render_relabeled {ω : Type} (delimiters : Delimiters) (header body : List Char)
    (scope : Scope) :
    (render delimiters header body (r.scope scope) : Run ω Expr.Error String) =
      render delimiters header body scope := by
  unfold render
  simp only [renderSegment_relabeled]

end Loop

end Transclude
