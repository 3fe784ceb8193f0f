import Mathlib
import Transclude.Proofs.Passing
import Transclude.Proofs.Placeholders

/-! # Unrolling a loop over a call

A loop over the values of a list, whose body is a call with the loop variable as
its parameter, becomes one call for each value, with the text of the value as its
parameter. -/

namespace Transclude

namespace Include

/-- A call up to its parameter. -/
def callFront (name path : List Char) : List Char :=
  '@' :: '@' :: (name ++ '(' :: Chunk.quoted path ++ [',', ' '])

theorem call_eq (name path parameter : List Char) :
    call name path parameter = callFront name path ++ (parameter ++ [')']) := by
  simp [call, callFront, passing]

end Include

namespace Loop

open Include

/-! ## The body -/

/-- The segments of a call that passes the loop variable. -/
def callSegments (path : List Char) : List Segment :=
  [.literal (String.ofList (callFront "include".toList path)), .placeholder (.identifier "x"),
    .literal ")"]

/-- The placeholder of the loop variable. -/
def placeholder : List Char := "$\x7bx\x7d".toList

/-- The call as a body. -/
def callBody {path : List Char} (h : '\x7b' ∉ path) : Body where
  first := callFront "include".toList path
  insets := [⟨"x".toList, .identifier "x", [')'], by cbv, by decide⟩]
  plain hinfix := by
    have hmem : '\x7b' ∈ callFront "include".toList path :=
      hinfix.subset (by simp [placeholderSign])
    simp [callFront, Chunk.quoted, h] at hmem

theorem placeholders_call {path : List Char} (h : '\x7b' ∉ path) :
    placeholders (call "include".toList path placeholder) = .ok (callSegments path) := by
  have htext : call "include".toList path placeholder = (callBody h).text := by
    simp [call_eq, callBody, Body.text, Inset.text, placeholder]
  rw [htext]
  exact placeholders_text (callBody h)

theorem silent_include {path : List Char} (h : '@' ∉ path) :
    Directive.Silent .standard directiveName (call "include".toList path placeholder) [] :=
  silent_call (by decide) ⟨'i', "nclude".toList, by decide, by decide⟩ (fun _ => rfl) h
    (Directive.silent_of_plain (by decide) _)

/-- The body is text around the loop variable. -/
theorem compile_call {ω : Type} {path : List Char} (hbrace : '\x7b' ∉ path) (hsign : '@' ∉ path) :
    (compile .standard (call "include".toList path placeholder) : Run ω Expr.Error (List Segment)) =
      pure (callSegments path) := by
  rw [compile, segments, Directive.pieces_silent (silent_include hsign), if_neg (by simp [call]),
    segmentsOf, segmentsOf, List.nil_append, placeholders_call hbrace]
  rfl

/-! ## The iterations -/

/-- Iterations that all give a text give these texts, if there are not too many. -/
theorem eachFrom_of_texts {render : Scope → List Nat → Expr.Evaluation String} {name : String}
    {scope : Scope} {text : Located → String} {values : List Located}
    (hrender : ∀ value ∈ values, ∀ place, render ((name, value) :: scope) place = .ok (text value))
    (path : List Nat) {count : Nat} (hcount : count + values.length ≤ Expr.maxIterations) :
    eachFrom render name scope path count values = .ok (values.map text) := by
  induction values generalizing count with
  | nil => rfl
  | cons value rest ih =>
      obtain ⟨hvalue, hrest⟩ := List.forall_mem_cons.mp hrender
      rw [List.length_cons] at hcount
      rw [eachFrom, if_neg (by omega), hvalue, ok_bind, ih hrest (by omega)]
      rfl

theorem renderBody_callSegments {path : List Char} (h : '\x7b' ∉ path) {scope : Scope}
    {value : Located} {shown : List Char} (hvalue : scope.get? "x" = some value)
    (hshown : value.toShownText = .ok (String.ofList shown)) (place : List Nat) :
    renderBody scope place 0 (callSegments path) =
      .ok (String.ofList (call "include".toList path shown)) := by
  have hplaceholder : ∀ inset ∈ (callBody h).insets, ∀ place,
      renderSegment scope place (.placeholder inset.expr) = .ok (String.ofList shown) := by
    intro inset hinset place
    obtain rfl := List.mem_singleton.mp hinset
    simp only [renderSegment, Expr.eval, Expr.readName, hvalue, ok_bind, hshown]
    rfl
  have hfilled : (callBody h).filled (fun _ => String.ofList shown) =
      String.ofList (call "include".toList path shown) := by
    rw [← String.toList_inj]
    simp [callBody, Body.filled, call_eq]
  rw [← hfilled]
  exact renderBody_segments hplaceholder place

theorem join_map_ofList {α : Type} (text : α → List Char) (values : List α) :
    String.join (values.map fun value => String.ofList (text value)) =
      String.ofList (values.flatMap text) := by
  rw [← String.toList_inj]
  simp [List.flatMap_map]

/-- The loop becomes one call for each value. -/
theorem quiet_render {ω : Type} {path : List Char} (hbrace : '\x7b' ∉ path) (hsign : '@' ∉ path)
    {scope : Scope} {origin : Origin} {values : List Located}
    (hvalues : scope.get? "items" = some (.list origin values)) {shown : Located → List Char}
    (hshown : ∀ value ∈ values, value.toShownText = .ok (String.ofList (shown value)))
    (hlength : values.length ≤ Expr.maxIterations) :
    (render .standard "x of items".toList (call "include".toList path placeholder) scope :
        Run ω Expr.Error String).quiet =
      pure (String.ofList (values.flatMap fun value =>
        call "include".toList path (shown value))) := by
  have hheader : Expr.parseHeader "x of items".toList =
      .ok (.forEach "x" .values (.identifier "items")) := by cbv
  have heach : eachFrom (fun scope place => renderBody scope place 0 (callSegments path)) "x" scope
      [1] 0 values =
        .ok (values.map fun value => String.ofList (call "include".toList path (shown value))) := by
    refine eachFrom_of_texts (fun value hvalue place => ?_) [1] (by omega)
    exact renderBody_callSegments hbrace rfl (hshown value hvalue) place
  have hsegment : renderSegment scope []
      (.loop (.forEach "x" .values (.identifier "items")) (callSegments path)) =
        .ok (String.ofList
          (values.flatMap fun value => call "include".toList path (shown value))) := by
    rw [renderSegment, iterations]
    simp only [Expr.eval, Expr.readName, hvalues, ok_bind, enumerate, valuesOf, heach,
      join_map_ofList]
    rfl
  unfold render
  rw [hheader, compile_call hbrace hsign]
  simp only [Except.mapError, Run.lift_ok, pure_bind, hsegment]
  simp only [Run.quiet_bind, Run.quiet_detail, Run.quiet_pure, pure_bind]

end Loop

end Transclude
