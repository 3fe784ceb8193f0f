import Mathlib
import Transclude.Proofs.Frames
import Transclude.Proofs.Merging
import Transclude.Render

/-! # Rendering with data at other places

Where the parts of its data lie does not show in the rendering of a document, nor in
that of the documents it includes: all that is asked of two parts is whether they
are one and the same. -/

namespace Transclude

namespace Relabeling

variable (r : Relabeling) (copies : Nat → Relabeling)

/-- A frame with the parts of its data at other places. -/
def frame (frame : Frame) : Frame := { frame with data := r.data frame.data }

theorem scope_ofData (data : Data) : Scope.ofData (r.data data) = r.scope (Scope.ofData data) := by
  have hplaced : ∀ value : Datum, (r.datum value).mapIdentity (fun mark => Origin.data mark.place) =
      r.located (value.mapIdentity fun mark => .data mark.place) := by
    intro value
    rw [datum, located, Value.mapIdentity_mapIdentity, Value.mapIdentity_mapIdentity]
    rfl
  induction data with
  | nil => rfl
  | cons entry rest ih =>
      obtain ⟨key, value⟩ := entry
      unfold Scope.ofData at ih ⊢
      rw [data_cons, List.filterMap_cons, List.filterMap_cons, ih]
      rcases key with s | items
      · cases s with
        | str name => simp only [hplaced, scope_cons]
        | _ => rfl
      · rfl

/-! ## Variables -/

theorem ofValue_datum (value : Datum) :
    Variable.ofValue (r.datum value) = Variable.ofValue value := by
  cases value with
  | scalar s => cases s <;> rfl
  | _ => rfl

theorem lookupPath_data (data : Data) (path : List String) :
    Value.lookupPath (.map (.ofPlace []) ((layered copies).data data)) path =
      (layered copies).datum <$> Value.lookupPath (.map (.ofPlace []) data) path := by
  rw [← layered_mark_root copies, ← datum_map]
  exact Value.lookupPath_mapIdentity _ _ path

theorem hasKey_data (data : Data) (key : Key) :
    Entries.hasKey (r.data data) key = Entries.hasKey data key :=
  Entries.hasKey_mapEntryIdentities r.mark data

theorem outcome_data (data : Data) (path : List Char) :
    Variable.outcome ((layered copies).data data) path = Variable.outcome data path := by
  unfold Variable.outcome
  cases (path.splitOn '.').map String.ofList with
  | nil => rfl
  | cons first rest =>
      dsimp only
      rw [hasKey_data, lookupPath_data]
      simp only [bind_map_left, ofValue_datum]

theorem replace_data (delimiters : Delimiters) (data : Data) (text : List Char) :
    Variable.replace delimiters ((layered copies).data data) text =
      Variable.replace delimiters data text := by
  unfold Variable.replace
  induction Variable.fragments delimiters text with
  | nil => rfl
  | cons fragment rest ih =>
      rw [Variable.expandAll, Variable.expandAll, ih]
      rcases fragment with c | ⟨path, source⟩
      · rfl
      · simp only [Variable.expand, outcome_data]

/-! ## Conditions and loops -/

theorem conditionHolds_scope (scope : Scope) (directive : Directive) :
    Renderer.conditionHolds (r.scope scope) directive =
      Renderer.conditionHolds scope directive := by
  rw [Renderer.conditionHolds, Renderer.conditionHolds, Expr.holds_relabeled]

theorem decideConditions_scope (delimiters : Delimiters) (scope : Scope) (depth : Nat)
    (text : List Char) :
    Renderer.decideConditions delimiters (r.scope scope) depth text =
      Renderer.decideConditions delimiters scope depth text := by
  induction depth generalizing text with
  | zero => rfl
  | succ depth ih =>
      rw [Renderer.decideConditions, Renderer.decideConditions]
      simp only [conditionHolds_scope, ih]

theorem unroll_scope (delimiters : Delimiters) (scope : Scope) :
    Renderer.unroll delimiters (r.scope scope) = Renderer.unroll delimiters scope := by
  funext directive
  simp only [Renderer.unroll, Loop.render_relabeled]

theorem renderText_frame (renderer : Renderer) (f : Frame) :
    renderer.renderText ((layered copies).frame f) = renderer.renderText f := by
  simp only [Renderer.renderText, frame, scope_ofData, decideConditions_scope, unroll_scope,
    replace_data]

/-! ## Parameters -/

theorem same_datum_map {ε : Type} (run : Run Warning ε Datum) : same.datum <$> run = run := by
  have hsame : same.datum = id := by
    funext value
    exact Value.mapIdentity_id value
  rw [hsame, id_map]

theorem fromData_data {ε : Type} (data : Data) (origin : Option String) (path : List Char) :
    (Include.Parameter.fromData ((layered copies).data data) origin path : Run Warning ε Datum) =
      (layered copies).datum <$> Include.Parameter.fromData data origin path := by
  unfold Include.Parameter.fromData Value.lookupDotted
  rw [lookupPath_data]
  cases Value.lookupPath (.map (.ofPlace []) data) (Value.dottedSegments path) with
  | error kind => rfl
  | ok value =>
      cases value with
      | scalar s => cases s <;> rfl
      | _ => rfl

/-- A parameter comes from the data or has nothing to do with them. -/
theorem exists_resolve {ε : Type} (tree : FileTree) (delimiters : Delimiters) (data : Data)
    (base : Path) (origin : Option String) (parameter : Option (List Char)) :
    ∃ r : Relabeling,
      (Include.Parameter.resolve tree delimiters ((layered copies).data data) base origin parameter :
        Run Warning ε Datum) =
      r.datum <$> Include.Parameter.resolve tree delimiters data base origin parameter := by
  unfold Include.Parameter.resolve
  dsimp only
  split
  next => exact ⟨same, (same_datum_map _).symm⟩
  next =>
    split
    next => exact ⟨same, (same_datum_map _).symm⟩
    next =>
      split
      next => exact ⟨layered copies, fromData_data copies data origin _⟩
      next => exact ⟨same, (same_datum_map _).symm⟩

theorem includeData_datum (f : Frame) (parameter : Datum) :
    Renderer.includeData f (r.datum parameter) =
      Option.map r.data <$> Renderer.includeData f parameter := by
  cases parameter with
  | scalar s => cases s <;> rfl
  | _ => rfl

theorem loopItems_datum (f : Frame) (parameter : Datum) :
    Renderer.loopItems f (r.datum parameter) =
      List.map r.datum <$> Renderer.loopItems f parameter := by
  unfold Renderer.loopItems
  rw [datum, Value.isVoid_mapIdentity]
  split
  next => rfl
  next =>
    cases parameter with
    | scalar s => cases s <;> rfl
    | tuple items =>
        simp only [Value.mapIdentity, Value.mapIdentities_eq_map, map_pure]
        rfl
    | set members => rfl
    | list mark items =>
        simp only [Value.mapIdentity, Value.mapIdentities_eq_map, map_pure]
        rfl
    | map mark entries =>
        simp only [Value.mapIdentity, Value.mapEntryIdentities_eq_map, map_pure, List.map_map]
        rfl

theorem exists_parameter (renderer : Renderer) (f : Frame) (arguments : Include.Arguments) :
    ∃ r : Relabeling, renderer.parameter ((layered copies).frame f) arguments =
      r.datum <$> renderer.parameter f arguments :=
  exists_resolve copies _ _ _ _ _ _

theorem itemData_datum (item : Datum) :
    Renderer.itemData (r.datum item) = (Renderer.itemData item).map r.data := by
  cases item <;> rfl

/-! ## Documents -/

theorem renderItems_frame (render : Frame → Rendering (List Char)) (f : Frame) (document : Document)
    (items : List Datum) :
    Renderer.renderItems render (r.frame f) document items =
      Renderer.renderItems render f document items := by
  apply Renderer.renderItems_congr
  intro parameter
  rfl

section

variable {render : Frame → Rendering (List Char)}
  (hrender : ∀ copies f, render ((layered copies).frame f) = render f)

include hrender

theorem render_inner (f : Frame) (document : Document) (parameter : Option Data) :
    render (f.inner document (parameter.map r.data)) = render (f.inner document parameter) := by
  cases parameter with
  | none => rfl
  | some parameter =>
      obtain ⟨copies, hdata⟩ := exists_dataOf r f.shared parameter document.text
      rw [← hrender copies (f.inner document (some parameter))]
      congr 1
      simp only [Frame.inner, frame, Option.map_some, hdata]

theorem expandInclude_frame (renderer : Renderer) (f : Frame) (directive : Directive) :
    renderer.expandInclude render ((layered copies).frame f) directive =
      renderer.expandInclude render f directive := by
  unfold Renderer.expandInclude
  split
  next => rfl
  next arguments _ =>
    obtain ⟨r, hparameter⟩ := exists_parameter copies renderer f arguments
    have hincluded : renderer.included ((layered copies).frame f) directive arguments =
        renderer.included f directive arguments := rfl
    have hdata : Renderer.includeData ((layered copies).frame f) = Renderer.includeData f := rfl
    have hinner : ((layered copies).frame f).inner = f.inner := rfl
    simp only [hincluded, hparameter, hdata, hinner, bind_map_left, includeData_datum,
      render_inner r hrender]
    rfl

theorem renderItems_datum (f : Frame) (document : Document) (items : List Datum) :
    Renderer.renderItems render f document (items.map r.datum) =
      Renderer.renderItems render f document items := by
  induction items with
  | nil => rfl
  | cons item rest ih =>
      rw [List.map_cons, Renderer.renderItems, Renderer.renderItems, itemData_datum,
        render_inner r hrender, ih]

theorem expandLoop_frame (renderer : Renderer) (f : Frame) (directive : Directive) :
    renderer.expandLoop render ((layered copies).frame f) directive =
      renderer.expandLoop render f directive := by
  unfold Renderer.expandLoop
  split
  next => rfl
  next arguments _ =>
    obtain ⟨r, hparameter⟩ := exists_parameter copies renderer f arguments
    have hincluded : renderer.included ((layered copies).frame f) directive arguments =
        renderer.included f directive arguments := rfl
    have hitems : Renderer.loopItems ((layered copies).frame f) = Renderer.loopItems f := rfl
    simp only [hincluded, hparameter, hitems, bind_map_left, loopItems_datum, List.isEmpty_map,
      List.length_map, renderItems_frame, renderItems_datum r hrender]
    rfl

end

theorem renderFrame_frame (renderer : Renderer) (depth : Nat) (f : Frame) :
    renderer.renderFrame depth ((layered copies).frame f) = renderer.renderFrame depth f := by
  induction depth generalizing copies f with
  | zero => rfl
  | succ depth ih =>
      -- what a document opens has its parts in copies again, though in other ones
      have hinclude :
          renderer.expandInclude (renderer.renderFrame depth) ((layered copies).frame f) =
            renderer.expandInclude (renderer.renderFrame depth) f :=
        funext (expandInclude_frame copies ih renderer f)
      have hloop : renderer.expandLoop (renderer.renderFrame depth) ((layered copies).frame f) =
          renderer.expandLoop (renderer.renderFrame depth) f :=
        funext (expandLoop_frame copies ih renderer f)
      simp only [Renderer.renderFrame, Renderer.expandFrame, renderText_frame, hinclude, hloop]
      rfl

/-- A document is rendered alike wherever the parts of its parameter lie. -/
theorem renderFrame_inner (renderer : Renderer) (depth : Nat) (f : Frame) (document : Document)
    (parameter : Option Data) :
    renderer.renderFrame depth (f.inner document (parameter.map r.data)) =
      renderer.renderFrame depth (f.inner document parameter) :=
  render_inner r (fun copies f => renderFrame_frame copies renderer depth f) f document parameter

end Relabeling

end Transclude
