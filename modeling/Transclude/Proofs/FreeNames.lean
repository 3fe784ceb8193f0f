import Mathlib
import Transclude.Loop.Render
import Transclude.Proofs.Agreement
import Transclude.Proofs.Outcome

/-! # The free names of loops

A loop binds its variable in its body, and a counted one also in its test and its
step, but not where it gets its values from. What is left of the names that are read
are the free names of a loop. In two scopes that agree on these, but for where the
parts of values come from, it is unrolled to the same text, or fails alike. -/

namespace Transclude

/-- The names that the step of a counted loop reads, apart from the variable that it changes. -/
def LoopUpdate.names (update : LoopUpdate) : List String :=
  update.change.operand?.elim [] Expr.names

namespace LoopHeader

/-- The variable that a loop binds. -/
def variableName : LoopHeader → String
  | .counted name _ _ _ => name
  | .forEach name _ _ => name

/-- The names that a header reads before the variable is bound: where the values come from. -/
def sourceNames : LoopHeader → List String
  | .counted _ init _ _ => init.names
  | .forEach _ _ collection => collection.names

/-- The names that a header reads while the variable is bound. -/
def boundNames : LoopHeader → List String
  | .counted _ _ test update => test.elim [] Expr.names ++ update.elim [] LoopUpdate.names
  | .forEach _ _ _ => []

/-- The free names of a loop whose body has the given ones. -/
def freeNames (header : LoopHeader) (body : List String) : List String :=
  header.sourceNames ++ (header.boundNames ++ body).filter (· ≠ header.variableName)

end LoopHeader

namespace Loop

mutual

/-- The free names of a segment. -/
def Segment.freeNames : Segment → List String
  | .literal _ => []
  | .placeholder e => e.names
  | .loop header body => header.freeNames (bodyNames body)

/-- The free names of the segments of a body. -/
def bodyNames : List Segment → List String
  | [] => []
  | segment :: rest => Segment.freeNames segment ++ bodyNames rest

end

end Loop

/-- Scopes that agree on all names but one agree on that too when it is bound alike. -/
theorem Scope.Agree.bind {f : Origin → Origin} {names : List String} {name : String}
    {scope scope' : Scope} (h : Scope.Agree f (names.filter (· ≠ name)) scope scope')
    (value : Located) :
    Scope.Agree f names ((name, value) :: scope) ((name, value.mapIdentity f) :: scope') := by
  intro other hother
  by_cases heq : name = other
  · subst heq
    simp [Scope.get?]
  · have hagree := h other (List.mem_filter.mpr ⟨hother, by simpa using Ne.symm heq⟩)
    rw [Scope.get?, Scope.get?, List.find?_cons_of_neg (by simpa using heq),
      List.find?_cons_of_neg (by simpa using heq)]
    exact hagree

namespace Loop

open Transclude.Expr Value

/-! ## What is taken from a collection -/

section

variable (f : Origin → Origin)

theorem map_positionNames (length : Nat) :
    (positionNames length).map (mapIdentity f) = positionNames length := by
  simp [positionNames, mapIdentity]

theorem valuesOf_mapIdentity (collection : Located) :
    valuesOf (mapIdentity f collection) = List.map (mapIdentity f) <$> valuesOf collection := by
  cases collection with
  | scalar s =>
      cases s with
      | str s => simp [valuesOf, mapIdentity]
      | _ => rfl
  | tuple items => simp [valuesOf, mapIdentity, mapIdentities_eq_map]
  | set members => rfl
  | list identity items => simp [valuesOf, mapIdentity, mapIdentities_eq_map]
  | map identity entries => simp [valuesOf, mapIdentity, mapEntryIdentities_eq_map]

theorem keysOf_mapIdentity (collection : Located) :
    keysOf (mapIdentity f collection) = List.map (mapIdentity f) <$> keysOf collection := by
  cases collection with
  | scalar s =>
      cases s with
      | str s => simp [keysOf, mapIdentity, map_positionNames]
      | _ => rfl
  | tuple items => simp [keysOf, mapIdentity, mapIdentities_eq_map, map_positionNames]
  | set members => rfl
  | list identity items =>
      simp [keysOf, mapIdentity, mapIdentities_eq_map, map_positionNames]
  | map identity entries =>
      simp [keysOf, mapIdentity, mapEntryIdentities_eq_map]

theorem enumerate_mapIdentity (mode : Enumeration) (collection : Located) :
    enumerate mode (mapIdentity f collection) =
      List.map (mapIdentity f) <$> enumerate mode collection := by
  cases mode with
  | values => exact valuesOf_mapIdentity f collection
  | keys => exact keysOf_mapIdentity f collection

end

/-! ## Steps -/

section

variable {f : Origin → Origin} {below : List Nat} {scope scope' : Scope} {name : String}
  (hmoves : Origin.Moves f below)

include hmoves

theorem step_of_agree {update : Option LoopUpdate}
    (h : Scope.Agree f (update.elim [] LoopUpdate.names) scope scope') (path : List Nat)
    (name : String) (current : Located) :
    step scope' (path ++ below) name update (mapIdentity f current) =
      mapIdentity f <$> step scope path name update current := by
  cases update with
  | none => rfl
  | some update =>
      obtain ⟨changed, change⟩ := update
      unfold step
      dsimp only
      split
      next => rfl
      next =>
        cases change with
        | increment | decrement => simp [mapIdentity]
        | addAssign amount =>
            simp [eval_of_agree hmoves path amount h, sum_mapIdentity, liftM_map]
        | subAssign amount => simp [eval_of_agree hmoves path amount h, mapIdentity]
        | assign value => exact eval_of_agree hmoves path value h

theorem goesOn_of_agree {test : Option Expr}
    (h : Scope.Agree f (test.elim [] Expr.names) scope scope') (path : List Nat) :
    goesOn scope' (path ++ below) test = goesOn scope path test := by
  cases test with
  | none => rfl
  | some e => simp [goesOn, eval_of_agree hmoves path e h]

end

/-! ## Iterations -/

section

variable {f : Origin → Origin} {below : List Nat} {scope scope' : Scope} {names : List String}
  {render : Scope → List Nat → Evaluation String} (hmoves : Origin.Moves f below)
  (hrender : ∀ {scope scope' : Scope}, Scope.Agree f names scope scope' →
    ∀ path, render scope' (path ++ below) = render scope path)

include hrender

theorem eachFrom_of_agree {name : String}
    (h : Scope.Agree f (names.filter (· ≠ name)) scope scope') (path : List Nat) (count : Nat)
    (values : List Located) :
    eachFrom render name scope' (path ++ below) count (values.map (mapIdentity f)) =
      eachFrom render name scope path count values := by
  induction values generalizing count with
  | nil => rfl
  | cons value rest ih =>
      rw [List.map_cons, eachFrom, eachFrom, ih, ← List.cons_append, ← List.cons_append,
        hrender (h.bind value)]

include hmoves

theorem countedFrom_of_agree {name : String} {test : Option Expr} {update : Option LoopUpdate}
    (h : Scope.Agree f ((test.elim [] Expr.names ++ update.elim [] LoopUpdate.names ++
      names).filter (· ≠ name)) scope scope') (path : List Nat) (left : Nat) (value : Located) :
    countedFrom render name test update scope' (path ++ below) left (mapIdentity f value) =
      countedFrom render name test update scope path left value := by
  have htest (value : Located) (place : List Nat) :
      goesOn ((name, mapIdentity f value) :: scope') (place ++ below) test =
        goesOn ((name, value) :: scope) place test :=
    goesOn_of_agree hmoves ((h.bind value).mono (by simp)) place
  have hstep (value : Located) (place : List Nat) :
      step ((name, mapIdentity f value) :: scope') (place ++ below) name update
          (mapIdentity f value) =
        mapIdentity f <$> step ((name, value) :: scope) place name update value :=
    step_of_agree hmoves ((h.bind value).mono (by simp)) place name value
  have hbody (value : Located) (place : List Nat) :
      render ((name, mapIdentity f value) :: scope') (place ++ below) =
        render ((name, value) :: scope) place :=
    hrender ((h.bind value).mono (by simp)) place
  induction left generalizing value with
  | zero =>
      rw [countedFrom, countedFrom]
      simp only [← List.cons_append, htest]
  | succ left ih =>
      rw [countedFrom, countedFrom]
      simp only [← List.cons_append, htest, hbody, hstep, bind_map_left, ih]

theorem iterations_of_agree {header : LoopHeader}
    (h : Scope.Agree f (header.freeNames names) scope scope') (path : List Nat) :
    iterations render scope' (path ++ below) header = iterations render scope path header := by
  have hbound := h.mono (List.subset_append_right header.sourceNames _)
  replace h := h.mono (List.subset_append_left header.sourceNames _)
  cases header with
  | forEach name mode collection =>
      have hothers : Scope.Agree f (names.filter (· ≠ name)) scope scope' := hbound
      have heach := eachFrom_of_agree hrender hothers
      simp only [iterations, ← List.cons_append, eval_of_agree hmoves _ collection h,
        bind_map_left, enumerate_mapIdentity, heach]
  | counted name init test update =>
      have hothers : Scope.Agree f ((test.elim [] Expr.names ++
          update.elim [] LoopUpdate.names ++ names).filter (· ≠ name)) scope scope' := hbound
      have hcounted := countedFrom_of_agree hmoves hrender hothers
      simp only [iterations, ← List.cons_append, eval_of_agree hmoves _ init h, bind_map_left,
        hcounted]

end

/-! ## Bodies -/

variable {f : Origin → Origin} {below : List Nat}

mutual

/-- The text of a segment depends on nothing but what its free names stand for. -/
theorem renderSegment_of_agree (hmoves : Origin.Moves f below) :
    ∀ (segment : Segment) {scope scope' : Scope}, Scope.Agree f segment.freeNames scope scope' →
      ∀ path, renderSegment scope' (path ++ below) segment = renderSegment scope path segment
  | .literal _, _, _, _, _ => rfl
  | .placeholder e, _, _, h, path => by
      simp [renderSegment, eval_of_agree hmoves path e h]
  | .loop header body, _, _, h, path => by
      rw [renderSegment, renderSegment, iterations_of_agree hmoves
        (fun hagree path => renderBody_of_agree hmoves body hagree path 0) h]

theorem renderBody_of_agree (hmoves : Origin.Moves f below) :
    ∀ (segments : List Segment) {scope scope' : Scope},
      Scope.Agree f (bodyNames segments) scope scope' → ∀ path position,
        renderBody scope' (path ++ below) position segments =
          renderBody scope path position segments
  | [], _, _, _, _, _ => rfl
  | segment :: rest, _, _, h, path, position => by
      rw [bodyNames] at h
      rw [renderBody, renderBody, ← List.cons_append,
        renderSegment_of_agree hmoves segment (h.mono (List.subset_append_left _ _)),
        renderBody_of_agree hmoves rest (h.mono (List.subset_append_right _ _))]

end

/-! ## Scopes with the same values -/

theorem moves_id : Origin.Moves id [] where
  injective := Function.injective_id
  literal path := by rw [List.append_nil, id_eq]

theorem agree_id {names : List String} {scope scope' : Scope}
    (h : ∀ name ∈ names, scope'.get? name = scope.get? name) :
    Scope.Agree id names scope scope' := by
  intro name hname
  rw [h name hname, funext mapIdentity_id, Option.map_id']

theorem eval_congr {e : Expr} {scope scope' : Scope}
    (h : ∀ name ∈ e.names, scope'.get? name = scope.get? name) (path : List Nat) :
    eval scope' path e = eval scope path e := by
  have heval := eval_of_agree moves_id path e (agree_id h)
  rwa [List.append_nil, funext mapIdentity_id, id_map'] at heval

theorem renderSegment_congr {segment : Segment} {scope scope' : Scope}
    (h : ∀ name ∈ segment.freeNames, scope'.get? name = scope.get? name) (path : List Nat) :
    renderSegment scope' path segment = renderSegment scope path segment := by
  have hrender := renderSegment_of_agree moves_id segment (agree_id h) path
  rwa [List.append_nil] at hrender

theorem renderBody_congr {segments : List Segment} {scope scope' : Scope}
    (h : ∀ name ∈ bodyNames segments, scope'.get? name = scope.get? name) (path : List Nat)
    (position : Nat) :
    renderBody scope' path position segments = renderBody scope path position segments := by
  have hrender := renderBody_of_agree moves_id segments (agree_id h) path position
  rwa [List.append_nil] at hrender

/-- Nothing of a segment but its text shows in the segments around it. -/
theorem renderBody_of_text {scope : Scope} {path : List Nat} {segment : Segment} {text : String}
    {before : List Segment} {position : Nat}
    (h : renderSegment scope ((position + before.length) :: path) segment = .ok text)
    (after : List Segment) :
    renderBody scope path position (before ++ segment :: after) =
      renderBody scope path position (before ++ .literal text :: after) := by
  induction before generalizing position with
  | nil =>
      rw [List.nil_append, List.nil_append, renderBody, renderBody, renderSegment]
      rw [List.length_nil, Nat.add_zero] at h
      rw [h]
  | cons first before ih =>
      rw [List.cons_append, List.cons_append, renderBody, renderBody, ih]
      rwa [Nat.add_assoc, Nat.add_comm 1, ← List.length_cons]

/-- Expressions, loops and bodies depend on nothing but what their free names stand for, and a loop
that binds the variable of the loop around it again leaves the segments behind it what they see. -/
theorem depends_on_free_names :
    (∀ (e : Expr) (scope scope' : Scope),
      (∀ name ∈ e.names, scope'.get? name = scope.get? name) →
        ∀ path, eval scope' path e = eval scope path e) ∧
    (∀ (header : LoopHeader) (body : List Segment) (scope scope' : Scope),
      (∀ name ∈ header.freeNames (bodyNames body), scope'.get? name = scope.get? name) →
        ∀ path, renderSegment scope' path (.loop header body) =
          renderSegment scope path (.loop header body)) ∧
    (∀ (segments : List Segment) (scope scope' : Scope),
      (∀ name ∈ bodyNames segments, scope'.get? name = scope.get? name) →
        ∀ path position, renderBody scope' path position segments =
          renderBody scope path position segments) ∧
    ∀ (scope : Scope) (header : LoopHeader) (value : Located) (inner before after : List Segment)
      (path : List Nat) (position : Nat) (text : String),
      renderSegment ((header.variableName, value) :: scope)
          ((position + before.length) :: path) (.loop header inner) = .ok text →
        renderBody ((header.variableName, value) :: scope) path position
            (before ++ .loop header inner :: after) =
          renderBody ((header.variableName, value) :: scope) path position
            (before ++ .literal text :: after) :=
  ⟨fun _ _ _ h => eval_congr h, fun _ _ _ _ h => renderSegment_congr h,
    fun _ _ _ h => renderBody_congr h, fun _ _ _ _ _ after _ _ _ h => renderBody_of_text h after⟩

/-- `typeof` asks only whether a name stands for something. A loop over the characters of `x` that
binds `x` to them reads the name from outside and hides it from its body, and behind the loop it
stands for what it did. -/
theorem depends_on_free_names_nested :
    eval [("y", .null), ("x", .str "ab")] [] (.unary .typeOf (.identifier "x")) =
        eval [("x", .str "ab")] [] (.unary .typeOf (.identifier "x")) ∧
      renderSegment [("y", .null), ("x", .str "ab")] []
          (.loop (.forEach "x" .values (.identifier "x")) [.placeholder (.identifier "x")]) =
        renderSegment [("x", .str "ab")] []
          (.loop (.forEach "x" .values (.identifier "x")) [.placeholder (.identifier "x")]) ∧
      renderBody [("x", .str "ab")] [] 0
          ([.literal "-"] ++
            .loop (.forEach "x" .values (.identifier "x"))
              [.placeholder (.identifier "x"), .literal ","] ::
            [.placeholder (.identifier "x")]) =
        renderBody [("x", .str "ab")] [] 0
          ([.literal "-"] ++ .literal "a,b," :: [.placeholder (.identifier "x")]) ∧
      renderBody [("y", .null), ("x", .str "ab")] [] 0
          ([.literal "-"] ++ .literal "a,b," :: [.placeholder (.identifier "x")]) =
        .ok "-a,b,ab" := by
  have hread : ∀ name ∈ ["x"],
      Scope.get? [("y", .null), ("x", .str "ab")] name = Scope.get? [("x", .str "ab")] name :=
    List.forall_mem_singleton.mpr rfl
  refine ⟨depends_on_free_names.1 _ _ _ ?_ [], depends_on_free_names.2.1 _ _ _ _ ?_ [],
    depends_on_free_names.2.2.2 [] (.forEach "x" _ _) (.str "ab") _ _ _ [] 0 "a,b," (by cbv), ?_⟩
  · exact hread
  · exact hread
  · refine (depends_on_free_names.2.2.1 _ [("x", .str "ab")] _ ?_ [] 0).trans ?_
    · exact hread
    · cbv

end Loop

end Transclude
