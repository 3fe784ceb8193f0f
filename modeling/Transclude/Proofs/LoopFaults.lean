import Mathlib
import Transclude.Proofs.Faults
import Transclude.Render

/-! # Faults of conditions and loops

Conditions and loops report every error with their source, and end with a fault just
when they get to an operation that has no answer: in the expression of a condition, or
in the header, a step or a placeholder of a loop in one of its iterations. -/

namespace Transclude

namespace Loop

open Transclude.Expr

/-! ## Steps -/

/-- The operations that the step of a counted loop gets to. -/
inductive Steps (scope : Scope) (path : List Nat) (name : String) :
    LoopUpdate → Located → Operation → Prop
  | increment {current : Located} :
    Steps scope path name ⟨name, .increment⟩ current (.arithmetic .add current.toNumber (.int 1))
  | decrement {current : Located} :
    Steps scope path name ⟨name, .decrement⟩ current (.arithmetic .sub current.toNumber (.int 1))
  | operand {change : Change} {e : Expr} {current : Located} {operation : Operation}
    (hchange : change.operand? = some e) (h : Performs scope path e operation) :
    Steps scope path name ⟨name, change⟩ current operation
  | addAssign {e : Expr} {current amount : Located} {operation : Operation}
    (hamount : eval scope path e = .ok amount) (h : Applies .add current amount operation) :
    Steps scope path name ⟨name, .addAssign e⟩ current operation
  | subAssign {e : Expr} {current amount : Located} (hamount : eval scope path e = .ok amount) :
    Steps scope path name ⟨name, .subAssign e⟩ current
      (.arithmetic .sub current.toNumber amount.toNumber)

theorem arithmetic_fails_iff {op : BinaryOp} {a b : Number} {kind : Fault} :
    (Operation.arithmetic op a b).Fails kind ↔ Number.Fails op a b kind := by
  constructor
  · intro h
    cases h with
    | arithmetic h => exact h
  · exact .arithmetic

section

variable {scope : Scope} {path : List Nat} {name : String} {current : Located}
  {operation : Operation}

theorem steps_increment_iff :
    Steps scope path name ⟨name, .increment⟩ current operation ↔
      operation = .arithmetic .add current.toNumber (.int 1) := by
  constructor
  · intro h
    cases h with
    | increment => rfl
    | operand hchange _ => cases hchange
  · rintro rfl
    exact .increment

theorem steps_decrement_iff :
    Steps scope path name ⟨name, .decrement⟩ current operation ↔
      operation = .arithmetic .sub current.toNumber (.int 1) := by
  constructor
  · intro h
    cases h with
    | decrement => rfl
    | operand hchange _ => cases hchange
  · rintro rfl
    exact .decrement

theorem steps_addAssign_iff {e : Expr} :
    Steps scope path name ⟨name, .addAssign e⟩ current operation ↔
      Performs scope path e operation ∨
        ∃ amount, eval scope path e = .ok amount ∧ Applies .add current amount operation := by
  constructor
  · intro h
    cases h with
    | operand hchange h =>
        cases hchange
        exact Or.inl h
    | addAssign hamount h => exact Or.inr ⟨_, hamount, h⟩
  · rintro (h | ⟨amount, hamount, h⟩)
    · exact .operand rfl h
    · exact .addAssign hamount h

theorem steps_subAssign_iff {e : Expr} :
    Steps scope path name ⟨name, .subAssign e⟩ current operation ↔
      Performs scope path e operation ∨
        ∃ amount, eval scope path e = .ok amount ∧
          operation = .arithmetic .sub current.toNumber amount.toNumber := by
  constructor
  · intro h
    cases h with
    | operand hchange h =>
        cases hchange
        exact Or.inl h
    | subAssign hamount => exact Or.inr ⟨_, hamount, rfl⟩
  · rintro (h | ⟨amount, hamount, rfl⟩)
    · exact .operand rfl h
    · exact .subAssign hamount

theorem steps_assign_iff {e : Expr} :
    Steps scope path name ⟨name, .assign e⟩ current operation ↔
      Performs scope path e operation := by
  constructor
  · intro h
    cases h with
    | operand hchange h =>
        cases hchange
        exact h
  · exact .operand rfl

end

theorem step_fault_iff (scope : Scope) (path : List Nat) (name : String) (update : LoopUpdate)
    (current : Located) (kind : Fault) :
    step scope path name (some update) current = .error (.fault kind) ↔
      ∃ operation, Steps scope path name update current operation ∧ operation.Fails kind := by
  obtain ⟨variableName, change⟩ := update
  unfold step
  dsimp only
  split
  next hname =>
    -- the update of another variable is refused with an error
    constructor
    · nofun
    · rintro ⟨operation, h, _⟩
      cases h <;> exact (hname rfl).elim
  next hname =>
    obtain rfl := not_not.mp hname
    cases change with
    | increment =>
        simp only [bind_pure_eq_error, liftM_eq_fault, Number.add_eq_error_iff,
          steps_increment_iff, exists_eq_left, arithmetic_fails_iff]
    | decrement =>
        simp only [bind_pure_eq_error, liftM_eq_fault, Number.sub_eq_error_iff,
          steps_decrement_iff, exists_eq_left, arithmetic_fails_iff]
    | addAssign e =>
        rw [Transclude.bind_eq_error, eval_fault_iff]
        simp only [liftM_eq_fault, sum_eq_error_iff, steps_addAssign_iff, or_and_right, exists_or]
        refine or_congr_right ?_
        constructor
        · rintro ⟨amount, hamount, operation, h, hfails⟩
          exact ⟨operation, ⟨amount, hamount, h⟩, hfails⟩
        · rintro ⟨operation, ⟨amount, hamount, h⟩, hfails⟩
          exact ⟨amount, hamount, operation, h, hfails⟩
    | subAssign e =>
        rw [Transclude.bind_eq_error, eval_fault_iff]
        simp only [bind_pure_eq_error, liftM_eq_fault, Number.sub_eq_error_iff,
          steps_subAssign_iff, or_and_right, exists_or]
        refine or_congr_right ?_
        constructor
        · rintro ⟨amount, hamount, h⟩
          exact ⟨_, ⟨amount, hamount, rfl⟩, .arithmetic h⟩
        · rintro ⟨operation, ⟨amount, hamount, rfl⟩, hfails⟩
          exact ⟨amount, hamount, arithmetic_fails_iff.mp hfails⟩
    | assign e =>
        rw [eval_fault_iff]
        simp only [steps_assign_iff]
        rfl

/-! ## Iterations -/

section

variable (render : Scope → List Nat → Evaluation String) (name : String)
  (test : Option Expr) (update : Option LoopUpdate) (scope : Scope) (path : List Nat)

/-- From one iteration of a counted loop, with a value of its variable, another one is reached. -/
inductive Reaches : Nat → Located → Nat → Located → Prop
  | here (i : Nat) (value : Located) : Reaches i value i value
  | next {i : Nat} {value : Located} {text : String} {following : Located} {j : Nat}
    {last : Located} (hcount : i < maxIterations)
    (htest : goesOn ((name, value) :: scope) (0 :: i :: path) test = .ok true)
    (htext : render ((name, value) :: scope) (2 :: i :: path) = .ok text)
    (hstep : step ((name, value) :: scope) (1 :: i :: path) name update value = .ok following)
    (h : Reaches (i + 1) following j last) : Reaches i value j last

/-- Iterations of a counted loop end with a fault in its test, its body or its step. -/
inductive IterationBreaks (i : Nat) (value : Located) (kind : Fault) : Prop
  | test (h : goesOn ((name, value) :: scope) (0 :: i :: path) test = .error (.fault kind))
  | body (hcount : i < maxIterations)
    (htest : goesOn ((name, value) :: scope) (0 :: i :: path) test = .ok true)
    (h : render ((name, value) :: scope) (2 :: i :: path) = .error (.fault kind))
  | step {text : String} (hcount : i < maxIterations)
    (htest : goesOn ((name, value) :: scope) (0 :: i :: path) test = .ok true)
    (htext : render ((name, value) :: scope) (2 :: i :: path) = .ok text)
    (h : step ((name, value) :: scope) (1 :: i :: path) name update value = .error (.fault kind))

variable {render name test update scope path}

/-- A counted loop ends with a fault when it reaches an iteration that does. -/
theorem countedFrom_fault_iff {left : Nat} (hleft : left ≤ maxIterations) (value : Located)
    (kind : Fault) :
    countedFrom render name test update scope path left value = .error (.fault kind) ↔
      ∃ j last, Reaches render name test update scope path (maxIterations - left) value j last ∧
        IterationBreaks render name test update scope path j last kind := by
  induction left generalizing value with
  | zero =>
      -- no iterations are left, but the test of the next one is still evaluated
      rw [countedFrom, Nat.sub_zero]
      constructor
      · intro h
        obtain h | ⟨b, _, h⟩ := Transclude.bind_eq_error.mp h
        · exact ⟨_, _, .here _ _, .test h⟩
        · split at h <;> cases h
      · rintro ⟨j, last, hreaches, hbreaks⟩
        cases hreaches with
        | next hcount _ _ _ _ => exact (Nat.lt_irrefl _ hcount).elim
        | here _ _ =>
            cases hbreaks with
            | test h => exact Transclude.bind_eq_error.mpr (Or.inl h)
            | body hcount _ _ | step hcount _ _ _ => exact (Nat.lt_irrefl _ hcount).elim
  | succ left ih =>
      have hcount : maxIterations - (left + 1) < maxIterations := by omega
      have hnext : maxIterations - (left + 1) + 1 = maxIterations - left := by omega
      rw [countedFrom]
      constructor
      · intro h
        obtain h | ⟨b, htest, h⟩ := Transclude.bind_eq_error.mp h
        · exact ⟨_, _, .here _ _, .test h⟩
        · cases b with
          | false => cases h
          | true =>
              obtain h | ⟨text, htext, h⟩ := Transclude.bind_eq_error.mp h
              · exact ⟨_, _, .here _ _, .body hcount htest h⟩
              · obtain h | ⟨following, hstep, h⟩ := Transclude.bind_eq_error.mp h
                · exact ⟨_, _, .here _ _, .step hcount htest htext h⟩
                · obtain ⟨j, last, hreaches, hbreaks⟩ :=
                    (ih (by omega) following).mp (bind_pure_eq_error.mp h)
                  rw [← hnext] at hreaches
                  exact ⟨j, last, .next hcount htest htext hstep hreaches, hbreaks⟩
      · rintro ⟨j, last, hreaches, hbreaks⟩
        cases hreaches with
        | here _ _ =>
            cases hbreaks with
            | test h => exact Transclude.bind_eq_error.mpr (Or.inl h)
            | body _ htest h =>
                rw [htest, ok_bind, if_pos rfl]
                exact Transclude.bind_eq_error.mpr (Or.inl h)
            | step _ htest htext h =>
                rw [htest, ok_bind, if_pos rfl, htext, ok_bind]
                exact Transclude.bind_eq_error.mpr (Or.inl h)
        | next _ htest htext hstep hreaches =>
            rw [hnext] at hreaches
            rw [htest, ok_bind, if_pos rfl, htext, ok_bind, hstep, ok_bind, bind_pure_eq_error]
            exact (ih (by omega) _).mpr ⟨j, last, hreaches, hbreaks⟩

/-- A loop over values ends with a fault when it gets to a value for which its body does. -/
theorem eachFrom_fault_iff {count : Nat} (hcount : count ≤ maxIterations) (values : List Located)
    (kind : Fault) :
    eachFrom render name scope path count values = .error (.fault kind) ↔
      ∃ k value, GetsTo (fun j value => render ((name, value) :: scope) (2 :: (count + j) :: path))
          values k value ∧
        (count + k < maxIterations ∧
          render ((name, value) :: scope) (2 :: (count + k) :: path) = .error (.fault kind)) := by
  induction values generalizing count with
  | nil =>
      rw [eachFrom]
      constructor
      · nofun
      · rintro ⟨_, _, h, _⟩
        exact (not_getsTo_nil h).elim
  | cons value rest ih =>
      rw [eachFrom, exists_getsTo_cons_iff]
      split
      next hlast =>
        constructor
        · nofun
        · rintro (⟨h, _⟩ | ⟨_, _, _, _, _, h, _⟩) <;> omega
      next hlast =>
        rw [Transclude.bind_eq_error, and_iff_right (by omega)]
        simp only [bind_pure_eq_error, ih (show count + 1 ≤ maxIterations by omega), Nat.add_zero,
          Nat.add_assoc, Nat.add_comm 1]

end

/-- What a loop takes from a collection is known, or an error is reported. -/
theorem enumerate_ne_fault (mode : Enumeration) (collection : Located) (kind : Fault) :
    enumerate mode collection ≠ .error (.fault kind) := by
  have hrefused (hvalue : ¬ collection.Unwritable) (hmode : enumerate mode collection = do
      .error (.error (.notIterable (← collection.toShownText)))) :
      enumerate mode collection ≠ .error (.fault kind) := by
    rw [hmode]
    intro h
    obtain h | ⟨_, _, h⟩ := Transclude.bind_eq_error.mp h
    · exact hvalue ((Value.toShownText_eq_error_iff _ _).mp (liftM_eq_fault.mp h)).2
    · cases h
  cases mode with
  | keys =>
      unfold enumerate keysOf
      dsimp only
      split <;> nofun
  | values =>
      cases collection with
      | map _ _ | list _ _ | tuple _ => nofun
      | set members => exact hrefused (fun h => by cases h) rfl
      | scalar s =>
          cases s with
          | str s => nofun
          | _ => exact hrefused (fun h => by cases h) rfl

/-! ## Segments -/

/-- Induction on segments, with the hypothesis for each segment of a body. -/
@[elab_as_elim]
theorem Segment.induction {motive : Segment → Prop} (literal : ∀ text, motive (.literal text))
    (placeholder : ∀ e, motive (.placeholder e))
    (loop : ∀ header body, (∀ segment ∈ body, motive segment) → motive (.loop header body))
    (segment : Segment) : motive segment :=
  @Segment.rec motive (fun body => ∀ segment ∈ body, motive segment) literal placeholder loop
    (by simp) (fun _ _ hhead htail => by simpa using ⟨hhead, htail⟩) segment

/-- The operations that the rendering of a segment gets to. The iterations of a loop have their
places below the second part of its own. -/
inductive Segment.Performs : Scope → List Nat → Segment → Operation → Prop
  | placeholder {scope : Scope} {path : List Nat} {e : Expr} {operation : Operation}
    (h : Expr.Performs scope path e operation) : Performs scope path (.placeholder e) operation
  | text {scope : Scope} {path : List Nat} {e : Expr} {value : Located}
    (hvalue : eval scope path e = .ok value) : Performs scope path (.placeholder e) (.text value)
  | collection {scope : Scope} {path : List Nat} {name : String} {mode : Enumeration}
    {collection : Expr} {body : List Segment} {operation : Operation}
    (h : Expr.Performs scope (0 :: path) collection operation) :
    Performs scope path (.loop (.forEach name mode collection) body) operation
  | each {scope : Scope} {path : List Nat} {name : String} {mode : Enumeration}
    {collection : Expr} {body : List Segment} {whole : Located} {values : List Located} {k : Nat}
    {value : Located} {i : Nat} {segment : Segment} {operation : Operation}
    (hwhole : eval scope (0 :: path) collection = .ok whole)
    (hvalues : enumerate mode whole = .ok values)
    (hvalue : GetsTo
      (fun j value => renderBody ((name, value) :: scope) (2 :: j :: 1 :: path) 0 body)
      values k value)
    (hcount : k < maxIterations)
    (hsegment : GetsTo (fun j => renderSegment ((name, value) :: scope) (j :: 2 :: k :: 1 :: path))
      body i segment)
    (h : Performs ((name, value) :: scope) (i :: 2 :: k :: 1 :: path) segment operation) :
    Performs scope path (.loop (.forEach name mode collection) body) operation
  | init {scope : Scope} {path : List Nat} {name : String} {init : Expr} {test : Option Expr}
    {update : Option LoopUpdate} {body : List Segment} {operation : Operation}
    (h : Expr.Performs scope (0 :: path) init operation) :
    Performs scope path (.loop (.counted name init test update) body) operation
  | test {scope : Scope} {path : List Nat} {name : String} {init test : Expr}
    {update : Option LoopUpdate} {body : List Segment} {first value : Located} {k : Nat}
    {operation : Operation} (hfirst : eval scope (0 :: path) init = .ok first)
    (hreaches : Reaches (fun s p => renderBody s p 0 body) name (some test) update scope (1 :: path)
      0 first k value)
    (h : Expr.Performs ((name, value) :: scope) (0 :: k :: 1 :: path) test operation) :
    Performs scope path (.loop (.counted name init (some test) update) body) operation
  | body {scope : Scope} {path : List Nat} {name : String} {init : Expr} {test : Option Expr}
    {update : Option LoopUpdate} {body : List Segment} {first value : Located} {k i : Nat}
    {segment : Segment} {operation : Operation} (hfirst : eval scope (0 :: path) init = .ok first)
    (hreaches : Reaches (fun s p => renderBody s p 0 body) name test update scope (1 :: path)
      0 first k value)
    (hcount : k < maxIterations)
    (htest : goesOn ((name, value) :: scope) (0 :: k :: 1 :: path) test = .ok true)
    (hsegment : GetsTo (fun j => renderSegment ((name, value) :: scope) (j :: 2 :: k :: 1 :: path))
      body i segment)
    (h : Performs ((name, value) :: scope) (i :: 2 :: k :: 1 :: path) segment operation) :
    Performs scope path (.loop (.counted name init test update) body) operation
  | step {scope : Scope} {path : List Nat} {name : String} {init : Expr} {test : Option Expr}
    {update : LoopUpdate} {body : List Segment} {first value : Located} {k : Nat} {text : String}
    {operation : Operation} (hfirst : eval scope (0 :: path) init = .ok first)
    (hreaches : Reaches (fun s p => renderBody s p 0 body) name test (some update) scope (1 :: path)
      0 first k value)
    (hcount : k < maxIterations)
    (htest : goesOn ((name, value) :: scope) (0 :: k :: 1 :: path) test = .ok true)
    (htext : renderBody ((name, value) :: scope) (2 :: k :: 1 :: path) 0 body = .ok text)
    (h : Steps ((name, value) :: scope) (1 :: k :: 1 :: path) name update value operation) :
    Performs scope path (.loop (.counted name init test (some update)) body) operation

/-- The rendering of a segment gets to an operation that fails. -/
def Segment.Breaks (scope : Scope) (path : List Nat) (segment : Segment) (kind : Fault) : Prop :=
  ∃ operation, segment.Performs scope path operation ∧ operation.Fails kind

theorem renderBody_eq_error_iff (scope : Scope) (path : List Nat) (position : Nat)
    (body : List Segment) (reason : Halt EvalError) :
    renderBody scope path position body = .error reason ↔
      ∃ i segment, GetsTo (fun j => renderSegment scope ((position + j) :: path)) body i segment ∧
        renderSegment scope ((position + i) :: path) segment = .error reason := by
  induction body generalizing position with
  | nil =>
      rw [renderBody]
      constructor
      · nofun
      · rintro ⟨_, _, h, _⟩
        exact (not_getsTo_nil h).elim
  | cons segment rest ih =>
      rw [renderBody, exists_getsTo_cons_iff, Transclude.bind_eq_error]
      simp only [bind_pure_eq_error, ih, Nat.add_zero, Nat.add_assoc, Nat.add_comm 1]

/-- A body ends with a fault when it gets to a segment that does. -/
theorem renderBody_fault_iff {body : List Segment} {kind : Fault}
    (h : ∀ segment ∈ body, ∀ scope path,
      renderSegment scope path segment = .error (.fault kind) ↔ segment.Breaks scope path kind)
    (scope : Scope) (path : List Nat) :
    renderBody scope path 0 body = .error (.fault kind) ↔
      ∃ i segment, GetsTo (fun j => renderSegment scope (j :: path)) body i segment ∧
        segment.Breaks scope (i :: path) kind := by
  rw [renderBody_eq_error_iff]
  simp only [Nat.zero_add]
  constructor
  · rintro ⟨i, segment, hsegment, hfault⟩
    exact ⟨i, segment, hsegment, (h segment (List.mem_of_getElem? hsegment.here) _ _).mp hfault⟩
  · rintro ⟨i, segment, hsegment, hbreaks⟩
    exact ⟨i, segment, hsegment, (h segment (List.mem_of_getElem? hsegment.here) _ _).mpr hbreaks⟩

theorem goesOn_fault_iff (scope : Scope) (path : List Nat) (test : Option Expr) (kind : Fault) :
    goesOn scope path test = .error (.fault kind) ↔
      ∃ e, test = some e ∧ Expr.Breaks scope path e kind := by
  cases test with
  | none =>
      constructor
      · nofun
      · rintro ⟨_, h, _⟩
        cases h
  | some e =>
      rw [goesOn, bind_pure_eq_error, eval_fault_iff]
      constructor
      · exact fun h => ⟨e, rfl, h⟩
      · rintro ⟨_, h, hbreaks⟩
        cases h
        exact hbreaks

theorem forEach_fault_iff {body : List Segment} {kind : Fault}
    (hbody : ∀ segment ∈ body, ∀ scope path,
      renderSegment scope path segment = .error (.fault kind) ↔ segment.Breaks scope path kind)
    (scope : Scope) (path : List Nat) (name : String) (mode : Enumeration) (collection : Expr) :
    iterations (fun s p => renderBody s p 0 body) scope path (.forEach name mode collection) =
        .error (.fault kind) ↔
      (Segment.loop (.forEach name mode collection) body).Breaks scope path kind := by
  rw [iterations, Transclude.bind_eq_error, eval_fault_iff]
  constructor
  · rintro (⟨operation, h, hfails⟩ | ⟨whole, hwhole, h⟩)
    · exact ⟨operation, .collection h, hfails⟩
    · obtain h | ⟨values, hvalues, h⟩ := Transclude.bind_eq_error.mp h
      · exact (enumerate_ne_fault mode whole kind h).elim
      · obtain ⟨k, value, hvalue, hcount, h⟩ :=
          (eachFrom_fault_iff (Nat.zero_le _) values kind).mp h
        simp only [Nat.zero_add] at hvalue hcount h
        obtain ⟨i, segment, hsegment, operation, h, hfails⟩ :=
          (renderBody_fault_iff hbody _ _).mp h
        exact ⟨operation, .each hwhole hvalues hvalue hcount hsegment h, hfails⟩
  · rintro ⟨operation, h, hfails⟩
    cases h with
    | collection h => exact Or.inl ⟨operation, h, hfails⟩
    | each hwhole hvalues hvalue hcount hsegment h =>
        refine Or.inr ⟨_, hwhole, ?_⟩
        rw [hvalues, ok_bind, eachFrom_fault_iff (Nat.zero_le _)]
        simp only [Nat.zero_add]
        exact ⟨_, _, hvalue, hcount,
          (renderBody_fault_iff hbody _ _).mpr ⟨_, _, hsegment, operation, h, hfails⟩⟩

theorem counted_fault_iff {body : List Segment} {kind : Fault}
    (hbody : ∀ segment ∈ body, ∀ scope path,
      renderSegment scope path segment = .error (.fault kind) ↔ segment.Breaks scope path kind)
    (scope : Scope) (path : List Nat) (name : String) (init : Expr) (test : Option Expr)
    (update : Option LoopUpdate) :
    iterations (fun s p => renderBody s p 0 body) scope path (.counted name init test update) =
        .error (.fault kind) ↔
      (Segment.loop (.counted name init test update) body).Breaks scope path kind := by
  rw [iterations, Transclude.bind_eq_error, eval_fault_iff]
  simp only [countedFrom_fault_iff (Nat.le_refl maxIterations), Nat.sub_self]
  constructor
  · rintro (⟨operation, h, hfails⟩ | ⟨first, hfirst, k, value, hreaches, hbreaks⟩)
    · exact ⟨operation, .init h, hfails⟩
    · cases hbreaks with
      | test h =>
          obtain ⟨e, rfl, operation, h, hfails⟩ := (goesOn_fault_iff _ _ _ _).mp h
          exact ⟨operation, .test hfirst hreaches h, hfails⟩
      | body hcount htest h =>
          obtain ⟨i, segment, hsegment, operation, h, hfails⟩ :=
            (renderBody_fault_iff hbody _ _).mp h
          exact ⟨operation, .body hfirst hreaches hcount htest hsegment h, hfails⟩
      | step hcount htest htext h =>
          cases update with
          | none => cases h
          | some update =>
              obtain ⟨operation, h, hfails⟩ := (step_fault_iff _ _ _ _ _ _).mp h
              exact ⟨operation, .step hfirst hreaches hcount htest htext h, hfails⟩
  · rintro ⟨operation, h, hfails⟩
    cases h with
    | init h => exact Or.inl ⟨operation, h, hfails⟩
    | test hfirst hreaches h =>
        exact Or.inr ⟨_, hfirst, _, _, hreaches,
          .test ((goesOn_fault_iff _ _ _ _).mpr ⟨_, rfl, operation, h, hfails⟩)⟩
    | body hfirst hreaches hcount htest hsegment h =>
        exact Or.inr ⟨_, hfirst, _, _, hreaches, .body hcount htest
          ((renderBody_fault_iff hbody _ _).mpr ⟨_, _, hsegment, operation, h, hfails⟩)⟩
    | step hfirst hreaches hcount htest htext h =>
        exact Or.inr ⟨_, hfirst, _, _, hreaches, .step hcount htest htext
          ((step_fault_iff _ _ _ _ _ _).mpr ⟨operation, h, hfails⟩)⟩

/-- The rendering of a segment ends with a fault when it gets to an operation that fails. -/
theorem renderSegment_fault_iff (scope : Scope) (path : List Nat) (segment : Segment)
    (kind : Fault) :
    renderSegment scope path segment = .error (.fault kind) ↔ segment.Breaks scope path kind := by
  induction segment using Segment.induction generalizing scope path with
  | literal text =>
      rw [renderSegment]
      constructor
      · nofun
      · rintro ⟨_, h, _⟩
        cases h
  | placeholder e =>
      rw [renderSegment, Transclude.bind_eq_error, eval_fault_iff]
      constructor
      · rintro (⟨operation, h, hfails⟩ | ⟨value, hvalue, h⟩)
        · exact ⟨operation, .placeholder h, hfails⟩
        · rw [liftM_eq_fault, Expr.toShownText_eq_error_iff] at h
          exact ⟨_, .text hvalue, h⟩
      · rintro ⟨operation, h, hfails⟩
        cases h with
        | placeholder h => exact Or.inl ⟨operation, h, hfails⟩
        | text hvalue =>
            refine Or.inr ⟨_, hvalue, ?_⟩
            rwa [liftM_eq_fault, Expr.toShownText_eq_error_iff]
  | loop header body ih =>
      rw [renderSegment, bind_pure_eq_error]
      cases header with
      | forEach name mode collection => exact forEach_fault_iff ih scope path name mode collection
      | counted name init test update => exact counted_fault_iff ih scope path name init test update

/-! ## Loops as text -/

theorem placeholders_ne_fault (text : List Char) (kind : Fault) :
    placeholders text ≠ .error (.fault kind) := by
  fun_induction placeholders text with
  | case1 text _ => nofun
  | case2 text before after _ _ => nofun
  | case3 text before after _ close _ ih =>
      intro h
      obtain h | ⟨e, _, h⟩ := Transclude.bind_eq_error.mp h
      · exact mapError_ne_fault h
      · exact ih (bind_pure_eq_error.mp h)

/-- The pieces of a body are cut into segments if those of each loop are. -/
theorem outcome_segmentsOf_ne_fault {ω : Type} {delimiters : Delimiters} {depth : Nat}
    {kind : Fault} (hinner : ∀ body,
      (segments delimiters depth body : Run ω Expr.Error (List Segment)).outcome ≠
        .error (.fault kind)) (pending : List Char) (pieces : List Piece) :
    (segmentsOf delimiters depth pending pieces : Run ω Expr.Error (List Segment)).outcome ≠
      .error (.fault kind) := by
  induction pieces generalizing pending with
  | nil =>
      rw [segmentsOf]
      exact placeholders_ne_fault pending kind
  | cons piece rest ih =>
      cases piece with
      | literal text =>
          rw [segmentsOf]
          exact ih _
      | unbalanced part start =>
          rw [segmentsOf, Run.outcome_bind, Run.outcome_detail, ok_bind]
          exact ih pending
      | directive found _ =>
          rw [segmentsOf, Run.outcome_bind]
          intro h
          obtain h | ⟨first, _, h⟩ := Transclude.bind_eq_error.mp h
          · exact placeholders_ne_fault pending kind h
          · rw [Run.outcome_bind] at h
            obtain h | ⟨header, _, h⟩ := Transclude.bind_eq_error.mp h
            · exact mapError_ne_fault h
            · rw [Run.outcome_bind] at h
              obtain h | ⟨body, _, h⟩ := Transclude.bind_eq_error.mp h
              · exact hinner found.body h
              · rw [Run.outcome_bind] at h
                exact ih [] (bind_pure_eq_error.mp h)

/-- A body is cut into segments, or an error is reported. -/
theorem outcome_compile_ne_fault {ω : Type} (delimiters : Delimiters) (body : List Char)
    (kind : Fault) :
    (compile delimiters body : Run ω Expr.Error (List Segment)).outcome ≠ .error (.fault kind) := by
  unfold compile
  generalize body.length + 1 = depth
  induction depth generalizing body with
  | zero =>
      rw [segments]
      intro h
      cases h
  | succ depth ih =>
      rw [segments]
      exact outcome_segmentsOf_ne_fault ih [] _

theorem outcome_render_fault_iff {ω : Type} (delimiters : Delimiters) (header body : List Char)
    (scope : Scope) (kind : Fault) :
    (render delimiters header body scope : Run ω Expr.Error String).outcome =
        .error (.fault kind) ↔
      ∃ loop segments, Expr.parseHeader header = .ok loop ∧
        (compile delimiters body : Run ω Expr.Error (List Segment)).outcome = .ok segments ∧
        (Segment.loop loop segments).Breaks scope [] kind := by
  have hsegment (loop : LoopHeader) (segments : List Segment) :
      (renderSegment scope [] (.loop loop segments)).mapError (Halt.map Expr.Error.eval) =
          .error (.fault kind) ↔ (Segment.loop loop segments).Breaks scope [] kind := by
    rw [← renderSegment_fault_iff, mapError_eq_fault]
  unfold render
  simp only [Run.outcome_bind, Run.outcome_lift]
  constructor
  · intro h
    obtain h | ⟨loop, hloop, h⟩ := Transclude.bind_eq_error.mp h
    · exact (mapError_ne_fault h).elim
    · obtain h | ⟨segments, hsegments, h⟩ := Transclude.bind_eq_error.mp h
      · exact (outcome_compile_ne_fault delimiters body kind h).elim
      · obtain h | ⟨text, _, h⟩ := Transclude.bind_eq_error.mp h
        · exact ⟨loop, segments, mapError_eq_ok.mp hloop, hsegments, (hsegment loop segments).mp h⟩
        · cases h
  · rintro ⟨loop, segments, hloop, hsegments, hbreaks⟩
    refine Transclude.bind_eq_error.mpr (Or.inr ⟨loop, mapError_eq_ok.mpr hloop, ?_⟩)
    refine Transclude.bind_eq_error.mpr (Or.inr ⟨segments, hsegments, ?_⟩)
    exact Transclude.bind_eq_error.mpr (Or.inl ((hsegment loop segments).mpr hbreaks))

end Loop

namespace Renderer

/-- The evaluation of a condition gets to an operation that fails. -/
def ConditionBreaks (scope : Scope) (directive : Directive) (kind : Fault) : Prop :=
  ∃ e, Expr.parse directive.args = .ok e ∧ e.Breaks scope [] kind

/-- The unrolling of a loop gets to an operation that fails. -/
def LoopBreaks (delimiters : Delimiters) (scope : Scope) (directive : Directive) (kind : Fault) :
    Prop :=
  ∃ loop segments, Expr.parseHeader directive.args = .ok loop ∧
    (Loop.compile delimiters directive.body : Run Warning Expr.Error _).outcome = .ok segments ∧
    (Loop.Segment.loop loop segments).Breaks scope [] kind

theorem conditionHolds_fault_iff (scope : Scope) (directive : Directive) (kind : Fault) :
    conditionHolds scope directive = .error (.fault kind) ↔
      ConditionBreaks scope directive kind := by
  unfold conditionHolds Expr.holds Expr.evalText ConditionBreaks
  rw [mapError_eq_fault, bind_pure_eq_error]
  cases Expr.parse directive.args with
  | error error =>
      constructor
      · nofun
      · rintro ⟨_, h, _⟩
        cases h
  | ok e =>
      dsimp only
      rw [mapError_eq_fault, Expr.eval_fault_iff]
      constructor
      · exact fun h => ⟨e, rfl, h⟩
      · rintro ⟨_, h, hbreaks⟩
        cases h
        exact hbreaks

theorem unroll_fault_iff (delimiters : Delimiters) (scope : Scope) (directive : Directive)
    (kind : Fault) :
    (unroll delimiters scope directive).outcome = .error (.fault kind) ↔
      LoopBreaks delimiters scope directive kind := by
  unfold unroll LoopBreaks
  rw [Run.outcome_bind, Run.outcome_mapError]
  refine bind_pure_eq_error.trans ?_
  rw [mapError_eq_fault, Loop.outcome_render_fault_iff]

/-- A condition gives a truth value, or an error with its text; an unrolled loop gives a text, or an
error with the source of the loop. Only when they get to an operation without an answer, and always
then, they end with a fault instead. -/
theorem failures_carry_source (delimiters : Delimiters) (scope : Scope) (directive : Directive) :
    ((∃ holds, conditionHolds scope directive = .ok holds) ∨
      (∃ cause, conditionHolds scope directive =
        .error (.error ⟨.evaluation cause directive.args, none⟩)) ∨
      (∃ kind, conditionHolds scope directive = .error (.fault kind))) ∧
    (∀ kind, conditionHolds scope directive = .error (.fault kind) ↔
      ConditionBreaks scope directive kind) ∧
    ((∃ text, (unroll delimiters scope directive).outcome = .ok (some text)) ∨
      (∃ cause, (unroll delimiters scope directive).outcome = .error (.error
        ⟨.evaluation cause (Loop.sourceText directive.args directive.body), none⟩)) ∨
      (∃ kind, (unroll delimiters scope directive).outcome = .error (.fault kind))) ∧
    (∀ kind, (unroll delimiters scope directive).outcome = .error (.fault kind) ↔
      LoopBreaks delimiters scope directive kind) := by
  refine ⟨?_, conditionHolds_fault_iff scope directive, ?_,
    unroll_fault_iff delimiters scope directive⟩
  · unfold conditionHolds
    cases Expr.holds directive.args scope with
    | ok holds => exact Or.inl ⟨holds, rfl⟩
    | error reason =>
        cases reason with
        | error cause => exact Or.inr (Or.inl ⟨cause, rfl⟩)
        | fault kind => exact Or.inr (Or.inr ⟨kind, rfl⟩)
  · unfold unroll
    rw [Run.outcome_bind, Run.outcome_mapError]
    cases (Loop.render delimiters directive.args directive.body scope :
        Run Warning Expr.Error String).outcome with
    | ok text => exact Or.inl ⟨text.toList, rfl⟩
    | error reason =>
        cases reason with
        | error cause => exact Or.inr (Or.inl ⟨cause, rfl⟩)
        | fault kind => exact Or.inr (Or.inr ⟨kind, rfl⟩)

/-- A mapping has no property at a list. -/
theorem not_failures_carry_source :
    conditionHolds [("user", .map (.data []) [])] ⟨"user[[]]".toList, [], 0, 8, []⟩ =
      .error (.fault .wrongType) := by
  cbv

end Renderer

end Transclude
