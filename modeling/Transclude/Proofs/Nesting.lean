import Mathlib
import Transclude.Proofs.Outcome
import Transclude.Proofs.Scanning
import Transclude.Render

/-! # Blocks inside blocks

The body of a block is shorter than the text that it stands in, so that the depth
to which conditions and loops are followed is never used up: each is given by what
it does with the bodies of its own blocks. -/

namespace Transclude

namespace Directive

/-- The body of a directive of a text is shorter than the text. -/
theorem length_body_lt {delimiters : Delimiters} {name : List Char} {shape : Shape}
    {text : List Char} {found : Directive} {source : List Char}
    (h : .directive found source ∈ pieces delimiters name shape text) :
    found.body.length < text.length := by
  have hmem : found ∈ all delimiters name shape text := List.mem_filterMap.mpr ⟨_, h, rfl⟩
  obtain ⟨_, hstop, hparts⟩ := (all_advance delimiters name shape text).within found hmem
  omega

/-- A function of texts that is given by depth, and each time asks with the depth before for shorter
texts only, has one value for all depths beyond the length of a text. -/
theorem eq_of_asks_shorter {α : Type} {value : Nat → List Char → α}
    (hstep : ∀ depth depth' text,
      (∀ body : List Char, body.length < text.length → value depth body = value depth' body) →
        value (depth + 1) text = value (depth' + 1) text)
    {depth depth' : Nat} {text : List Char} (h : text.length < depth) (h' : text.length < depth') :
    value depth text = value depth' text := by
  induction depth generalizing depth' text with
  | zero => omega
  | succ depth ih =>
      obtain ⟨less, rfl⟩ : ∃ less, depth' = less + 1 := ⟨depth' - 1, by omega⟩
      apply hstep
      intro body hbody
      exact ih (by omega) (by omega)

end Directive

theorem Piece.assemble_congr {m : Type → Type} [Monad m] {remark : Part → Nat → m Unit}
    {handler handler' : Directive → m (Option (List Char))} {pieces : List Piece}
    (h : ∀ found source, .directive found source ∈ pieces → handler found = handler' found) :
    assemble remark handler pieces = assemble remark handler' pieces := by
  induction pieces with
  | nil => rfl
  | cons piece rest ih =>
      have hrest := ih fun found source hmem => h found source (by simp [hmem])
      cases piece with
      | literal text => rw [assemble, assemble, hrest]
      | unbalanced part start => rw [assemble, assemble, hrest]
      | directive found source => rw [assemble, assemble, hrest, h found source (by simp)]

namespace Renderer

/-- The text with all its conditions decided. -/
def decided (delimiters : Delimiters) (scope : Scope) (text : List Char) : Rendering (List Char) :=
  decideConditions delimiters scope (text.length + 1) text

/-- Conditions are decided alike at all depths beyond the length of the text. -/
theorem decideConditions_settled {delimiters : Delimiters} {scope : Scope} {depth : Nat}
    {text : List Char} (h : text.length < depth) :
    decideConditions delimiters scope depth text = decided delimiters scope text := by
  refine Directive.eq_of_asks_shorter ?_ h (Nat.lt_succ_self text.length)
  intro depth depth' text hshorter
  rw [decideConditions, decideConditions]
  apply Piece.assemble_congr
  intro found source hmem
  rw [hshorter found.body (Directive.length_body_lt hmem)]

/-- A condition that holds puts its body in its place with its own conditions decided, and one that
does not hold puts nothing there. -/
theorem decided_eq (delimiters : Delimiters) (scope : Scope) (text : List Char) :
    decided delimiters scope text =
      replaceDirectives delimiters "if".toList .block (fun directive => do
        if ← conditionHolds scope directive then
          return some (← decided delimiters scope directive.body)
        else return some []) text := by
  rw [decided, decideConditions]
  apply Piece.assemble_congr
  intro found source hmem
  rw [decideConditions_settled (Directive.length_body_lt hmem)]

end Renderer

namespace Loop

variable {ω : Type}

/-- The segments of pieces behind pending text, when those of the bodies of their loops are
given. -/
def cutFrom (inner : List Char → Run ω Expr.Error (List Segment)) (pending : List Char) :
    List Piece → Run ω Expr.Error (List Segment)
  | [] => placeholders pending
  | .literal text :: rest => cutFrom inner (pending ++ text) rest
  | .unbalanced part start :: rest => do
    Run.detail (unbalancedRemark directiveName part start)
    cutFrom inner pending rest
  | .directive found _ :: rest => do
    let first ← placeholders pending
    let header ← ((Expr.parseHeader found.args).mapError fun e => .error (.parse e) :
      Except (Halt Expr.Error) LoopHeader)
    let body ← inner found.body
    let following ← cutFrom inner [] rest
    return first ++ .loop header body :: following

/-- The segments of pieces, when those of the bodies of their loops are given. -/
def cut (inner : List Char → Run ω Expr.Error (List Segment)) (pieces : List Piece) :
    Run ω Expr.Error (List Segment) :=
  cutFrom inner [] pieces

theorem segmentsOf_eq_cutFrom (delimiters : Delimiters) (depth : Nat) (pending : List Char)
    (pieces : List Piece) :
    segmentsOf (ω := ω) delimiters depth pending pieces =
      cutFrom (segments delimiters depth) pending pieces := by
  induction pieces generalizing pending with
  | nil => rw [segmentsOf, cutFrom]
  | cons piece rest ih =>
      cases piece with
      | literal text => rw [segmentsOf, cutFrom, ih]
      | unbalanced part start => rw [segmentsOf, cutFrom, ih]
      | directive found source => rw [segmentsOf, cutFrom, ih]

theorem cutFrom_congr {inner inner' : List Char → Run ω Expr.Error (List Segment)}
    {pieces : List Piece}
    (h : ∀ found source, .directive found source ∈ pieces → inner found.body = inner' found.body)
    (pending : List Char) : cutFrom inner pending pieces = cutFrom inner' pending pieces := by
  induction pieces generalizing pending with
  | nil => rfl
  | cons piece rest ih =>
      have hrest := ih fun found source hmem => h found source (by simp [hmem])
      cases piece with
      | literal text => rw [cutFrom, cutFrom, hrest]
      | unbalanced part start => rw [cutFrom, cutFrom, hrest]
      | directive found source => rw [cutFrom, cutFrom, hrest, h found source (by simp)]

/-- Bodies are cut alike at all depths beyond their length. -/
theorem segments_settled {delimiters : Delimiters} {depth : Nat} {body : List Char}
    (h : body.length < depth) :
    segments (ω := ω) delimiters depth body = compile delimiters body := by
  refine Directive.eq_of_asks_shorter ?_ h (Nat.lt_succ_self body.length)
  intro depth depth' body hshorter
  rw [segments, segments, segmentsOf_eq_cutFrom, segmentsOf_eq_cutFrom]
  apply cutFrom_congr
  intro found source hmem
  exact hshorter found.body (Directive.length_body_lt hmem)

/-- The body of a loop is cut into its pieces, and the bodies of the loops in it in the same way. -/
theorem compile_eq (delimiters : Delimiters) (body : List Char) :
    compile (ω := ω) delimiters body =
      cut (compile delimiters) (Directive.pieces delimiters directiveName .block body) := by
  rw [compile, segments, segmentsOf_eq_cutFrom]
  apply cutFrom_congr
  intro found source hmem
  exact segments_settled (Directive.length_body_lt hmem)

/-! ## Iterations -/

open Transclude.Expr

section

variable {render render' : Scope → List Nat → Evaluation String} {name : String} {scope : Scope}
  {path : List Nat}

theorem eachFrom_congr
    (h : ∀ inner count, count < maxIterations →
      render inner (2 :: count :: path) = render' inner (2 :: count :: path))
    {count : Nat} (hcount : count ≤ maxIterations) (values : List Located) :
    eachFrom render name scope path count values = eachFrom render' name scope path count values := by
  induction values generalizing count with
  | nil => rfl
  | cons value rest ih =>
      rw [eachFrom, eachFrom]
      split
      next => rfl
      next hne => rw [h _ count (by omega), ih (by omega)]

theorem length_of_eachFrom {count : Nat} (hcount : count ≤ maxIterations) {values : List Located}
    {texts : List String} (h : eachFrom render name scope path count values = .ok texts) :
    count + texts.length ≤ maxIterations := by
  induction values generalizing count texts with
  | nil =>
      cases h
      exact hcount
  | cons value rest ih =>
      rw [eachFrom] at h
      split at h
      next => cases h
      next hne =>
        obtain ⟨text, _, h⟩ := bind_eq_ok.mp h
        obtain ⟨following, hfollowing, h⟩ := bind_eq_ok.mp h
        cases h
        have hle := ih (by omega) hfollowing
        rw [List.length_cons]
        omega

variable {test : Option Expr} {update : Option LoopUpdate}

theorem countedFrom_congr
    (h : ∀ inner count, count < maxIterations →
      render inner (2 :: count :: path) = render' inner (2 :: count :: path))
    {left : Nat} (hleft : left ≤ maxIterations) (value : Located) :
    countedFrom render name test update scope path left value =
      countedFrom render' name test update scope path left value := by
  induction left generalizing value with
  | zero => rfl
  | succ left ih =>
      rw [countedFrom, countedFrom]
      apply bind_congr_of_ok
      intro holds _
      split
      next =>
        rw [h _ _ (by omega)]
        apply bind_congr_of_ok
        intro text _
        apply bind_congr_of_ok
        intro next _
        rw [ih (by omega)]
      next => rfl

theorem length_of_countedFrom {left : Nat} {value : Located} {texts : List String}
    (h : countedFrom render name test update scope path left value = .ok texts) :
    texts.length ≤ left := by
  induction left generalizing value texts with
  | zero =>
      rw [countedFrom] at h
      obtain ⟨holds, _, h⟩ := bind_eq_ok.mp h
      split at h
      next => cases h
      next => cases h; exact Nat.le_refl 0
  | succ left ih =>
      rw [countedFrom] at h
      obtain ⟨holds, _, h⟩ := bind_eq_ok.mp h
      split at h
      next =>
        obtain ⟨text, _, h⟩ := bind_eq_ok.mp h
        obtain ⟨next, _, h⟩ := bind_eq_ok.mp h
        obtain ⟨following, hfollowing, h⟩ := bind_eq_ok.mp h
        cases h
        have hle := ih hfollowing
        rw [List.length_cons]
        omega
      next => cases h; exact Nat.zero_le _

end

/-- A loop asks for its body in no iteration beyond the greatest number of them. -/
theorem iterations_congr {render render' : Scope → List Nat → Evaluation String} {scope : Scope}
    {path : List Nat}
    (h : ∀ inner count, count < maxIterations →
      render inner (2 :: count :: 1 :: path) = render' inner (2 :: count :: 1 :: path))
    (header : LoopHeader) :
    iterations render scope path header = iterations render' scope path header := by
  cases header with
  | forEach name mode collection =>
      rw [iterations, iterations]
      apply bind_congr_of_ok
      intro value _
      apply bind_congr_of_ok
      intro values _
      exact eachFrom_congr h (Nat.zero_le _) values
  | counted name init test update =>
      rw [iterations, iterations]
      apply bind_congr_of_ok
      intro value _
      exact countedFrom_congr h (Nat.le_refl _) value

/-- A loop renders its body at most the greatest number of times. -/
theorem length_of_iterations {render : Scope → List Nat → Evaluation String} {scope : Scope}
    {path : List Nat} {header : LoopHeader} {texts : List String}
    (h : iterations render scope path header = .ok texts) : texts.length ≤ maxIterations := by
  cases header with
  | forEach name mode collection =>
      obtain ⟨value, _, h⟩ := bind_eq_ok.mp h
      obtain ⟨values, _, h⟩ := bind_eq_ok.mp h
      have hle := length_of_eachFrom (Nat.zero_le _) h
      omega
  | counted name init test update =>
      obtain ⟨value, _, h⟩ := bind_eq_ok.mp h
      exact length_of_countedFrom h

end Loop

end Transclude
