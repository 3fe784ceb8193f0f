import Transclude.Directive.Split
import Transclude.Expr.Condition
import Transclude.Run

/-! # Loop bodies

The body of a loop is cut once into literal text, the expressions of its
placeholders `$\x7b...\x7d`, and nested loops, whose own bodies are cut in the
same way. -/

namespace Transclude.Loop

/-- A part of the body of a loop. -/
inductive Segment
  | literal (text : String)
  | placeholder (expr : Expr)
  | loop (header : LoopHeader) (body : List Segment)

/-- The text before the first placeholder, and the text behind its `$`. -/
def splitPlaceholder : List Char → Option (List Char × List Char)
  | '$' :: '\x7b' :: rest => some ([], '\x7b' :: rest)
  | c :: rest => (splitPlaceholder rest).map fun (before, after) => (c :: before, after)
  | [] => none

/-- The text behind the first placeholder sign is shorter than the whole. -/
theorem splitPlaceholder_length {text before after : List Char}
    (h : splitPlaceholder text = some (before, after)) : after.length < text.length := by
  fun_induction splitPlaceholder text generalizing before after with
  | case1 rest => grind
  | case2 c rest _ ih =>
    obtain ⟨⟨b, a⟩, hb, heq⟩ := Option.map_eq_some_iff.1 h
    have := ih hb
    grind
  | case3 => simp at h

/-- The literals and placeholders of a text without loops. -/
def placeholders (text : List Char) : Except (Halt Expr.Error) (List Segment) :=
  match _ : splitPlaceholder text with
  | none => .ok [.literal (String.ofList text)]
  | some (before, after) =>
    match Bracket.closing? true '\x7b' '\x7d' after with
    | none => .error (.error (.eval .unterminatedPlaceholder))
    | some close => do
      let expr ← (Expr.parse ((after.drop 1).take (close - 1))).mapError fun e => .error (.parse e)
      let following ← placeholders (after.drop (close + 1))
      return .literal (String.ofList before) :: .placeholder expr :: following
termination_by text.length
decreasing_by
  have := splitPlaceholder_length ‹splitPlaceholder text = some (before, after)›
  simp only [List.length_drop]
  omega

/-- The name of loop directives. -/
def directiveName : List Char := "for".toList

/-- The remark on a directive that is not closed. -/
def unbalancedRemark (name : List Char) (part : Part) (start : Nat) : String :=
  "Unbalanced " ++ part.word ++ " for '" ++ String.ofList name ++ "' at " ++ toString start ++
    ", left as text"

mutual

/-- The segments of a body. The first argument bounds the depth of nesting. -/
def segments {ω : Type} (delimiters : Delimiters) :
    Nat → List Char → Run ω Expr.Error (List Segment)
  | 0, _ => .done []
  | depth + 1, body =>
    segmentsOf delimiters depth [] (Directive.pieces delimiters directiveName .block body)

/-- The segments of the pieces of a body. `pending` is the text since the last loop, which is a
literal before the next one and at the end, also when it is empty. -/
def segmentsOf {ω : Type} (delimiters : Delimiters) (depth : Nat) (pending : List Char) :
    List Piece → Run ω Expr.Error (List Segment)
  | [] => placeholders pending
  | .literal text :: rest => segmentsOf delimiters depth (pending ++ text) rest
  | .unbalanced part start :: rest => do
    Run.detail (unbalancedRemark directiveName part start)
    segmentsOf delimiters depth pending rest
  | .directive found _ :: rest => do
    let first ← placeholders pending
    let header ← ((Expr.parseHeader found.args).mapError fun e => .error (.parse e) :
      Except (Halt Expr.Error) LoopHeader)
    let body ← segments delimiters depth found.body
    let following ← segmentsOf delimiters depth [] rest
    return first ++ .loop header body :: following

end

/-- The segments of the body of a loop. -/
def compile {ω : Type} (delimiters : Delimiters) (body : List Char) :
    Run ω Expr.Error (List Segment) :=
  segments delimiters (body.length + 1) body

end Transclude.Loop
