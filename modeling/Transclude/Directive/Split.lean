import Transclude.Directive.Basic

/-! # Splitting a text at its directives

The directives of one name are taken from left to right and never overlap. What
looks like a directive and is none stays text, and the search goes on behind its
head. -/

namespace Transclude

/-- A part of a text: text between directives, a directive with its own text, or the remark that the
directive starting at a position is not closed. -/
inductive Piece
  | literal (text : List Char)
  | directive (found : Directive) (text : List Char)
  | unbalanced (part : Part) (start : Nat)
deriving DecidableEq, Repr

namespace Directive

/-- The pieces of the rest of a text. `passed` holds the characters before it and `pending` those of
them that no piece has taken yet, both from right to left. -/
def piecesFrom (delimiters : Delimiters) (name : List Char) (shape : Shape)
    (passed pending : List Char) (position : Nat) : List Char → List Piece
  | [] => if pending.isEmpty then [] else [.literal pending.reverse]
  | c :: rest =>
    match headLength? delimiters.opening name (c :: rest) with
    | none => piecesFrom delimiters name shape (c :: passed) (c :: pending) (position + 1) rest
    | some head =>
      let skipped := ((c :: rest).take (head - 1 + 1)).reverse
      match readTail shape delimiters.closing ((c :: rest).drop head) with
      | .other =>
        piecesFrom delimiters name shape (skipped ++ passed) (skipped ++ pending)
          (position + (head - 1) + 1) (rest.drop (head - 1))
      | .unbalanced part =>
        .unbalanced part position ::
          piecesFrom delimiters name shape (skipped ++ passed) (skipped ++ pending)
            (position + (head - 1) + 1) (rest.drop (head - 1))
      | .complete args body length =>
        let source := (c :: rest).take (head + length - 1 + 1)
        let stop := position + (head + length - 1) + 1
        let before := (passed.takeWhile fun p => p == ' ' || p == '\t').reverse
        let directive : Directive := ⟨args, body, position, stop, before⟩
        let found := .directive directive source ::
          piecesFrom delimiters name shape (source.reverse ++ passed) [] stop
            (rest.drop (head + length - 1))
        if pending.isEmpty then found else .literal pending.reverse :: found
termination_by text => text.length
decreasing_by all_goals simp only [List.length_cons, List.length_drop]; omega

/-- The pieces of a text. -/
def pieces (delimiters : Delimiters) (name : List Char) (shape : Shape) (text : List Char) :
    List Piece :=
  piecesFrom delimiters name shape [] [] 0 text

/-- The directives of a text, from left to right. -/
def all (delimiters : Delimiters) (name : List Char) (shape : Shape) (text : List Char) :
    List Directive :=
  (pieces delimiters name shape text).filterMap fun
    | .directive found _ => some found
    | _ => none

end Directive

namespace Piece

/-- The text of a piece. -/
def source : Piece → List Char
  | .literal text => text
  | .directive _ text => text
  | .unbalanced _ _ => []

variable {m : Type → Type} [Monad m]

/-- Puts the pieces together again, each directive replaced by what the handler gives for it, or
kept when it gives nothing. Remarks go to `remark`. -/
def assemble (remark : Part → Nat → m Unit) (handler : Directive → m (Option (List Char))) :
    List Piece → m (List Char)
  | [] => pure []
  | .literal text :: rest => do
    let following ← assemble remark handler rest
    return text ++ following
  | .unbalanced part start :: rest => do
    remark part start
    assemble remark handler rest
  | .directive found text :: rest => do
    let replacement ← handler found
    let following ← assemble remark handler rest
    return replacement.getD text ++ following

end Piece

end Transclude
