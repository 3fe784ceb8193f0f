import Transclude.Expr.Eval
import Transclude.Expr.Parser

/-! # Expressions as text

A text is parsed and evaluated in a scope. Used as a condition it holds when its
value is true in the sense of expressions. -/

namespace Transclude.Expr

/-- Why the text of an expression or of a loop has no value. -/
inductive Error
  | parse (error : ParseError)
  | eval (error : EvalError)
deriving DecidableEq, Repr

/-- The wording of an error. -/
def Error.message : Error → String
  | .parse error => error.message
  | .eval error => error.message

/-- The value of the text of an expression. -/
def evalText (text : List Char) (scope : Scope) : Except (Halt Error) Located :=
  match parse text with
  | .error error => .error (.error (.parse error))
  | .ok expr => (eval scope [] expr).mapError (Halt.map .eval)

/-- Whether the text of a condition holds. -/
def holds (text : List Char) (scope : Scope) : Except (Halt Error) Bool := do
  return (← evalText text scope).isTruthy

end Transclude.Expr
