import Transclude.Value.Basic

/-! # Expressions and loop headers

The trees of conditions and of loop headers. Groups are kept, so that a tree
shows every bracket of its text. -/

namespace Transclude

/-- The operators before an operand. -/
inductive UnaryOp
  | not
  | minus
  | plus
  | typeOf
deriving DecidableEq, Repr

/-- The spelling of an operator before its operand. -/
def UnaryOp.spelling : UnaryOp → String
  | .not => "!"
  | .minus => "-"
  | .plus => "+"
  | .typeOf => "typeof"

/-- The operators between two operands. -/
inductive BinaryOp
  | or
  | and
  | equal
  | unequal
  | strictEqual
  | strictUnequal
  | less
  | atMost
  | greater
  | atLeast
  | isIn
  | add
  | sub
  | mul
  | div
  | rem
deriving DecidableEq, Repr

namespace BinaryOp

/-- The spelling of an operator between its operands. -/
def spelling : BinaryOp → String
  | .or => "||"
  | .and => "&&"
  | .equal => "=="
  | .unequal => "!="
  | .strictEqual => "==="
  | .strictUnequal => "!=="
  | .less => "<"
  | .atMost => "<="
  | .greater => ">"
  | .atLeast => ">="
  | .isIn => "in"
  | .add => "+"
  | .sub => "-"
  | .mul => "*"
  | .div => "/"
  | .rem => "%"

/-- The level of precedence: operators of a higher level bind less tightly. -/
def level : BinaryOp → Nat
  | .mul | .div | .rem => 1
  | .add | .sub => 2
  | .less | .atMost | .greater | .atLeast | .isIn => 3
  | .equal | .unequal | .strictEqual | .strictUnequal => 4
  | .and => 5
  | .or => 6

/-- Whether the right operand is evaluated only when the left one does not decide. -/
def isLogical : BinaryOp → Bool
  | .or | .and => true
  | _ => false

end BinaryOp

/-- An expression. `member` reads a property by name and `index` by the value of an expression. -/
inductive Expr
  | literal (value : Scalar)
  | array (items : List Expr)
  | identifier (name : String)
  | member (object : Expr) (name : String)
  | index (object key : Expr)
  | unary (op : UnaryOp) (operand : Expr)
  | binary (op : BinaryOp) (left right : Expr)
  | conditional (test consequent alternate : Expr)
  | group (inner : Expr)
deriving Inhabited

/-- How a counted loop changes its variable. -/
inductive Change
  | increment
  | decrement
  | addAssign (amount : Expr)
  | subAssign (amount : Expr)
  | assign (value : Expr)

/-- The spelling of a change. -/
def Change.spelling : Change → String
  | .increment => "++"
  | .decrement => "--"
  | .addAssign _ => "+="
  | .subAssign _ => "-="
  | .assign _ => "="

/-- The expression of a change, if it has one. -/
def Change.operand? : Change → Option Expr
  | .increment | .decrement => none
  | .addAssign e | .subAssign e | .assign e => some e

/-- The step of a counted loop. -/
structure LoopUpdate where
  variableName : String
  change : Change

/-- What a loop over a collection takes from it. -/
inductive Enumeration
  | values
  | keys
deriving DecidableEq, Repr

/-- The word of an enumeration. -/
def Enumeration.spelling : Enumeration → String
  | .values => "of"
  | .keys => "in"

/-- The header of a loop. -/
inductive LoopHeader
  | counted (variableName : String) (init : Expr) (test : Option Expr) (update : Option LoopUpdate)
  | forEach (variableName : String) (mode : Enumeration) (collection : Expr)

end Transclude
