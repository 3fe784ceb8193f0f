import Transclude.Expr.Basic
import Transclude.Expr.Scope
import Transclude.Value.Equality
import Transclude.Value.Property

/-! # The value of an expression

Evaluation is strict in names: one that is not in scope is an error, except
under `typeof`. A missing property is `undefined`, but `null` and `undefined`
have no properties to read. Conjunction and disjunction give one of their
operands and leave the right one unevaluated when the left one decides. -/

namespace Transclude.Expr

/-- Why an expression or a loop has no value. -/
inductive EvalError
  | notDefined (name : String)
  | noProperties (object property : String)
  | notSearchable (key container : String)
  | notIterable (value : String)
  | notEnumerable (kind : String)
  | tooManyIterations
  | foreignUpdate (variableName : String)
  | unterminatedPlaceholder
deriving DecidableEq, Repr

/-- The largest number of iterations of one loop. -/
def maxIterations : Nat := 10000

/-- The wording of an error. -/
def EvalError.message : EvalError → String
  | .notDefined name => name ++ " is not defined"
  | .noProperties object property =>
    "Cannot read properties of " ++ object ++ " (reading '" ++ property ++ "')"
  | .notSearchable key container =>
    "Cannot use 'in' operator to search for '" ++ key ++ "' in " ++ container
  | .notIterable value => value ++ " is not iterable"
  | .notEnumerable kind => "Cannot enumerate keys of " ++ kind
  | .tooManyIterations => "Loop exceeded " ++ toString maxIterations ++ " iterations"
  | .foreignUpdate name => "Loop update must modify the loop variable '" ++ name ++ "'"
  | .unterminatedPlaceholder => "Unterminated $\x7b placeholder in loop body"

/-- The result of an evaluation. -/
abbrev Evaluation (α : Type) := Except (Halt EvalError) α

/-- Whether an order between two numbers or texts satisfies a comparison. -/
def satisfies (op : BinaryOp) (order : Ordering) : Bool :=
  match op with
  | .less => order == .lt
  | .atMost => order != .gt
  | .greater => order == .gt
  | .atLeast => order != .lt
  | _ => false

/-- A comparison: texts by code points, all else as numbers. What is not a number compares as
false. -/
def compareValues (op : BinaryOp) (a b : Located) : Bool :=
  match a, b with
  | .str s, .str t => satisfies op (compare s t)
  | a, b =>
    match a.toNumber.compare? b.toNumber with
    | some order => satisfies op order
    | none => false

/-- Whether a number is a position in a list of the given length. An integer beyond the range of
floating point cannot be tested. -/
def isPosition (n : Number) (length : Nat) : Except Fault Bool := do
  let x ← n.toFloat
  if x.isNaN then return false
  return n.compare? (.int 0) != some .lt && n.compare? (.int length) == some .lt

/-- Whether a mapping has a key, or a list a position. -/
def contains (key container : Located) : Evaluation Bool :=
  match container with
  | .map _ entries => do return Entries.hasKey entries (.str (← key.toText))
  | .list _ items => isPosition key.toNumber items.length
  | .tuple items => isPosition key.toNumber items.length
  | container => do
    .error (.error (.notSearchable (← key.toText) (← container.toShownText)))

/-- A sum: of texts when one operand is a text, of numbers otherwise. -/
def sum (a b : Located) : Except Fault Located :=
  match a, b with
  | .str _, _ | _, .str _ => do return .str ((← a.toShownText) ++ (← b.toShownText))
  | a, b => do return .number (← a.toNumber.add b.toNumber)

/-- The value of an operator whose operands are both evaluated. -/
def applyBinary (op : BinaryOp) (a b : Located) : Evaluation Located :=
  match op with
  | .or => .ok (if a.isTruthy then a else b)
  | .and => .ok (if a.isTruthy then b else a)
  | .strictEqual => .ok (.bool (a.strictEquals b))
  | .strictUnequal => .ok (.bool (!a.strictEquals b))
  | .equal => do return .bool (← a.looseEquals b)
  | .unequal => do return .bool (!(← a.looseEquals b))
  | .less | .atMost | .greater | .atLeast => .ok (.bool (compareValues op a b))
  | .isIn => do return .bool (← contains a b)
  | .add => do return (← sum a b)
  | .sub => do return .number (← a.toNumber.sub b.toNumber)
  | .mul => do return .number (← a.toNumber.mul b.toNumber)
  | .div => do return .number (← a.toNumber.div b.toNumber)
  | .rem => do return .number (← a.toNumber.rem b.toNumber)

/-- The value of a prefix operator. -/
def applyUnary (op : UnaryOp) (value : Located) : Located :=
  match op with
  | .not => .bool !value.isTruthy
  | .minus => .number value.toNumber.neg
  | .plus => .number value.toNumber
  | .typeOf => .str value.kindName

/-- The property of a value that has properties to read. -/
def readProperty (object key : Located) : Evaluation Located := do
  if object.isNullish then
    .error (.error (.noProperties (← object.toShownText) (← key.toText)))
  else return (← object.getProperty key)

/-- The value of a name. -/
def readName (scope : Scope) (name : String) : Evaluation Located :=
  match scope.get? name with
  | some value => .ok value
  | none => .error (.error (.notDefined name))

/-- Whether `typeof` meets a name that is not in scope. -/
def isUnknownName (scope : Scope) : Expr → Bool
  | .identifier name => (scope.get? name).isNone
  | _ => false

mutual

/-- The value of an expression. `path` is the place of the expression, from which the lists that it
makes have their origin. -/
def eval (scope : Scope) (path : List Nat) : Expr → Evaluation Located
  | .literal value => .ok (.scalar value)
  | .array items => do return .list (.literal path) (← evalItems scope path 0 items)
  | .identifier name => readName scope name
  | .member object name => do
    readProperty (← eval scope (0 :: path) object) (.str name)
  | .index object key => do
    let object ← eval scope (0 :: path) object
    let key ← eval scope (1 :: path) key
    readProperty object key
  | .unary op operand =>
    if op = .typeOf && isUnknownName scope operand then .ok (.str "undefined")
    else do return applyUnary op (← eval scope (0 :: path) operand)
  | .binary op left right => do
    let a ← eval scope (0 :: path) left
    if op = .or && a.isTruthy || op = .and && !a.isTruthy then return a
    let b ← eval scope (1 :: path) right
    applyBinary op a b
  | .conditional test consequent alternate => do
    let condition ← eval scope (0 :: path) test
    if condition.isTruthy then eval scope (1 :: path) consequent
    else eval scope (2 :: path) alternate
  | .group inner => eval scope (0 :: path) inner

/-- The values of the items of a list, counted from a position. -/
def evalItems (scope : Scope) (path : List Nat) (position : Nat) :
    List Expr → Evaluation (List Located)
  | [] => .ok []
  | item :: rest => do
    let value ← eval scope (position :: path) item
    let values ← evalItems scope path (position + 1) rest
    return value :: values

end

end Transclude.Expr
