import Transclude.Expr.Parser

/-! # Trees and the tokens that they are made of

A tree is flattened from left to right into terminals, in which a number is held
by its value and not by its digits. A tree is stratified when each operand binds
as tightly as its place demands, so that operators between operands group to the
left and a condition only reaches what stands right of it. -/

namespace Transclude

namespace Expr

/-- What a lexeme stands for, apart from the spelling of a number. -/
inductive Terminal
  | number (value : Number)
  | string (content : String)
  | keyword (word : Keyword)
  | identifier (name : String)
  | operator (op : Operator)
  | symbol (mark : Symbol)
deriving DecidableEq, Repr

/-- The terminal that a lexeme is. -/
@[simp]
def Lexeme.terminal : Lexeme → Terminal
  | .number digits => .number (numberOf digits)
  | .string content => .string content
  | .keyword word => .keyword word
  | .identifier name => .identifier name
  | .operator op => .operator op
  | .symbol mark => .symbol mark

/-- The terminals of tokens. -/
def terminals (tokens : List Token) : List Terminal :=
  tokens.map fun token => token.lexeme.terminal

@[simp] theorem terminals_nil : terminals [] = [] := rfl

@[simp] theorem terminals_cons (token : Token) (tokens : List Token) :
    terminals (token :: tokens) = token.lexeme.terminal :: terminals tokens := rfl

@[simp] theorem terminals_append (front back : List Token) :
    terminals (front ++ back) = terminals front ++ terminals back :=
  List.map_append

/-- The keyword that a word is. -/
def Keyword.ofWord? (name : String) : Option Keyword :=
  Keyword.all.find? fun keyword => keyword.spelling == name

@[simp] theorem Keyword.ofWord?_spelling (word : Keyword) :
    Keyword.ofWord? word.spelling = some word := by
  cases word <;> rfl

theorem Keyword.spelling_of_ofWord? {name : String} {word : Keyword}
    (h : Keyword.ofWord? name = some word) : word.spelling = name := by
  simpa using List.find?_some h

/-- The terminal of a property name, which may be a keyword. -/
def nameTerminal (name : String) : Terminal :=
  match Keyword.ofWord? name with
  | some word => .keyword word
  | none => .identifier name

/-- Words that are keywords are never identifiers. -/
def Lexeme.Proper : Lexeme → Prop
  | .identifier name => Keyword.ofWord? name = none
  | _ => True

/-- The terminal of a literal; absent for values that no literal has. -/
def literalTerminal? : Scalar → Option Terminal
  | .null => some (.keyword .nullWord)
  | .undefined => some (.keyword .undefinedWord)
  | .bool true => some (.keyword .trueWord)
  | .bool false => some (.keyword .falseWord)
  | .number n => some (.number n)
  | .str s => some (.string s)
  | _ => none

end Expr

open Transclude.Expr

/-- The terminal of a prefix operator. -/
def UnaryOp.terminal : UnaryOp → Terminal
  | .not => .operator .not
  | .minus => .operator .minus
  | .plus => .operator .plus
  | .typeOf => .keyword .typeofWord

/-- The terminal of an operator between operands. -/
def BinaryOp.terminal : BinaryOp → Terminal
  | .or => .operator .or
  | .and => .operator .and
  | .equal => .operator .equal
  | .unequal => .operator .unequal
  | .strictEqual => .operator .strictEqual
  | .strictUnequal => .operator .strictUnequal
  | .less => .operator .less
  | .atMost => .operator .atMost
  | .greater => .operator .greater
  | .atLeast => .operator .atLeast
  | .isIn => .keyword .inWord
  | .add => .operator .plus
  | .sub => .operator .minus
  | .mul => .operator .times
  | .div => .operator .divide
  | .rem => .operator .modulo

theorem BinaryOp.level_pos (op : BinaryOp) : 1 ≤ op.level := by
  cases op <;> decide

theorem BinaryOp.level_le (op : BinaryOp) : op.level ≤ 6 := by
  cases op <;> decide

namespace Expr

/-- How loosely an expression holds together: 0 for operands with their property accesses, 1 for
prefix operators, one more than their level for operators between operands, 8 for conditionals. -/
def rank : Expr → Nat
  | .unary _ _ => 1
  | .binary op _ _ => op.level + 1
  | .conditional _ _ _ => 8
  | _ => 0

theorem rank_le (e : Expr) : rank e ≤ 8 := by
  cases e with
  | binary op left right => exact Nat.le_succ_of_le (Nat.succ_le_succ op.level_le)
  | _ => simp [rank]

mutual

/-- The terminals of an expression, from left to right. -/
def flatten : Expr → List Terminal
  | .literal value => (literalTerminal? value).toList
  | .array items => .symbol .openBracket :: flattenItems items ++ [.symbol .closeBracket]
  | .identifier name => [.identifier name]
  | .member object name => flatten object ++ [.symbol .dot, nameTerminal name]
  | .index object key =>
    flatten object ++ .symbol .openBracket :: flatten key ++ [.symbol .closeBracket]
  | .unary op operand => op.terminal :: flatten operand
  | .binary op left right => flatten left ++ op.terminal :: flatten right
  | .conditional test consequent alternate =>
    flatten test ++ .operator .question :: flatten consequent ++
      .operator .colon :: flatten alternate
  | .group inner => .symbol .openParen :: flatten inner ++ [.symbol .closeParen]

/-- The terminals of the items of a list, with commas between them. -/
def flattenItems : List Expr → List Terminal
  | [] => []
  | [item] => flatten item
  | item :: rest => flatten item ++ .symbol .comma :: flattenItems rest

end

theorem flattenItems_cons (item : Expr) {rest : List Expr} (h : rest ≠ []) :
    flattenItems (item :: rest) = flatten item ++ .symbol .comma :: flattenItems rest := by
  cases rest with
  | nil => exact absurd rfl h
  | cons next rest => rfl

mutual

/-- Whether every literal has a spelling and every operand is tight enough for its place. -/
def Stratified : Expr → Prop
  | .literal value => ∃ lexeme, literal? lexeme = some value
  | .array items => StratifiedItems items
  | .identifier _ => True
  | .member object _ => rank object = 0 ∧ Stratified object
  | .index object key => rank object = 0 ∧ Stratified object ∧ Stratified key
  | .unary _ operand => rank operand ≤ 1 ∧ Stratified operand
  | .binary op left right =>
    rank left ≤ op.level + 1 ∧ rank right ≤ op.level ∧ Stratified left ∧ Stratified right
  | .conditional test consequent alternate =>
    rank test ≤ 7 ∧ Stratified test ∧ Stratified consequent ∧ Stratified alternate
  | .group inner => Stratified inner

/-- Whether all items of a list are stratified. -/
def StratifiedItems : List Expr → Prop
  | [] => True
  | item :: rest => Stratified item ∧ StratifiedItems rest

end

theorem stratifiedItems_iff {items : List Expr} :
    StratifiedItems items ↔ ∀ item ∈ items, item.Stratified := by
  induction items with
  | nil => simp [StratifiedItems]
  | cons item rest ih => simp [StratifiedItems, ih]

/-- Induction on expressions, with the hypothesis for each item of a list. -/
@[elab_as_elim]
theorem induction {motive : Expr → Prop} (literal : ∀ value, motive (.literal value))
    (array : ∀ items, (∀ item ∈ items, motive item) → motive (.array items))
    (identifier : ∀ name, motive (.identifier name))
    (member : ∀ object name, motive object → motive (.member object name))
    (index : ∀ object key, motive object → motive key → motive (.index object key))
    (unary : ∀ op operand, motive operand → motive (.unary op operand))
    (binary : ∀ op left right, motive left → motive right → motive (.binary op left right))
    (conditional : ∀ test consequent alternate, motive test → motive consequent →
      motive alternate → motive (.conditional test consequent alternate))
    (group : ∀ inner, motive inner → motive (.group inner)) (e : Expr) : motive e :=
  @Expr.rec motive (fun items => ∀ item ∈ items, motive item)
    literal array identifier member index unary binary conditional group
    (by simp) (fun _ _ hhead htail => by simpa using ⟨hhead, htail⟩) e

end Expr

namespace LoopUpdate

/-- Whether the expression of a step, if it has one, is stratified. -/
def Stratified (update : LoopUpdate) : Prop := ∀ e ∈ update.change.operand?, e.Stratified

/-- The ways in which a step flattens: a counting sign may stand before or behind the name. -/
def flattenings (update : LoopUpdate) : List (List Terminal) :=
  let name := Terminal.identifier update.variableName
  match update.change with
  | .increment => [[name, .operator .increment], [.operator .increment, name]]
  | .decrement => [[name, .operator .decrement], [.operator .decrement, name]]
  | .addAssign amount => [name :: .operator .addAssign :: amount.flatten]
  | .subAssign amount => [name :: .operator .subAssign :: amount.flatten]
  | .assign value => [name :: .operator .assign :: value.flatten]

end LoopUpdate

/-- The word of an enumeration as a terminal. -/
def Enumeration.terminal : Enumeration → Terminal
  | .values => .keyword .ofWord
  | .keys => .keyword .inWord

namespace LoopHeader

/-- Whether the expressions of a header are stratified. -/
def Stratified : LoopHeader → Prop
  | .counted _ init test update =>
    init.Stratified ∧ (∀ e ∈ test, e.Stratified) ∧ ∀ u ∈ update, u.Stratified
  | .forEach _ _ collection => collection.Stratified

/-- The ways in which a header flattens, apart from a word of declaration. -/
def flattenings : LoopHeader → List (List Terminal)
  | .counted name init test update =>
    let front := .identifier name :: .operator .assign :: init.flatten ++
      .symbol .semicolon :: (test.elim [] Expr.flatten) ++ [.symbol .semicolon]
    (update.elim [[]] LoopUpdate.flattenings).map (front ++ ·)
  | .forEach name mode collection => [.identifier name :: mode.terminal :: collection.flatten]

/-- The words of declaration that may stand before a header. -/
def declarations : List (List Terminal) :=
  [[], [.keyword .varWord], [.keyword .letWord], [.keyword .constWord]]

/-- Whether a header flattens to some terminals. -/
def FlattensTo (header : LoopHeader) (word : List Terminal) : Prop :=
  ∃ declaration ∈ declarations, ∃ body ∈ header.flattenings, word = declaration ++ body

end LoopHeader

end Transclude
