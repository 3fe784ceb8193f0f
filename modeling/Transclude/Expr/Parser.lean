import Transclude.Expr.Basic
import Transclude.Expr.Lexer
import Transclude.Number.Decimal

/-! # Reading expressions and loop headers

Expressions are read by descent through the levels of precedence: conditional,
`||`, `&&`, equality, order and `in`, sums, products, prefix operators, property
access, and at the bottom literals, names, groups and lists. Operators between
two operands group to the left. A reader takes the remaining tokens and returns
what follows the part it has read; its first argument bounds the depth and is
chosen from the number of tokens. -/

namespace Transclude.Expr

/-- Why tokens are no expression or loop header. -/
inductive SyntaxProblem
  | emptyExpression
  | emptyHeader
  | unexpectedEnd
  | unexpectedToken (text : String)
  | expectedColon
  | expectedPropertyName
  | expectedIndexEnd
  | expectedGroupEnd
  | expectedListEnd
  | expectedVariable
  | expectedHeaderForm
  | expectedInitEnd
  | expectedTestEnd
  | expectedUpdate
  | expectedUpdateVariable (op : String)
  | expectedUpdateForm
deriving DecidableEq, Repr

/-- The wording of a syntax problem. -/
def SyntaxProblem.text : SyntaxProblem → String
  | .emptyExpression => "Empty expression"
  | .emptyHeader => "Empty loop header"
  | .unexpectedEnd => "Unexpected end of expression"
  | .unexpectedToken text => "Unexpected token '" ++ text ++ "'"
  | .expectedColon => "Expected ':' in conditional expression"
  | .expectedPropertyName => "Expected property name after '.'"
  | .expectedIndexEnd => "Expected ']' after index expression"
  | .expectedGroupEnd => "Expected ')' after grouped expression"
  | .expectedListEnd => "Expected ']' after array items"
  | .expectedVariable => "Expected loop variable"
  | .expectedHeaderForm => "Expected '=', 'of' or 'in' after loop variable"
  | .expectedInitEnd => "Expected ';' after loop initializer"
  | .expectedTestEnd => "Expected ';' after loop condition"
  | .expectedUpdate => "Expected loop update"
  | .expectedUpdateVariable op => "Expected variable after '" ++ op ++ "'"
  | .expectedUpdateForm => "Expected '++', '--', '+=', '-=' or '=' in loop update"

/-- A syntax problem and the position of the token at which it is found. -/
structure SyntaxError where
  problem : SyntaxProblem
  position : Nat
deriving DecidableEq, Repr

/-- The wording of a syntax error. -/
def SyntaxError.message (error : SyntaxError) : String :=
  "Parse error at position " ++ toString error.position ++ ": " ++ error.problem.text

/-- A reader's failure: the problem and the tokens that begin with the one at which it is found. -/
abbrev ReadFailure := SyntaxProblem × List Token

/-- The operator between operands that a lexeme is. -/
def binaryOp? : Lexeme → Option BinaryOp
  | .operator .or => some .or
  | .operator .and => some .and
  | .operator .equal => some .equal
  | .operator .unequal => some .unequal
  | .operator .strictEqual => some .strictEqual
  | .operator .strictUnequal => some .strictUnequal
  | .operator .less => some .less
  | .operator .atMost => some .atMost
  | .operator .greater => some .greater
  | .operator .atLeast => some .atLeast
  | .keyword .inWord => some .isIn
  | .operator .plus => some .add
  | .operator .minus => some .sub
  | .operator .times => some .mul
  | .operator .divide => some .div
  | .operator .modulo => some .rem
  | _ => none

/-- The prefix operator that a lexeme is. -/
def unaryOp? : Lexeme → Option UnaryOp
  | .operator .not => some .not
  | .operator .minus => some .minus
  | .operator .plus => some .plus
  | .keyword .typeofWord => some .typeOf
  | _ => none

/-- The number that digits write: an integer unless they have a point or an exponent. -/
def numberOf (digits : List Char) : Number :=
  if digits.any fun c => c == '.' || c == 'e' || c == 'E' then
    .float ((Decimal.read? digits).getD .nan)
  else .int ((Text.decimalNumber? digits).getD 0)

/-- The scalar that a lexeme writes. -/
def literal? : Lexeme → Option Scalar
  | .number digits => some (.number (numberOf digits))
  | .string content => some (.str content)
  | .keyword .trueWord => some (.bool true)
  | .keyword .falseWord => some (.bool false)
  | .keyword .nullWord => some .null
  | .keyword .undefinedWord => some .undefined
  | _ => none

/-- The property name that a lexeme is; keywords are names here. -/
def propertyName? : Lexeme → Option String
  | .identifier name => some name
  | .keyword word => some word.spelling
  | _ => none

/-- The failure of tokens that begin no operand. -/
def noOperand (tokens : List Token) : ReadFailure :=
  match tokens with
  | [] => (.unexpectedEnd, [])
  | token :: _ => (.unexpectedToken token.lexeme.text, tokens)

/-- The tokens behind an expected symbol. -/
def expectSymbol (symbol : Symbol) (problem : SyntaxProblem) (tokens : List Token) :
    Except ReadFailure (List Token) :=
  match tokens with
  | ⟨.symbol s, _⟩ :: rest => if s = symbol then .ok rest else .error (problem, tokens)
  | _ => .error (problem, tokens)

mutual

/-- An expression. -/
def readExpr : Nat → List Token → Except ReadFailure (Expr × List Token)
  | 0, tokens => .error (noOperand tokens)
  | fuel + 1, tokens => do
    let (test, rest) ← readBinary fuel 6 tokens
    match rest with
    | ⟨.operator .question, _⟩ :: rest =>
      let (consequent, rest) ← readExpr fuel rest
      match rest with
      | ⟨.operator .colon, _⟩ :: rest =>
        let (alternate, rest) ← readExpr fuel rest
        return (.conditional test consequent alternate, rest)
      | rest => .error (.expectedColon, rest)
    | rest => return (test, rest)

/-- Operands joined by the operators up to a level. -/
def readBinary : Nat → Nat → List Token → Except ReadFailure (Expr × List Token)
  | 0, _, tokens => .error (noOperand tokens)
  | fuel + 1, 0, tokens => readUnary fuel tokens
  | fuel + 1, level + 1, tokens => do
    let (left, rest) ← readBinary fuel level tokens
    readBinaryRest fuel level left rest

/-- The operators of the level above the given one, with their right operands. -/
def readBinaryRest : Nat → Nat → Expr → List Token → Except ReadFailure (Expr × List Token)
  | 0, _, left, tokens => .ok (left, tokens)
  | fuel + 1, level, left, tokens =>
    match tokens with
    | token :: rest =>
      match binaryOp? token.lexeme with
      | some op =>
        if op.level = level + 1 then do
          let (right, rest) ← readBinary fuel level rest
          readBinaryRest fuel level (.binary op left right) rest
        else .ok (left, tokens)
      | none => .ok (left, tokens)
    | [] => .ok (left, [])

/-- Prefix operators and their operand. -/
def readUnary : Nat → List Token → Except ReadFailure (Expr × List Token)
  | 0, tokens => .error (noOperand tokens)
  | fuel + 1, tokens =>
    match tokens with
    | token :: rest =>
      match unaryOp? token.lexeme with
      | some op => do
        let (operand, rest) ← readUnary fuel rest
        return (.unary op operand, rest)
      | none => do
        let (object, rest) ← readPrimary fuel tokens
        readAccess fuel object rest
    | [] => .error (noOperand [])

/-- The property accesses behind an operand. -/
def readAccess : Nat → Expr → List Token → Except ReadFailure (Expr × List Token)
  | 0, object, tokens => .ok (object, tokens)
  | fuel + 1, object, tokens =>
    match tokens with
    | ⟨.symbol .dot, _⟩ :: rest =>
      match rest with
      | token :: after =>
        match propertyName? token.lexeme with
        | some name => readAccess fuel (.member object name) after
        | none => .error (.expectedPropertyName, rest)
      | [] => .error (.expectedPropertyName, [])
    | ⟨.symbol .openBracket, _⟩ :: rest => do
      let (key, rest) ← readExpr fuel rest
      let rest ← expectSymbol .closeBracket .expectedIndexEnd rest
      readAccess fuel (.index object key) rest
    | tokens => .ok (object, tokens)

/-- A literal, a name, a group or a list. -/
def readPrimary : Nat → List Token → Except ReadFailure (Expr × List Token)
  | 0, tokens => .error (noOperand tokens)
  | fuel + 1, tokens =>
    match tokens with
    | ⟨.identifier name, _⟩ :: rest => .ok (.identifier name, rest)
    | ⟨.symbol .openParen, _⟩ :: rest => do
      let (inner, rest) ← readExpr fuel rest
      let rest ← expectSymbol .closeParen .expectedGroupEnd rest
      return (.group inner, rest)
    | ⟨.symbol .openBracket, _⟩ :: ⟨.symbol .closeBracket, _⟩ :: rest => .ok (.array [], rest)
    | ⟨.symbol .openBracket, _⟩ :: rest => do
      let (items, rest) ← readItems fuel rest
      let rest ← expectSymbol .closeBracket .expectedListEnd rest
      return (.array items, rest)
    | token :: rest =>
      match literal? token.lexeme with
      | some value => .ok (.literal value, rest)
      | none => .error (noOperand tokens)
    | [] => .error (noOperand [])

/-- The items of a list, separated by commas. -/
def readItems : Nat → List Token → Except ReadFailure (List Expr × List Token)
  | 0, tokens => .error (noOperand tokens)
  | fuel + 1, tokens => do
    let (item, rest) ← readExpr fuel tokens
    match rest with
    | ⟨.symbol .comma, _⟩ :: rest =>
      let (items, rest) ← readItems fuel rest
      return (item :: items, rest)
    | rest => return ([item], rest)

end

/-- A depth that no reader of the tokens exceeds. -/
def depthFor (tokens : List Token) : Nat := 16 * (tokens.length + 1)

/-- An expression at the beginning of the tokens. -/
def readExpression (tokens : List Token) : Except ReadFailure (Expr × List Token) :=
  readExpr (depthFor tokens) tokens

/-- Nothing may follow. -/
def expectEnd (tokens : List Token) : Except ReadFailure Unit :=
  match tokens with
  | [] => .ok ()
  | token :: _ => .error (.unexpectedToken token.lexeme.text, tokens)

/-- A whole expression. -/
def readWhole (tokens : List Token) : Except ReadFailure Expr := do
  let (expr, rest) ← readExpression tokens
  expectEnd rest
  return expr

/-- The variable named by the first token. -/
def expectName (problem : SyntaxProblem) (tokens : List Token) :
    Except ReadFailure (String × List Token) :=
  match tokens with
  | ⟨.identifier name, _⟩ :: rest => .ok (name, rest)
  | _ => .error (problem, tokens)

/-- The step of a counted loop. -/
def readUpdate (tokens : List Token) : Except ReadFailure (LoopUpdate × List Token) := do
  match tokens with
  | ⟨.operator .increment, _⟩ :: rest =>
    let (name, rest) ← expectName (.expectedUpdateVariable "++") rest
    return (⟨name, .increment⟩, rest)
  | ⟨.operator .decrement, _⟩ :: rest =>
    let (name, rest) ← expectName (.expectedUpdateVariable "--") rest
    return (⟨name, .decrement⟩, rest)
  | tokens =>
    let (name, rest) ← expectName .expectedUpdate tokens
    match rest with
    | ⟨.operator .increment, _⟩ :: rest => return (⟨name, .increment⟩, rest)
    | ⟨.operator .decrement, _⟩ :: rest => return (⟨name, .decrement⟩, rest)
    | ⟨.operator .addAssign, _⟩ :: rest =>
      let (amount, rest) ← readExpression rest
      return (⟨name, .addAssign amount⟩, rest)
    | ⟨.operator .subAssign, _⟩ :: rest =>
      let (amount, rest) ← readExpression rest
      return (⟨name, .subAssign amount⟩, rest)
    | ⟨.operator .assign, _⟩ :: rest =>
      let (value, rest) ← readExpression rest
      return (⟨name, .assign value⟩, rest)
    | rest => .error (.expectedUpdateForm, rest)

/-- The tokens behind a word of declaration, if there is one. -/
def skipDeclaration : List Token → List Token
  | ⟨.keyword .varWord, _⟩ :: rest => rest
  | ⟨.keyword .letWord, _⟩ :: rest => rest
  | ⟨.keyword .constWord, _⟩ :: rest => rest
  | tokens => tokens

/-- The test of a counted loop up to its semicolon, which may be missing altogether. -/
def readTest (tokens : List Token) : Except ReadFailure (Option Expr × List Token) := do
  match tokens with
  | ⟨.symbol .semicolon, _⟩ :: rest => return (none, rest)
  | tokens =>
    let (test, rest) ← readExpression tokens
    let rest ← expectSymbol .semicolon .expectedTestEnd rest
    return (some test, rest)

/-- A whole loop header. -/
def readHeader (tokens : List Token) : Except ReadFailure LoopHeader := do
  let (name, rest) ← expectName .expectedVariable (skipDeclaration tokens)
  match rest with
  | ⟨.keyword .ofWord, _⟩ :: rest =>
    let (collection, rest) ← readExpression rest
    expectEnd rest
    return .forEach name .values collection
  | ⟨.keyword .inWord, _⟩ :: rest =>
    let (collection, rest) ← readExpression rest
    expectEnd rest
    return .forEach name .keys collection
  | ⟨.operator .assign, _⟩ :: rest =>
    let (init, rest) ← readExpression rest
    let rest ← expectSymbol .semicolon .expectedInitEnd rest
    let (test, rest) ← readTest rest
    match rest with
    | [] => return .counted name init test none
    | rest =>
      let (update, rest) ← readUpdate rest
      expectEnd rest
      return .counted name init test (some update)
  | rest => .error (.expectedHeaderForm, rest)

/-- Why a text is no expression or loop header. -/
inductive ParseError
  | lexical (error : LexicalError)
  | grammatical (error : SyntaxError)
deriving DecidableEq, Repr

/-- The wording of an error. -/
def ParseError.message : ParseError → String
  | .lexical error => error.message
  | .grammatical error => error.message

/-- A failure at its position in the text. -/
def Tokens.locate (tokens : Tokens) : ReadFailure → ParseError
  | (problem, []) => .grammatical ⟨problem, tokens.stop⟩
  | (problem, token :: _) => .grammatical ⟨problem, token.position⟩

/-- The tokens of a text that is not blank. -/
def tokensOf (empty : SyntaxProblem) (text : List Char) : Except ParseError Tokens :=
  match tokenize text with
  | .error error => .error (.lexical error)
  | .ok tokens => if tokens.items.isEmpty then .error (.grammatical ⟨empty, 0⟩) else .ok tokens

/-- The expression that a text writes. -/
def parse (text : List Char) : Except ParseError Expr := do
  let tokens ← tokensOf .emptyExpression text
  (readWhole tokens.items).mapError tokens.locate

/-- The loop header that a text writes. -/
def parseHeader (text : List Char) : Except ParseError LoopHeader := do
  let tokens ← tokensOf .emptyHeader text
  (readHeader tokens.items).mapError tokens.locate

end Transclude.Expr
