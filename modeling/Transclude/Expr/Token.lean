/-! # Tokens of expressions

The words, operators and symbols that conditions and loop headers are made of,
each with its spelling. -/

namespace Transclude.Expr

/-- The words with a meaning of their own. -/
inductive Keyword
  | trueWord
  | falseWord
  | nullWord
  | undefinedWord
  | typeofWord
  | inWord
  | ofWord
  | varWord
  | letWord
  | constWord
deriving DecidableEq, Repr

/-- The spelling of a keyword. -/
def Keyword.spelling : Keyword → String
  | .trueWord => "true"
  | .falseWord => "false"
  | .nullWord => "null"
  | .undefinedWord => "undefined"
  | .typeofWord => "typeof"
  | .inWord => "in"
  | .ofWord => "of"
  | .varWord => "var"
  | .letWord => "let"
  | .constWord => "const"

/-- All keywords. -/
def Keyword.all : List Keyword :=
  [.trueWord, .falseWord, .nullWord, .undefinedWord, .typeofWord, .inWord, .ofWord, .varWord,
    .letWord, .constWord]

/-- The operators of expressions and of loop headers. -/
inductive Operator
  | strictEqual
  | strictUnequal
  | equal
  | unequal
  | atMost
  | atLeast
  | and
  | or
  | increment
  | decrement
  | addAssign
  | subAssign
  | less
  | greater
  | not
  | plus
  | minus
  | times
  | divide
  | modulo
  | assign
  | question
  | colon
deriving DecidableEq, Repr

/-- The spelling of an operator. -/
def Operator.spelling : Operator → String
  | .strictEqual => "==="
  | .strictUnequal => "!=="
  | .equal => "=="
  | .unequal => "!="
  | .atMost => "<="
  | .atLeast => ">="
  | .and => "&&"
  | .or => "||"
  | .increment => "++"
  | .decrement => "--"
  | .addAssign => "+="
  | .subAssign => "-="
  | .less => "<"
  | .greater => ">"
  | .not => "!"
  | .plus => "+"
  | .minus => "-"
  | .times => "*"
  | .divide => "/"
  | .modulo => "%"
  | .assign => "="
  | .question => "?"
  | .colon => ":"

/-- All operators, each before the shorter ones that it begins with. -/
def Operator.all : List Operator :=
  [.strictEqual, .strictUnequal, .equal, .unequal, .atMost, .atLeast, .and, .or, .increment,
    .decrement, .addAssign, .subAssign, .less, .greater, .not, .plus, .minus, .times, .divide,
    .modulo, .assign, .question, .colon]

/-- Brackets and separators. -/
inductive Symbol
  | openParen
  | closeParen
  | openBracket
  | closeBracket
  | dot
  | comma
  | semicolon
deriving DecidableEq, Repr

/-- The character of a symbol. -/
def Symbol.char : Symbol → Char
  | .openParen => '('
  | .closeParen => ')'
  | .openBracket => '['
  | .closeBracket => ']'
  | .dot => '.'
  | .comma => ','
  | .semicolon => ';'

/-- All symbols. -/
def Symbol.all : List Symbol :=
  [.openParen, .closeParen, .openBracket, .closeBracket, .dot, .comma, .semicolon]

/-- What a token stands for. A number keeps its digits as written, a string is held decoded. -/
inductive Lexeme
  | number (digits : List Char)
  | string (content : String)
  | keyword (word : Keyword)
  | identifier (name : String)
  | operator (op : Operator)
  | symbol (mark : Symbol)
deriving DecidableEq, Repr

/-- The name of the class of a lexeme. -/
def Lexeme.className : Lexeme → String
  | .number _ => "NUMBER"
  | .string _ => "STRING"
  | .keyword _ => "KEYWORD"
  | .identifier _ => "IDENTIFIER"
  | .operator _ => "OPERATOR"
  | .symbol _ => "SYMBOL"

/-- The text by which messages name a lexeme. -/
def Lexeme.text : Lexeme → String
  | .number digits => String.ofList digits
  | .string content => content
  | .keyword word => word.spelling
  | .identifier name => name
  | .operator op => op.spelling
  | .symbol mark => String.singleton mark.char

/-- A lexeme and the position of its first character. -/
structure Token where
  lexeme : Lexeme
  position : Nat
deriving DecidableEq, Repr

/-- The tokens of a text and the position where it ends. -/
structure Tokens where
  items : List Token
  stop : Nat
deriving DecidableEq, Repr

end Transclude.Expr
