import Transclude.Expr.Token

/-! # The grammar of expressions and loop headers

The rules are data, and what they derive is an inductive relation on sequences of
lexemes. The relation is the least family of languages closed under the rules,
which is how facts about all derivable sequences are proved. -/

namespace Transclude.Expr

/-- The names on the left of the rules. `access` stands for property accesses behind an operand. -/
inductive Nonterminal
  | expression
  | ternary
  | or
  | and
  | equality
  | relational
  | additive
  | multiplicative
  | unary
  | access
  | primary
  | list
  | counted
  | foreach
  | update
  | declaration
deriving DecidableEq, Repr

/-- The right side of a rule. -/
inductive Ebnf
  | terminal (accepts : Lexeme → Prop)
  | nonterminal (name : Nonterminal)
  | sequence (first second : Ebnf)
  | choice (first second : Ebnf)
  | optional (part : Ebnf)
  | repeated (part : Ebnf)

namespace Ebnf

instance : Append Ebnf := ⟨sequence⟩

instance : OrOp Ebnf := ⟨choice⟩

/-- One of some lexemes. -/
def oneOf (lexemes : List Lexeme) : Ebnf := terminal (· ∈ lexemes)

/-- An operator. -/
def operator (op : Operator) : Ebnf := oneOf [.operator op]

/-- A symbol. -/
def symbol (mark : Symbol) : Ebnf := oneOf [.symbol mark]

/-- Any number. -/
def number : Ebnf := terminal fun lexeme => ∃ digits, lexeme = .number digits

/-- Any string. -/
def string : Ebnf := terminal fun lexeme => ∃ content, lexeme = .string content

/-- Any identifier. -/
def identifier : Ebnf := terminal fun lexeme => ∃ name, lexeme = .identifier name

/-- Any keyword. -/
def keyword : Ebnf := terminal fun lexeme => ∃ word, lexeme = .keyword word

/-- Operands separated by operators. -/
def chain (operand : Nonterminal) (operators : List Lexeme) : Ebnf :=
  .nonterminal operand ++ .repeated (oneOf operators ++ .nonterminal operand)

end Ebnf

open Ebnf

/-- The operators between the operands of a level of precedence. -/
def operatorsOf : Nonterminal → List Lexeme
  | .or => [.operator .or]
  | .and => [.operator .and]
  | .equality =>
    [.operator .equal, .operator .unequal, .operator .strictEqual, .operator .strictUnequal]
  | .relational =>
    [.operator .less, .operator .atMost, .operator .greater, .operator .atLeast, .keyword .inWord]
  | .additive => [.operator .plus, .operator .minus]
  | .multiplicative => [.operator .times, .operator .divide, .operator .modulo]
  | _ => []

/-- The rules. A name behind a point may also be a keyword. -/
def rule : Nonterminal → Ebnf
  | .expression => .nonterminal .ternary
  | .ternary =>
    .nonterminal .or ++
      .optional (operator .question ++ .nonterminal .expression ++ operator .colon ++
        .nonterminal .expression)
  | .or => chain .and (operatorsOf .or)
  | .and => chain .equality (operatorsOf .and)
  | .equality => chain .relational (operatorsOf .equality)
  | .relational => chain .additive (operatorsOf .relational)
  | .additive => chain .multiplicative (operatorsOf .additive)
  | .multiplicative => chain .unary (operatorsOf .multiplicative)
  | .unary =>
    oneOf [.operator .not, .operator .minus, .operator .plus, .keyword .typeofWord] ++
        .nonterminal .unary |||
      .nonterminal .access
  | .access =>
    .nonterminal .primary ++
      .repeated (symbol .dot ++ (identifier ||| keyword) |||
        symbol .openBracket ++ .nonterminal .expression ++ symbol .closeBracket)
  | .primary =>
    number ||| string |||
      oneOf [.keyword .trueWord, .keyword .falseWord, .keyword .nullWord,
        .keyword .undefinedWord] |||
      identifier |||
      symbol .openParen ++ .nonterminal .expression ++ symbol .closeParen |||
      symbol .openBracket ++ .optional (.nonterminal .list) ++ symbol .closeBracket
  | .list => .nonterminal .expression ++ .repeated (symbol .comma ++ .nonterminal .expression)
  | .counted =>
    .optional (.nonterminal .declaration) ++ identifier ++ operator .assign ++
      .nonterminal .expression ++ symbol .semicolon ++ .optional (.nonterminal .expression) ++
      symbol .semicolon ++ .optional (.nonterminal .update)
  | .foreach =>
    .optional (.nonterminal .declaration) ++ identifier ++
      oneOf [.keyword .ofWord, .keyword .inWord] ++ .nonterminal .expression
  | .update =>
    identifier ++ (oneOf [.operator .increment, .operator .decrement] |||
        oneOf [.operator .addAssign, .operator .subAssign, .operator .assign] ++
          .nonterminal .expression) |||
      oneOf [.operator .increment, .operator .decrement] ++ identifier
  | .declaration => oneOf [.keyword .varWord, .keyword .letWord, .keyword .constWord]

/-- The sequences of lexemes that a right side derives. -/
inductive Derives : Ebnf → List Lexeme → Prop
  | terminal {accepts : Lexeme → Prop} {lexeme : Lexeme} (h : accepts lexeme) :
    Derives (.terminal accepts) [lexeme]
  | nonterminal {name : Nonterminal} {word : List Lexeme} (h : Derives (rule name) word) :
    Derives (.nonterminal name) word
  | sequence {first second : Ebnf} {front back : List Lexeme} (hfirst : Derives first front)
    (hsecond : Derives second back) : Derives (.sequence first second) (front ++ back)
  | left {first second : Ebnf} {word : List Lexeme} (h : Derives first word) :
    Derives (.choice first second) word
  | right {first second : Ebnf} {word : List Lexeme} (h : Derives second word) :
    Derives (.choice first second) word
  | absent {part : Ebnf} : Derives (.optional part) []
  | present {part : Ebnf} {word : List Lexeme} (h : Derives part word) :
    Derives (.optional part) word
  | none {part : Ebnf} : Derives (.repeated part) []
  | more {part : Ebnf} {front back : List Lexeme} (hfirst : Derives part front)
    (hrest : Derives (.repeated part) back) : Derives (.repeated part) (front ++ back)

/-- A set of sequences of lexemes. -/
abbrev Language := List Lexeme → Prop

/-- The sequences of a right side when each nonterminal stands for a given language. -/
def Ebnf.language (meaning : Nonterminal → Language) : Ebnf → Language
  | .terminal accepts => fun word => ∃ lexeme, accepts lexeme ∧ word = [lexeme]
  | .nonterminal name => meaning name
  | .sequence first second => fun word =>
    ∃ front back, first.language meaning front ∧ second.language meaning back ∧
      word = front ++ back
  | .choice first second => fun word => first.language meaning word ∨ second.language meaning word
  | .optional part => fun word => word = [] ∨ part.language meaning word
  | .repeated part => fun word =>
    ∃ words : List (List Lexeme), (∀ each ∈ words, part.language meaning each) ∧
      word = words.flatten

/-- Languages closed under the rules contain all that the rules derive. -/
theorem Derives.mem_language {meaning : Nonterminal → Language}
    (hclosed : ∀ name word, (rule name).language meaning word → meaning name word)
    {form : Ebnf} {word : List Lexeme} (h : Derives form word) : form.language meaning word := by
  induction h with
  | terminal h => exact ⟨_, h, rfl⟩
  | nonterminal _ ih => exact hclosed _ _ ih
  | sequence _ _ ihfirst ihsecond => exact ⟨_, _, ihfirst, ihsecond, rfl⟩
  | left _ ih => exact Or.inl ih
  | right _ ih => exact Or.inr ih
  | absent => exact Or.inl rfl
  | present _ ih => exact Or.inr ih
  | none => exact ⟨[], by simp, rfl⟩
  | more _ _ ihfirst ihrest =>
      obtain ⟨words, hwords, rfl⟩ := ihrest
      refine ⟨_ :: words, ?_, rfl⟩
      simpa using ⟨ihfirst, hwords⟩

namespace Derives

/-- A lexeme among some is derived from their choice. -/
theorem oneOf {lexemes : List Lexeme} {lexeme : Lexeme} (h : lexeme ∈ lexemes) :
    Derives (Ebnf.oneOf lexemes) [lexeme] :=
  .terminal h

theorem operator (op : Operator) : Derives (Ebnf.operator op) [.operator op] :=
  .oneOf (List.mem_singleton.mpr rfl)

theorem symbol (mark : Symbol) : Derives (Ebnf.symbol mark) [.symbol mark] :=
  .oneOf (List.mem_singleton.mpr rfl)

theorem identifier (name : String) : Derives Ebnf.identifier [.identifier name] :=
  .terminal ⟨name, rfl⟩

/-- Sequencing in the form in which the rules are written. -/
theorem append {first second : Ebnf} {front back : List Lexeme} (hfirst : Derives first front)
    (hsecond : Derives second back) : Derives (first ++ second) (front ++ back) :=
  .sequence hfirst hsecond

/-- A repeated part may be followed by itself once more. -/
theorem snoc {part : Ebnf} {front back : List Lexeme} (hfront : Derives (.repeated part) front)
    (hback : Derives part back) : Derives (.repeated part) (front ++ back) := by
  generalize hform : Ebnf.repeated part = form at hfront
  induction hfront with
  | none =>
      cases hform
      simpa using Derives.more hback .none
  | more hfirst _ _ ihrest =>
      cases hform
      rw [List.append_assoc]
      exact .more hfirst (ihrest rfl)
  | _ => cases hform

/-- An operator and an operand behind a chain make a longer chain. -/
theorem chain_snoc {operand : Nonterminal} {operators : List Lexeme} {op : Lexeme}
    {front back : List Lexeme} (hfront : Derives (Ebnf.chain operand operators) front)
    (hop : op ∈ operators) (hback : Derives (.nonterminal operand) back) :
    Derives (Ebnf.chain operand operators) (front ++ op :: back) := by
  cases hfront with
  | @sequence _ _ head tail hhead htail =>
      rw [List.append_assoc]
      exact .sequence hhead (htail.snoc (.append (.oneOf hop) hback))

/-- An operand alone is a chain. -/
theorem chain_single {operand : Nonterminal} {operators : List Lexeme} {word : List Lexeme}
    (h : Derives (.nonterminal operand) word) : Derives (Ebnf.chain operand operators) word := by
  rw [← List.append_nil word]
  exact .append h .none

end Derives

end Transclude.Expr
