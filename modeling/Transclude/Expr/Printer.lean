import Transclude.Expr.Basic
import Transclude.Value.Shown

/-! # Writing expressions and loop headers

Printing adds no brackets of its own: a tree is written with the groups that it
holds. Texts are quoted, operators between operands stand between spaces, and
`typeof` is followed by one. -/

namespace Transclude

/-- A literal as written in an expression. -/
def Scalar.literalText : Scalar → String
  | .null => "null"
  | .bool b => if b then "true" else "false"
  | s => s.shown

namespace Expr

mutual

/-- An expression as text. -/
def toText : Expr → String
  | .literal value => value.literalText
  | .array items => "[" ++ commaSeparated (itemTexts items) ++ "]"
  | .identifier name => name
  | .member object name => toText object ++ "." ++ name
  | .index object key => toText object ++ "[" ++ toText key ++ "]"
  | .unary op operand =>
    op.spelling ++ (if op = .typeOf then " " else "") ++ toText operand
  | .binary op left right => toText left ++ " " ++ op.spelling ++ " " ++ toText right
  | .conditional test consequent alternate =>
    toText test ++ " ? " ++ toText consequent ++ " : " ++ toText alternate
  | .group inner => "(" ++ toText inner ++ ")"

/-- The texts of the items of a list. -/
def itemTexts : List Expr → List String
  | [] => []
  | item :: rest => toText item :: itemTexts rest

end

end Expr

/-- The step of a counted loop as text. -/
def LoopUpdate.toText (update : LoopUpdate) : String :=
  match update.change.operand? with
  | none => update.variableName ++ update.change.spelling
  | some e => update.variableName ++ " " ++ update.change.spelling ++ " " ++ e.toText

/-- An optional part of a loop header, set off by a space. -/
def optionalPart (part : Option String) : String :=
  match part with
  | none => ""
  | some text => " " ++ text

/-- A loop header as text, in round brackets. -/
def LoopHeader.toText : LoopHeader → String
  | .counted name init test update =>
    "(" ++ name ++ " = " ++ init.toText ++ ";" ++ optionalPart (test.map Expr.toText) ++ ";" ++
      optionalPart (update.map LoopUpdate.toText) ++ ")"
  | .forEach name mode collection =>
    "(" ++ name ++ " " ++ mode.spelling ++ " " ++ collection.toText ++ ")"

end Transclude
