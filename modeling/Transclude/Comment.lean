import Transclude.Directive.Basic

/-! # Commented includes

An HTML comment that holds an include directive is removed before anything else
happens. The include is the last one that begins on the line of the comment's
opening and behind which the comment still ends; the comment ends at the first
`-->` behind the include that stands right after the closing delimiter. -/

namespace Transclude.Comment

/-- The text that opens a comment. -/
def opening : List Char := "<!--".toList

/-- The text that ends a comment, with the closing delimiter of directives before it. -/
def ending (delimiters : Delimiters) : List Char := delimiters.closing ++ "-->".toList

/-- The length of a text up to and with the first occurrence of a pattern. -/
def lengthThrough? (pattern : List Char) : List Char → Option Nat
  | [] => if pattern.isEmpty then some 0 else none
  | c :: rest =>
    if pattern.isPrefixOf (c :: rest) then some pattern.length
    else (lengthThrough? pattern rest).map (· + 1)

/-- The length of the rest of a comment that begins with an include. -/
def includeLength? (delimiters : Delimiters) (text : List Char) : Option Nat :=
  if delimiters.opening.isPrefixOf text then
    let rest := text.drop delimiters.opening.length
    let spaces := (rest.takeWhile (· == ' ')).length
    let name := "include".toList
    if name.isPrefixOf (rest.drop spaces) then
      let head := spaces + name.length
      (lengthThrough? (ending delimiters) (rest.drop head)).map
        (delimiters.opening.length + head + ·)
    else none
  else none

/-- The length of the rest of a comment that holds an include, from behind its opening. -/
def restLength? (delimiters : Delimiters) : List Char → Option Nat
  | [] => includeLength? delimiters []
  | c :: rest =>
    let later := if c == '\n' then none else (restLength? delimiters rest).map (· + 1)
    match later with
    | some length => some length
    | none => includeLength? delimiters (c :: rest)

/-- The length of the commented include that the text begins with. -/
def length? (delimiters : Delimiters) (text : List Char) : Option Nat :=
  if opening.isPrefixOf text then
    (restLength? delimiters (text.drop opening.length)).map (opening.length + ·)
  else none

/-- The text without its commented includes. -/
def strip (delimiters : Delimiters) : List Char → List Char
  | [] => []
  | c :: rest =>
    match length? delimiters (c :: rest) with
    | some length => strip delimiters (rest.drop (length - 1))
    | none => c :: strip delimiters rest
termination_by text => text.length
decreasing_by all_goals simp only [List.length_cons, List.length_drop]; omega

end Transclude.Comment
