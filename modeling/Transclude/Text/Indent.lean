/-! # Indentation

Text of several lines is moved to the column of the directive that it replaces:
every line but the first gets the whitespace that stands before the directive.
Line ends `\r\n`, `\n` and `\r` are kept. -/

namespace Transclude.Text

/-- The text with an indent behind every line end. -/
def indentLines (indent : List Char) : List Char → List Char
  | [] => []
  | '\r' :: '\n' :: rest => '\r' :: '\n' :: indent ++ indentLines indent rest
  | c :: rest =>
    if c == '\n' || c == '\r' then c :: indent ++ indentLines indent rest
    else c :: indentLines indent rest

/-- The text with every line but the first indented by the last characters of `before`, as many as
`length` says. -/
def indent (before : List Char) (length : Int) (text : List Char) : List Char :=
  if length ≤ 0 then text
  else indentLines (before.drop (before.length - length.toNat)) text

end Transclude.Text
