import Transclude.Fault
import Transclude.Value.Basic

/-! # Text filters

A filter turns a text into another one; options may be given with the text. The
filters of the library are known by their names. -/

namespace Transclude

/-- A text filter. -/
abbrev TextFilter := List Char → Option Data → Except Fault (List Char)

namespace TextFilter

/-- A filter that looks at no options. -/
def plainly (f : List Char → List Char) : TextFilter := fun text _ => .ok (f text)

/-- A small ASCII letter as a capital. -/
def capital (c : Char) : Char := if 'a' ≤ c && c ≤ 'z' then Char.ofNat (c.toNat - 32) else c

/-- Spaces, tabs and line ends. -/
def isMargin (c : Char) : Bool := c == ' ' || c == '\t' || c == '\r' || c == '\n'

/-- The text without margins. -/
def withoutMargins (text : List Char) : List Char :=
  ((text.dropWhile isMargin).reverse.dropWhile isMargin).reverse

/-- The tag that options ask for. -/
def tagOf (options : Option Data) : List Char :=
  match options.bind fun entries => Entries.get? entries (.str "tag") with
  | none => ['p']
  | some (.str tag) => tag.toList
  | some _ => ['?']

/-- The text between the opening and the closing tag that the options name. -/
def wrap : TextFilter := fun text options =>
  let tag := tagOf options
  .ok ('<' :: tag ++ '>' :: text ++ '<' :: '/' :: tag ++ ['>'])

/-- The names of options, joined by commas. -/
def optionNames (entries : Data) : Except Fault (List Char) := do
  let names ← entries.mapM fun entry => match entry.1 with
    | .str name => .ok name
    | _ => .error .wrongType
  return (",".intercalate names).toList

/-- The text followed by the names of its options between bars. -/
def listOptions : TextFilter := fun text options => do
  let names ← match options with
    | none => pure "none".toList
    | some entries => optionNames entries
  return text ++ '|' :: names ++ ['|']

/-- The text behind an equals sign; options are refused. -/
def mark : TextFilter := fun text options =>
  match options with
  | none => .ok ('=' :: text)
  | some _ => .error .wrongType

/-- The filters of the library by name. -/
def library : List (String × TextFilter) := [
  ("upper", plainly (·.map capital)),
  ("trim", plainly withoutMargins),
  ("rev", plainly List.reverse),
  ("dup", plainly fun text => text ++ text),
  ("wrap", wrap),
  ("opts", listOptions),
  ("plain", mark)]

/-- The filter of a name. -/
def ofName? (name : String) : Option TextFilter := library.lookup name

end TextFilter

end Transclude
