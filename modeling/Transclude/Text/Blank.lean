import Transclude.Text.Ranges

/-! # Blank characters

The characters that separate words: the ASCII controls from tab to carriage
return, the four information separators, and the spaces and line separators of
Unicode. Trimming and skipping look at these. -/

namespace Transclude.Text

/-- The blank characters. -/
def blankRanges : Ranges := [
  (0x9, 0xd), (0x1c, 0x20), (0x85, 0x85), (0xa0, 0xa0), (0x1680, 0x1680), (0x2000, 0x200a),
  (0x2028, 0x2029), (0x202f, 0x202f), (0x205f, 0x205f), (0x3000, 0x3000)]

/-- Whether the character separates words. -/
def isBlank (c : Char) : Bool := blankRanges.contains c

/-- The text without its leading blanks. -/
def trimLeft (text : List Char) : List Char := text.dropWhile isBlank

/-- The text without its trailing blanks. -/
def trimRight (text : List Char) : List Char := (text.reverse.dropWhile isBlank).reverse

/-- The text without the blanks at both ends. -/
def trim (text : List Char) : List Char := trimRight (trimLeft text)

/-- The number of blanks that the text begins with. -/
def leadingBlanks (text : List Char) : Nat := (text.takeWhile isBlank).length

end Transclude.Text
