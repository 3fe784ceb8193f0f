/-! # Sets of code points

A Unicode property is held as the list of the closed intervals of code points
that have it. -/

namespace Transclude.Text

/-- A set of code points: the closed intervals `(first, last)` it consists of. -/
abbrev Ranges := List (Nat × Nat)

/-- Whether the character lies in one of the intervals. -/
def Ranges.contains (ranges : Ranges) (c : Char) : Bool :=
  ranges.any fun range => range.1 ≤ c.toNat && c.toNat ≤ range.2

end Transclude.Text
