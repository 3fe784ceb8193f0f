import Transclude.Fault
import Transclude.Text.Blank

/-! # Patterns of file names

A pattern is matched against the path of a file below the root of a tree. `*`
and `?` stand for characters of one component, `**` for whole components, and
brackets for one character of a set. A pattern with a single component matches
at any depth, one with more components from the root on. What matches a
directory matches all files below it; with a slash at its end a pattern matches
nothing but such files. -/

namespace Transclude.Glob

/-- A set of characters: ranges, or all others. -/
structure CharSet where
  negated : Bool
  ranges : List (Char × Char)
deriving DecidableEq, Repr

/-- Whether the set holds a character. -/
def CharSet.holds (set : CharSet) (c : Char) : Bool :=
  set.negated != set.ranges.any fun range => range.1 ≤ c && c ≤ range.2

/-- A part of a pattern. -/
inductive Atom
  | char (c : Char)
  | oneOf (set : CharSet)
  /-- One character of a component. -/
  | any
  /-- Characters of a component, as many as needed. -/
  | many
  /-- Nothing, or components with the slash behind them. -/
  | leading
  /-- Nothing, or components with the slash before them. -/
  | inner
  /-- A slash and whatever follows. -/
  | below
  /-- Nothing, or a slash and whatever follows. -/
  | atOrBelow
deriving DecidableEq, Repr

/-- Whether the atom has a range whose end comes before its beginning. -/
def Atom.isReversed : Atom → Bool
  | .oneOf set => set.ranges.any fun range => range.2 < range.1
  | _ => false

/-- Whether a part of a path is one that the atom stands for. -/
def Atom.accepts : Atom → List Char → Bool
  | .char c, text => text == [c]
  | .oneOf set, text => text.length == 1 && text.all set.holds
  | .any, text => text.length == 1 && text.all (· != '/')
  | .many, text => text.all (· != '/')
  | .leading, text => text.isEmpty || (1 < text.length && text.getLast? == some '/')
  | .inner, text => text.isEmpty || (1 < text.length && text.head? == some '/')
  | .below, text => text.head? == some '/'
  | .atOrBelow, text => text.isEmpty || text.head? == some '/'

/-- The lengths of the beginnings of a path that end with a part for an atom, where `lengths` are
those of the beginnings for the atoms before it. -/
def extended (path : List Char) (lengths : List Nat) (atom : Atom) : List Nat :=
  (List.range (path.length + 1)).filter fun stop =>
    lengths.any fun start =>
      start ≤ stop && atom.accepts ((path.take stop).drop start)

/-- Whether a path can be cut into parts, one for each atom. -/
def matchesAtoms (atoms : List Atom) (path : List Char) : Bool :=
  (atoms.foldl (extended path) [0]).contains path.length

/-! ### Reading patterns -/

/-- The length of the content of a bracket, up to its closing one, from behind the opening one. The
closing bracket does not count right at the beginning or behind the sign of negation. -/
def bracketLength? (text : List Char) : Option Nat :=
  let sign := if text.head?.any fun c => c == '!' || c == '^' then 1 else 0
  let first := if (text.drop sign).head? == some ']' then 1 else 0
  let rest := text.drop (sign + first)
  let length := (rest.takeWhile (· != ']')).length
  if length < rest.length then some (sign + first + length) else none

/-- The ranges of the content of a bracket. A hyphen between two characters makes a range of
them. -/
def rangesOf : List Char → List (Char × Char)
  | [] => []
  | a :: '-' :: b :: rest => (a, b) :: rangesOf rest
  | a :: rest => (a, a) :: rangesOf rest

/-- The set that the content of a bracket describes. -/
def setOf (content : List Char) : CharSet :=
  match content with
  | '!' :: rest | '^' :: rest => ⟨true, rangesOf rest⟩
  | _ => ⟨false, rangesOf content⟩

/-- The atoms of a component. A backslash takes its meaning from the next character, which must be
there; a bracket that is not closed stands for itself. -/
def componentAtoms : List Char → Except Fault (List Atom)
  | [] => .ok []
  | '\\' :: rest =>
    match rest with
    | [] => .error .invalidPattern
    | c :: more => do return .char c :: (← componentAtoms more)
  | '*' :: rest => do return .many :: (← componentAtoms rest)
  | '?' :: rest => do return .any :: (← componentAtoms rest)
  | '[' :: rest =>
    match bracketLength? rest with
    | none => do return .char '[' :: (← componentAtoms rest)
    | some length => do
      return .oneOf (setOf (rest.take length)) :: (← componentAtoms (rest.drop (length + 1)))
  | c :: rest => do return .char c :: (← componentAtoms rest)
termination_by text => text.length
decreasing_by all_goals simp only [List.length_cons, List.length_drop]; omega

/-- The component that stands for components. -/
def anyComponents : List Char := ['*', '*']

/-- The component that stands for any other one. -/
def anyComponent : List Char := ['*']

/-- The atoms of the components of a pattern. A slash comes before a component when `separated` says
so; `isFirst` says that nothing comes before them. -/
def atomsOf (separated isFirst : Bool) : List (List Char) → Except Fault (List Atom)
  | [] => .ok []
  | component :: rest =>
    if component = anyComponents then
      if isFirst then do return .leading :: (← atomsOf false false rest)
      else if rest.isEmpty then .ok [.below]
      else do return .inner :: (← atomsOf true false rest)
    else do
      let atoms ← componentAtoms component
      let slash : List Atom := if separated then [.char '/'] else []
      let final : List Atom := if rest.isEmpty then [.atOrBelow] else []
      return slash ++ atoms ++ final ++ (← atomsOf true false rest)

/-- The components with a `**` before a single one, which matches at any depth. A slash at the
beginning ties the pattern to the root. -/
def anchored : List (List Char) → List (List Char)
  | [] :: rest => rest
  | [component] => if component = anyComponents then [component] else [anyComponents, component]
  | [component, []] =>
    if component = anyComponents then [component, []] else [anyComponents, component, []]
  | components => components

/-- The components without a `**` that follows another one, an empty one at the end counting as
one. -/
def collapsed : List (List Char) → List (List Char)
  | [] => []
  | [component] => [if component.isEmpty then anyComponents else component]
  | component :: next :: rest =>
    match collapsed (next :: rest) with
    | second :: others =>
      if component = anyComponents && second = anyComponents then second :: others
      else component :: second :: others
    | [] => [component]

/-- The components of a pattern in the form that atoms are made of. -/
def components (text : List Char) : List (List Char) :=
  let parts := text.splitOn '/'
  let isDirectory := parts.getLast? == some []
  let found := collapsed (anchored parts)
  if found = [anyComponents] then
    if isDirectory then [anyComponents, anyComponent, anyComponents]
    else [anyComponents, anyComponent]
  else found

/-- A pattern: what it selects, or takes back when it is negated. -/
structure Pattern where
  selects : Bool
  atoms : List Atom
deriving Repr

/-- The text of a pattern without blanks at its end, unless the last one is escaped. -/
def trimmed (text : List Char) : List Char :=
  if "\\ ".toList.isSuffixOf text then text else Text.trimRight text

/-- The pattern that a text writes. Blank texts, comments and a lone slash write none. -/
def Pattern.read (text : List Char) : Except Fault (Option Pattern) :=
  let (selects, body) := match trimmed text with
    | '!' :: rest => (false, rest)
    | rest => (true, rest)
  if selects && (body.isEmpty || body.head? == some '#' || body == ['/']) then .ok none
  else
    let parts := components body
    if parts.isEmpty then .error .invalidPattern
    else do
      let atoms ← atomsOf false true parts
      if atoms.any Atom.isReversed then throw .reversedRange
      return some ⟨selects, atoms⟩

/-- Whether the last one of the patterns that match a path selects it. -/
def selects (patterns : List Pattern) (path : List Char) : Bool :=
  let settle (result : Bool) (pattern : Pattern) : Bool :=
    if matchesAtoms pattern.atoms path then pattern.selects else result
  patterns.foldl settle false

/-- The patterns that some texts write. -/
def readAll (texts : List String) : Except Fault (List Pattern) := do
  return (← texts.mapM fun text => Pattern.read text.toList).filterMap id

end Transclude.Glob
