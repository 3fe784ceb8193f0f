import Transclude.Bracket
import Transclude.Error
import Transclude.Json.Reader

/-! # Filter chains

An include may wrap its arguments in calls of filters, as in
`trim(upper('notes.txt'))`. The names of the chain are listed outermost first.
The first object in braces of the call text holds the options of the innermost
filter. -/

namespace Transclude.Filter

open Text

/-- The name and the text behind the bracket of a call that the text begins with; blanks may stand
before and behind the bracket. -/
def link? (text : List Char) : Option (List Char × List Char) :=
  match text with
  | [] => none
  | c :: rest =>
    if isIdentifierStart c then
      match trimLeft (rest.dropWhile isIdentifierPart) with
      | '(' :: inside => some (c :: rest.takeWhile isIdentifierPart, trimLeft inside)
      | _ => none
    else none

/-- Dropping characters makes no text longer. -/
theorem length_dropWhile_le (p : Char → Bool) (text : List Char) :
    (text.dropWhile p).length ≤ text.length :=
  (List.dropWhile_suffix p).length_le

/-- The text inside a call is shorter than the call. -/
theorem link?_length {text name inside : List Char} (h : link? text = some (name, inside)) :
    inside.length < text.length := by
  unfold link? at h
  split at h
  · simp at h
  · next c rest =>
    split at h
    · split at h
      · next inner heq =>
        have hlen := congrArg List.length heq
        have h1 := length_dropWhile_le isBlank (rest.dropWhile isIdentifierPart)
        have h2 := length_dropWhile_le isIdentifierPart rest
        have h3 := length_dropWhile_le isBlank inner
        simp only [trimLeft, List.length_cons, Option.some.injEq, Prod.mk.injEq] at *
        obtain ⟨_, rfl⟩ := h
        omega
      · simp at h
    · simp at h

/-- The names of the calls that the text begins with, and the text inside the innermost one. -/
def openCalls (text : List Char) : List (List Char) × List Char :=
  match _ : link? text with
  | none => ([], text)
  | some (name, inside) =>
    let (names, innermost) := openCalls inside
    (name :: names, innermost)
termination_by text.length
decreasing_by exact link?_length ‹link? text = some (name, inside)›

/-- The filter names of a call, outermost first. A text that does not end with a bracket has
none. -/
def chain (call : List Char) : List (List Char) :=
  if (trimRight call).getLast? == some ')' then (openCalls (trimLeft call)).1 else []

/-- The text without closing brackets at its end, one for each name, and the blanks before them. -/
def withoutClosings? : List (List Char) → List Char → Option (List Char)
  | [], text => some text
  | _ :: names, text =>
    if text.getLast? == some ')' then withoutClosings? names (trimRight text.dropLast) else none

/-- The filter names of a call and the arguments that they wrap. A chain without its closing
brackets counts as plain arguments. -/
def splitChain (call : List Char) : List (List Char) × List Char :=
  match chain call with
  | [] => ([], call)
  | names =>
    match withoutClosings? names (trimRight (openCalls (trimLeft call)).2) with
    | some inner => (names, inner)
    | none => ([], call)

/-- The options in a call text: its first object in braces, if any. -/
def options (call : List Char) : Except FilterProblem (Option Data) :=
  let rest := call.dropWhile (· != '\x7b')
  if rest.isEmpty then .ok none
  else match Bracket.closing? true '\x7b' '\x7d' rest with
    | none => .error (.unterminatedOptions call)
    | some close =>
      let object := rest.take (close + 1)
      match Json.read object with
      | .error error => .error (.invalidOptions object error)
      | .ok (.map _ entries) => .ok (some (Value.placedEntries [] 0 entries))
      | .ok _ => .ok none

end Transclude.Filter
