import Transclude.Fault
import Transclude.Text.Quoted
import Transclude.Value.Calendar

/-! # Problems of YAML texts

Most texts without data are simply malformed. Some are well formed, but a scalar
in them has the form of a number, a date or a code point without being one. -/

namespace Transclude.Yaml

/-- Why a text or its parts have no data. -/
inductive Problem
  /-- The text is not YAML, or uses what data cannot hold. -/
  | malformed
  | integer (base : Nat) (text : List Char)
  | float (text : List Char)
  | codePoint
  | calendar (problem : CalendarProblem)
deriving DecidableEq, Repr

/-- The wording of a problem. -/
def Problem.message : Problem → String
  | .malformed => "malformed"
  | .integer base text =>
    "invalid literal for int() with base " ++ toString base ++ ": " ++
      String.ofList (Text.quoted text)
  | .float text => "could not convert string to float: " ++ String.ofList (Text.quoted text)
  | .codePoint => "chr() arg not in range(0x110000)"
  | .calendar problem => problem.message

/-- The result of reading a part of a text. -/
abbrev Result (α : Type) := Except (Halt Problem) α

/-- The result of a malformed text. -/
def malformed {α : Type} : Result α := .error (.error .malformed)

/-- The result of a reader that is absent for a malformed text. -/
def wellFormed {α : Type} : Option α → Result α
  | some value => .ok value
  | none => malformed

/-- The character of a code point; a lone surrogate becomes the replacement character. Numbers of
more than 31 bits are refused before they are looked at. -/
def charOfCode (code : Int) : Result Char :=
  if 0x80000000 ≤ code then .error (.fault .tooLarge)
  else if code < 0 || 0x110000 ≤ code then .error (.error .codePoint)
  else if 0xd800 ≤ code && code < 0xe000 then .ok (Char.ofNat 0xfffd)
  else .ok (Char.ofNat code.toNat)

end Transclude.Yaml
