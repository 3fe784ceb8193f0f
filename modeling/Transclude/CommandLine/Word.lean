import Transclude.Fault
import Transclude.Text.Digit

/-! # Words of a command line

A word with a hyphen at its beginning is an option. Its long name stands behind
two hyphens and may be cut short as long as one option alone begins so; its
short name is a single character behind one. A value may follow behind `=`, or
right behind a short name. The first word `--` ends the options: all words
behind it stand for themselves. -/

namespace Transclude.CommandLine

/-- An option: what it means, its names without hyphens, and whether it has a value. -/
structure OptionRule (κ : Type) where
  meaning : κ
  long : List Char
  short : Option Char
  takesValue : Bool
deriving Repr

/-- Why a command line is refused. -/
inductive Refusal
  | ambiguous (word : List Char)
  | unexpectedValue (value : List Char)
  | missingValue (name : List Char)
  | missingPlace
  | surplus (words : List (List Char))
  | missingCommand
  | unknownCommand (name : List Char)
deriving DecidableEq, Repr

/-- The wording of a refusal. -/
def Refusal.message : Refusal → String
  | .ambiguous word => "ambiguous option: " ++ String.ofList word
  | .unexpectedValue value => "unexpected value of an option: " ++ String.ofList value
  | .missingValue name => "missing value of the option " ++ String.ofList name
  | .missingPlace => "missing arguments"
  | .surplus words => "unrecognized arguments: " ++ " ".intercalate (words.map String.ofList)
  | .missingCommand => "missing command"
  | .unknownCommand name => "unknown command: " ++ String.ofList name

/-- What follows the name of an option in its word. -/
inductive Attached
  | nothing
  /-- A value behind `=`. -/
  | value (text : List Char)
  /-- Characters right behind a short name. -/
  | tail (text : List Char)
deriving DecidableEq, Repr

/-- What a word is. -/
inductive Word (κ : Type)
  /-- A word that stands for itself. -/
  | place (text : List Char)
  /-- The end of the options. -/
  | separator
  | option (rule : OptionRule κ) (attached : Attached)
  /-- An option that there is none for. -/
  | unknown (text : List Char)

/-- The word that ends the options. -/
def separatorText : List Char := ['-', '-']

variable {κ : Type}

/-- The option with a short name. -/
def withShort? (rules : List (OptionRule κ)) (name : Char) : Option (OptionRule κ) :=
  rules.find? fun rule => rule.short == some name

/-- The option with exactly this name, hyphens included. -/
def named? (rules : List (OptionRule κ)) : List Char → Option (OptionRule κ)
  | '-' :: '-' :: long => rules.find? fun rule => rule.long == long
  | ['-', name] => withShort? rules name
  | _ => none

/-- The name before the first `=` and the value behind it, if there is one. -/
def splitValue (text : List Char) : List Char × Attached :=
  match text.dropWhile (· != '=') with
  | [] => (text, .nothing)
  | _ :: value => (text.takeWhile (· != '='), .value value)

/-- The options that a word without hyphens may mean when it is the exact name of none. A long name
may be cut short; a short one may have its value right behind it. -/
def candidates (rules : List (OptionRule κ)) : List Char → List (Word κ)
  | '-' :: text =>
    let (name, value) := splitValue text
    (rules.filter fun rule => name.isPrefixOf rule.long).map fun rule => .option rule value
  | name :: tail =>
    (rules.filter fun rule => rule.short == some name).map fun rule => .option rule (.tail tail)
  | [] => []

/-- Whether a text behind a hyphen makes a negative number, which is no option. -/
def isNumeral (text : List Char) : Bool :=
  let digits := text.dropWhile Text.isDecimalDigit
  match digits with
  | [] => !text.isEmpty
  | '.' :: fraction => !fraction.isEmpty && fraction.all Text.isDecimalDigit
  | _ => false

/-- What a word is that stands before the end of the options. -/
def Word.read (rules : List (OptionRule κ)) (text : List Char) : Except Refusal (Word κ) :=
  match text with
  | '-' :: body =>
    let (name, value) := splitValue text
    match named? rules text, body, named? rules name with
    | some rule, _, _ => .ok (.option rule .nothing)
    | none, [], _ => .ok (.place text)
    | none, _, some rule => .ok (.option rule value)
    | none, _, none =>
      match candidates rules body with
      | [word] => .ok word
      | _ :: _ :: _ => .error (.ambiguous text)
      | [] => .ok (if isNumeral body || text.contains ' ' then .place text else .unknown text)
  | _ => .ok (.place text)

/-- What the words of a command line are. -/
def Word.readAll (rules : List (OptionRule κ)) : List (List Char) → Except Refusal (List (Word κ))
  | [] => .ok []
  | text :: rest =>
    if text = separatorText then .ok (.separator :: rest.map .place)
    else do return (← Word.read rules text) :: (← Word.readAll rules rest)

end Transclude.CommandLine
