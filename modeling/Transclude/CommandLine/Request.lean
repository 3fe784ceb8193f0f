import Transclude.CommandLine.Reading
import Transclude.Settings.Basic
import Transclude.Tree.Source

/-! # Requests

What a command line asks for: the rendering of one file, or the building of a
tree. Words before the name of the command are options of the program itself. -/

namespace Transclude.CommandLine

/-- What an option means. -/
inductive Meaning
  | help
  | version
  | config
  | context
  | opening
  | closing
  | basepath
  | indent
  | verbose
  | output
  | pattern
  | exclude
deriving DecidableEq, Repr

/-- An option without a value. -/
def flag (meaning : Meaning) (long : String) (short : Option Char) : OptionRule Meaning :=
  ⟨meaning, long.toList, short, false⟩

/-- An option with a value. -/
def setting (meaning : Meaning) (long : String) (short : Option Char) : OptionRule Meaning :=
  ⟨meaning, long.toList, short, true⟩

/-- The option that asks for help. -/
def helpRule : OptionRule Meaning := flag .help "help" (some 'h')

/-- The options of the program itself. -/
def programRules : List (OptionRule Meaning) := [helpRule, flag .version "version" none]

/-- The options of every command. -/
def sharedRules : List (OptionRule Meaning) := [
  helpRule,
  setting .config "config" none,
  setting .context "context" none,
  setting .opening "prefix" none,
  setting .closing "suffix" none,
  setting .basepath "basepath" none,
  flag .indent "indent" none,
  flag .verbose "verbose" (some 'v')]

/-- The commands. -/
inductive Command
  | render
  | build
deriving DecidableEq, Repr

namespace Command

/-- The command with a name. -/
def ofName? (name : List Char) : Option Command :=
  if name = "render".toList then some .render
  else if name = "build".toList then some .build
  else none

/-- The options of a command. -/
def rules : Command → List (OptionRule Meaning)
  | .render => setting .output "output" (some 'o') :: sharedRules
  | .build => setting .pattern "pattern" none :: setting .exclude "exclude" none :: sharedRules

/-- The number of places of a command. -/
def slots : Command → Nat
  | .render => 1
  | .build => 2

end Command

/-- Whether an option ends the line. -/
def endsLine (meaning : Meaning) : Bool := meaning == .help || meaning == .version

/-- What the options of every command say. -/
structure Choices where
  config : Option Path
  contexts : List Path
  overrides : Data
  verbose : Bool

/-- What a command line asks for. -/
inductive Request
  | help
  | version
  | render (file : Path) (output : Option Path) (choices : Choices)
  | build (source target : Path) (selection : Selection) (choices : Choices)

namespace Choices

/-- The setting that an option overrides; one that is not given counts as null. -/
def override (name : String) (value : Option String) : Key × Datum :=
  (.str name, (value.map fun text => (.str text : Datum)).getD .null)

/-- The choices that a reading makes. -/
def ofReading (reading : Reading Meaning) : Choices where
  config := (reading.value? .config).map Path.ofText
  contexts := (reading.values .context).map Path.ofText
  overrides := [
    override "prefix" (reading.value? .opening),
    override "suffix" (reading.value? .closing),
    override "basepath" (reading.value? .basepath),
    (.str "indent", if reading.has .indent then .bool true else .null)]
  verbose := reading.has .verbose

end Choices

namespace Request

/-- The request of a command whose places are filled and that leaves no word over. -/
def ofReading (command : Command) (reading : Reading Meaning) : Except Refusal Request :=
  let choices := Choices.ofReading reading
  if reading.has .help then .ok .help
  else match command, reading.places, reading.surplus with
    | .render, [file], [] =>
      .ok (.render (.ofText file) ((reading.value? .output).map Path.ofText) choices)
    | .build, [source, target], [] =>
      let patterns := reading.values .pattern
      let selecting := if patterns.isEmpty then Selection.standardPatterns else patterns
      .ok (.build (.ofText source) (.ofText target) ⟨selecting, reading.values .exclude⟩ choices)
    | .render, [_], surplus | .build, [_, _], surplus => .error (.surplus surplus)
    | _, _, _ => .error .missingPlace

/-- Whether a word belongs to the options of the program itself, which stand before the command. -/
def isLeading : Word Meaning → Bool
  | .option _ _ | .unknown _ => true
  | .place _ | .separator => false

/-- The request of a command line. -/
def read (arguments : List String) : Except (Halt Refusal) Request := do
  let texts := arguments.map String.toList
  let words ← (Word.readAll programRules texts).mapError Halt.error
  let leading := words.takeWhile isLeading
  let before ← Reading.ofWords programRules endsLine 0 leading
  if before.has .help then return .help
  if before.has .version then return .version
  match texts.drop leading.length with
  | [] => throw (.error .missingCommand)
  | name :: rest =>
    match Command.ofName? name with
    | none => throw (.error (.unknownCommand name))
    | some command => do
      let words ← (Word.readAll command.rules rest).mapError Halt.error
      let reading ← Reading.ofWords command.rules endsLine command.slots words
      (ofReading command { reading with surplus := before.surplus ++ reading.surplus }).mapError
        Halt.error

end Request

end Transclude.CommandLine
