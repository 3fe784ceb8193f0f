import Transclude.CommandLine.Word

/-! # Reading command lines

The words of a command line give options, fill places, or are left over. Short
options without values may share a word. What a line means is settled from left
to right; an option that ends the line leaves the words behind it unread. -/

namespace Transclude.CommandLine

variable {κ : Type}

/-- An option of a word with its value, if it has one so far. -/
abbrev Given (κ : Type) := OptionRule κ × Option (List Char)

/-- The options that a short one and the characters behind it make: its value, or short options in
turn. Characters from one on that names no option are left over. -/
def cluster (rules : List (OptionRule κ)) (rule : OptionRule κ) :
    List Char → Except Refusal (List (Given κ) × List (List Char))
  | [] => .ok ([(rule, none)], [])
  | name :: rest =>
    if rule.takesValue then .ok ([(rule, some (name :: rest))], [])
    else if name = '-' then .error (.unexpectedValue (name :: rest))
    else match withShort? rules name with
      | none => .ok ([(rule, none)], ['-' :: name :: rest])
      | some next =>
        match rest with
        | '=' :: value =>
          if next.takesValue then .ok ([(rule, none), (next, some value)], [])
          else .error (.unexpectedValue value)
        | _ => do
          let (options, left) ← cluster rules next rest
          return ((rule, none) :: options, left)

/-- The options of a word, and what is left over of it. -/
def optionsOf (rules : List (OptionRule κ)) (rule : OptionRule κ) :
    Attached → Except Refusal (List (Given κ) × List (List Char))
  | .nothing => .ok ([(rule, none)], [])
  | .value text =>
    if rule.takesValue then .ok ([(rule, some text)], []) else .error (.unexpectedValue text)
  | .tail text => cluster rules rule text

/-- Whether the last option of a word has its value in the next word. -/
def needsValue (options : List (Given κ)) : Bool :=
  options.getLast?.any fun option => option.1.takesValue && option.2.isNone

/-- The options with a value for the last one. -/
def withLastValue (options : List (Given κ)) (value : List Char) : List (Given κ) :=
  options.dropLast ++ options.getLast?.toList.map fun option => (option.1, some value)

/-- What a command line says. -/
structure Reading (κ : Type) where
  options : List (κ × Option String)
  places : List String
  surplus : List (List Char)
deriving Repr

namespace Reading

/-- The reading of no words. -/
def empty : Reading κ := ⟨[], [], []⟩

/-- The reading with a place before the others. -/
def withPlace (text : List Char) (reading : Reading κ) : Reading κ :=
  { reading with places := String.ofList text :: reading.places }

/-- The reading with a word that is left over. -/
def withSurplus (text : List Char) (reading : Reading κ) : Reading κ :=
  { reading with surplus := text :: reading.surplus }

/-- The reading with options before the others. -/
def withOptions (options : List (Given κ)) (reading : Reading κ) : Reading κ :=
  let read := options.map fun option => (option.1.meaning, option.2.map String.ofList)
  { reading with options := read ++ reading.options }

/-- Whether an option is given. -/
def has [BEq κ] (reading : Reading κ) (meaning : κ) : Bool :=
  reading.options.any fun option => option.1 == meaning

/-- The values of an option, in order. -/
def values [BEq κ] (reading : Reading κ) (meaning : κ) : List String :=
  reading.options.filterMap fun option => if option.1 == meaning then option.2 else none

/-- The value of an option; the last one counts. -/
def value? [BEq κ] (reading : Reading κ) (meaning : κ) : Option String :=
  (reading.values meaning).getLast?

/-- The options of a word up to one that ends the line, and whether there is such a one. -/
def settle (ends : κ → Bool) : List (Given κ) → List (Given κ) × Bool
  | [] => ([], false)
  | option :: rest =>
    if ends option.1.meaning then ([option], true)
    else
      let (settled, ended) := settle ends rest
      (option :: settled, ended)

/-- What words say where so many places are open. A separator goes with the place before or behind
it. Behind it the same word fills a place only when it stands right there. -/
def ofWords (rules : List (OptionRule κ)) (ends : κ → Bool) :
    Nat → List (Word κ) → Except (Halt Refusal) (Reading κ)
  | _, [] => .ok empty
  | slots, .unknown text :: rest => do
    return (← ofWords rules ends slots rest).withSurplus text
  | slots, .option rule attached :: rest => do
    let (options, left) ← (optionsOf rules rule attached).mapError Halt.error
    match needsValue options, rest with
    | false, rest =>
      let (settled, ended) := settle ends options
      if ended then return empty.withOptions settled
      else return (left.foldr withSurplus (← ofWords rules ends slots rest)).withOptions settled
    | true, .place text :: rest =>
      let (settled, ended) := settle ends (withLastValue options text)
      if ended then return empty.withOptions settled
      else return (← ofWords rules ends slots rest).withOptions settled
    | true, _ => .error (.error (.missingValue rule.long))
  | slots + 1, .place text :: .separator :: rest => do
    return (← ofWords rules ends slots rest).withPlace text
  | slots + 1, .separator :: .place text :: rest => do
    return (← ofWords rules ends slots rest).withPlace text
  | slots + 1, .place text :: rest => do
    if text = separatorText then throw (.fault .badValue)
    return (← ofWords rules ends slots rest).withPlace text
  | 0, .place text :: rest => do return (← ofWords rules ends 0 rest).withSurplus text
  | slots, .separator :: rest => do
    return (← ofWords rules ends slots rest).withSurplus separatorText

end Reading

end Transclude.CommandLine
