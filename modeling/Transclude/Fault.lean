/-! # Faults

A fault ends an operation without being one of the reported errors: the input
asks for something that has no answer, such as a list as the key of a mapping.
Reported errors carry a message for the author of a template; a fault carries
only its kind. -/

namespace Transclude

/-- The kinds of faults. -/
inductive Fault
  /-- A value of the wrong kind, such as a list used as the key of a mapping. -/
  | wrongType
  /-- A value of the right kind that has no meaning, such as a superscript used as an index. -/
  | badValue
  /-- An integer beyond the range of the floating-point numbers. -/
  | tooLarge
  /-- A position outside a sequence. -/
  | noSuchPosition
  /-- A name that is not among those known. -/
  | noSuchEntry
  /-- A key that an ordered mapping has already. -/
  | repeatedKey
  /-- A value that is a part of itself. -/
  | circular
  /-- Bytes that are no UTF-8 text. -/
  | undecodable
  /-- A file operation that the file tree does not allow. -/
  | fileSystem
  /-- A pattern of file names without a meaning. -/
  | invalidPattern
  /-- A range of characters whose end comes before its beginning. -/
  | reversedRange
  /-- A home directory of a user that does not exist. -/
  | noSuchUser
deriving DecidableEq, Repr, Inhabited

/-- What a fault means, for the user of the program. -/
def Fault.message : Fault → String
  | .wrongType => "a value is of the wrong kind"
  | .badValue => "a value has no meaning"
  | .tooLarge => "an integer is too large for a floating-point number"
  | .noSuchPosition => "there is nothing at a position"
  | .noSuchEntry => "a name is not known"
  | .repeatedKey => "an ordered mapping has a key twice"
  | .circular => "a value is a part of itself"
  | .undecodable => "the settings are no UTF-8 text"
  | .fileSystem => "a file cannot be read or written"
  | .invalidPattern => "a pattern of file names has no meaning"
  | .reversedRange => "a range of characters is reversed"
  | .noSuchUser => "a user does not exist"

/-- Why an operation with errors of the type `ε` has stopped. -/
inductive Halt (ε : Type)
  | error (cause : ε)
  | fault (kind : Fault)
deriving DecidableEq, Repr, Inhabited

namespace Halt

/-- The reason with its error replaced. -/
def map {ε δ : Type} (f : ε → δ) : Halt ε → Halt δ
  | .error cause => .error (f cause)
  | .fault kind => .fault kind

end Halt

instance {ε : Type} : MonadLift (Except Fault) (Except (Halt ε)) where
  monadLift
    | .ok value => .ok value
    | .error kind => .error (.fault kind)

end Transclude
