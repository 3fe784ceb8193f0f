/-! # UTF-8

Bytes are decoded strictly: overlong forms, surrogates and code points beyond
Unicode are refused. An error names the bytes that cannot be decoded and why. -/

namespace Transclude.Text

/-- Why bytes are no UTF-8 text. -/
inductive Utf8Problem
  | invalidStart
  | invalidContinuation
  | unexpectedEnd
deriving DecidableEq, Repr

/-- The wording of a problem. -/
def Utf8Problem.text : Utf8Problem → String
  | .invalidStart => "invalid start byte"
  | .invalidContinuation => "invalid continuation byte"
  | .unexpectedEnd => "unexpected end of data"

/-- Bytes that cannot be decoded: the position and value of the first one, and how many they are. -/
structure Utf8Error where
  problem : Utf8Problem
  position : Nat
  first : UInt8
  count : Nat
deriving DecidableEq, Repr

/-- Two hexadecimal digits of a byte. -/
def byteDigits (b : UInt8) : String :=
  let digits := Nat.toDigits 16 b.toNat
  String.ofList (List.replicate (2 - digits.length) '0' ++ digits)

/-- The wording of an error. -/
def Utf8Error.message (error : Utf8Error) : String :=
  let place :=
    if error.count = 1 then "byte 0x" ++ byteDigits error.first ++ " in position " ++
      toString error.position
    else "bytes in position " ++ toString error.position ++ "-" ++
      toString (error.position + error.count - 1)
  "'utf-8' codec can't decode " ++ place ++ ": " ++ error.problem.text

/-- Whether a byte continues a character. -/
def isContinuation (b : UInt8) : Bool := 0x80 ≤ b && b < 0xc0

/-- Whether a byte may be the second one behind a first byte: the first byte may narrow the
range. -/
def isSecond (first b : UInt8) : Bool :=
  isContinuation b && !(first == 0xe0 && b < 0xa0) && !(first == 0xed && 0xa0 ≤ b) &&
    !(first == 0xf0 && b < 0x90) && !(first == 0xf4 && 0x90 ≤ b)

/-- The number of bytes of a character that begins with the given one. -/
def sequenceLength? (first : UInt8) : Option Nat :=
  if first < 0x80 then some 1
  else if 0xc2 ≤ first && first < 0xe0 then some 2
  else if 0xe0 ≤ first && first < 0xf0 then some 3
  else if 0xf0 ≤ first && first < 0xf5 then some 4
  else none

/-- The continuation bytes that follow, up to the given number. -/
def continuations : Nat → List UInt8 → List UInt8
  | 0, _ | _, [] => []
  | count + 1, b :: rest => if isContinuation b then b :: continuations count rest else []

/-- The bytes that a first byte and those behind it have in common with a character of the given
length. -/
def wellFormedPart (first : UInt8) (length : Nat) (rest : List UInt8) : List UInt8 :=
  match rest with
  | second :: more =>
    if isSecond first second then second :: continuations (length - 2) more else []
  | [] => []

/-- The code point of a first byte and its continuation bytes. -/
def codePoint (first : UInt8) (following : List UInt8) : Nat :=
  let lead := match following.length with
    | 0 => first.toNat
    | 1 => first.toNat - 0xc0
    | 2 => first.toNat - 0xe0
    | _ => first.toNat - 0xf0
  following.foldl (fun n b => n * 64 + (b.toNat - 0x80)) lead

/-- The text of the bytes from a position on. -/
def decodeFrom (position : Nat) : List UInt8 → Except Utf8Error (List Char)
  | [] => .ok []
  | first :: rest =>
    match sequenceLength? first with
    | none => .error ⟨.invalidStart, position, first, 1⟩
    | some 1 => do return Char.ofNat first.toNat :: (← decodeFrom (position + 1) rest)
    | some length =>
      let following := wellFormedPart first length rest
      if following.length + 1 = length then do
        let tail ← decodeFrom (position + length) (rest.drop following.length)
        return Char.ofNat (codePoint first following) :: tail
      else
        let problem :=
          if rest.length = following.length then .unexpectedEnd else .invalidContinuation
        .error ⟨problem, position, first, following.length + 1⟩
termination_by bytes => bytes.length
decreasing_by all_goals simp only [List.length_cons, List.length_drop]; omega

/-- The text of some bytes. -/
def decode (bytes : List UInt8) : Except Utf8Error (List Char) := decodeFrom 0 bytes

/-- The bytes of a text. -/
def encode (text : List Char) : List UInt8 := (String.ofList text).toUTF8.toList

/-- The text with every line end written as a line feed. -/
def normalizeLines : List Char → List Char
  | '\r' :: '\n' :: rest => '\n' :: normalizeLines rest
  | '\r' :: rest => '\n' :: normalizeLines rest
  | c :: rest => c :: normalizeLines rest
  | [] => []

end Transclude.Text
