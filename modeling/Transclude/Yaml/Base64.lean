/-! # Bytes in YAML texts

Bytes are written by letters, digits and the signs `+` and `/`, each of which
stands for six bits. All else is passed over, but a group that is not complete
must be filled up with equals signs, behind which nothing counts. -/

namespace Transclude.Yaml.Base64

/-- The six bits that a character stands for. -/
def sextet? (c : Char) : Option Nat :=
  if 'A' ≤ c && c ≤ 'Z' then some (c.toNat - 65)
  else if 'a' ≤ c && c ≤ 'z' then some (c.toNat - 71)
  else if c.isDigit then some (c.toNat + 4)
  else if c == '+' then some 62
  else if c == '/' then some 63
  else none

/-- The bytes of a group of up to four sextets; bits that make no byte are left out. -/
def bytesOf (group : List Nat) : List UInt8 :=
  match group with
  | [a, b] => [UInt8.ofNat (a * 4 + b / 16)]
  | [a, b, c] => [UInt8.ofNat (a * 4 + b / 16), UInt8.ofNat (b % 16 * 16 + c / 4)]
  | [a, b, c, d] =>
    [UInt8.ofNat (a * 4 + b / 16), UInt8.ofNat (b % 16 * 16 + c / 4),
      UInt8.ofNat (c % 4 * 64 + d)]
  | _ => []

/-- The bytes from a place on, given the sextets of the group there and the number of equals signs
behind them. -/
def decodeFrom (group : List Nat) (fillers : Nat) : List Char → Option (List UInt8)
  | [] => if group.isEmpty then some [] else none
  | c :: rest =>
    if c == '=' then
      if group.length < 2 then decodeFrom group fillers rest
      else if 4 ≤ group.length + fillers + 1 then some (bytesOf group)
      else decodeFrom group (fillers + 1) rest
    else match sextet? c with
      | none => decodeFrom group fillers rest
      | some bits =>
        if group.length = 3 then (decodeFrom [] 0 rest).map (bytesOf (group ++ [bits]) ++ ·)
        else decodeFrom (group ++ [bits]) 0 rest

/-- The bytes that a text of ASCII writes. -/
def decode (text : List Char) : Option (List UInt8) :=
  if text.all fun c => c.toNat < 128 then decodeFrom [] 0 text else none

end Transclude.Yaml.Base64
