import Transclude.Number.Binary64

/-! # The fewest digits that read back

A floating-point number is written with the fewest decimal digits that are read
back as the same number, and of the texts with that many digits the one nearest
to it is taken. The text is positional for the decimal exponents from `-4` to
`15` and scientific beyond. -/

namespace Transclude.Binary64

/-- The largest `e` with `10 ^ e ≤ dividend / divisor`, for positive arguments. The binary logarithm
fixes it up to one. -/
def decimalLog (dividend divisor : Nat) : Int :=
  let estimate := Int.fdiv (binaryLog dividend divisor * 30103) 100000
  let reaches (e : Int) : Bool :=
    if 0 ≤ e then divisor * Nat.pow 10 e.toNat ≤ dividend
    else divisor ≤ dividend * Nat.pow 10 (-e).toNat
  if reaches (estimate + 1) then estimate + 1
  else if reaches estimate then estimate
  else estimate - 1

/-- A decimal number: `digits * 10 ^ exponent`. -/
structure Decimal where
  digits : Nat
  exponent : Int
deriving DecidableEq, Repr

/-- The neighbour of a finite positive number on the grid of the multiples of `10 ^ exponent` that
is read back as the number; the nearer one when both are, and the even one from halfway. The
numbers read back as this one lie between half a unit of the last place below and above, where the
place below a power of two is half as wide and the ends belong to the even significand. -/
def onGrid? (significand : Nat) (binary exponent : Int) : Option Decimal :=
  let quarter := binary - 2
  let twos := (max 0 (-quarter)).toNat
  let tens := Nat.pow 10 (max 0 (-exponent)).toNat
  let scale := Nat.pow 2 (quarter + twos).toNat * tens
  let unit := Nat.pow 10 (max 0 exponent).toNat * Nat.pow 2 twos
  let value := 4 * significand * scale
  let below :=
    if significand = Nat.pow 2 (precision - 1) ∧ minExponent < binary then 4 * significand - 1
    else 4 * significand - 2
  let low := below * scale
  let high := (4 * significand + 2) * scale
  let readsBack (digits : Nat) : Bool :=
    let x := digits * unit
    if significand % 2 = 0 then low ≤ x && x ≤ high else low < x && x < high
  let floor := value / unit
  let nearest := divideToEven value unit
  if readsBack nearest then some ⟨nearest, exponent⟩
  else if readsBack floor then some ⟨floor, exponent⟩
  else if readsBack (floor + 1) then some ⟨floor + 1, exponent⟩
  else none

/-- The first grid that has a reading, trying `count` further digits from the given exponent. -/
def firstGrid (significand : Nat) (binary : Int) : Nat → Int → Decimal
  | 0, exponent => (onGrid? significand binary exponent).getD ⟨0, exponent⟩
  | count + 1, exponent =>
    match onGrid? significand binary exponent with
    | some decimal => decimal
    | none => firstGrid significand binary count (exponent - 1)

/-- The shortest decimal that is read back as a finite positive number. Seventeen digits always
suffice. -/
def shortest (significand : Nat) (exponent : Int) : Decimal :=
  let leading :=
    if 0 ≤ exponent then decimalLog (significand * Nat.pow 2 exponent.toNat) 1
    else decimalLog significand (Nat.pow 2 (-exponent).toNat)
  firstGrid significand exponent 16 leading

/-- The digits without the zeros at their end, and the decimal exponent of the first digit. -/
def Decimal.scientific (decimal : Decimal) : List Char × Int :=
  let digits := Nat.toDigits 10 decimal.digits
  ((digits.reverse.dropWhile (· == '0')).reverse, decimal.exponent + digits.length - 1)

/-- The exponents that are written by the place of the point. -/
def isPositional (exponent : Int) : Bool := -4 ≤ exponent && exponent < 16

/-- Digits with a decimal exponent as text; a point is always shown in positional notation, an
exponent has at least two digits. -/
def textOfDigits (digits : List Char) (exponent : Int) : List Char :=
  if isPositional exponent then
    if 0 ≤ exponent then
      let whole := digits.take (exponent + 1).toNat
      let fraction := digits.drop (exponent + 1).toNat
      whole ++ List.replicate ((exponent + 1).toNat - whole.length) '0' ++ '.' ::
        (if fraction.isEmpty then ['0'] else fraction)
    else '0' :: '.' :: List.replicate (-exponent - 1).toNat '0' ++ digits
  else
    let power := Nat.toDigits 10 exponent.natAbs
    let padded := List.replicate (2 - power.length) '0' ++ power
    let mantissa :=
      match digits with
      | first :: second :: rest => first :: '.' :: second :: rest
      | single => single
    mantissa ++ 'e' :: (if exponent < 0 then '-' else '+') :: padded

/-- The text of a number. -/
def toChars : Binary64 → List Char
  | .notANumber _ => ['n', 'a', 'n']
  | .infinite negative => (if negative then ['-'] else []) ++ ['i', 'n', 'f']
  | .finite negative significand exponent =>
    let body :=
      if significand = 0 then ['0', '.', '0']
      else
        let (digits, leading) := (shortest significand exponent).scientific
        textOfDigits digits leading
    if negative then '-' :: body else body

/-- The text of a number. -/
def toText (x : Binary64) : String := String.ofList x.toChars

end Transclude.Binary64
