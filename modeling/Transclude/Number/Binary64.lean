/-! # Binary floating-point numbers

The numbers of the IEEE 754 format `binary64`, held by value: a finite number is
`± significand * 2 ^ exponent` with a significand below `2 ^ 53` and an exponent
from `-1074` to `971`, where a significand below `2 ^ 52` has the exponent
`-1074`. Sums, products, quotients and remainders are computed exactly and then
rounded once, to the nearest number and from halfway to the even significand. -/

namespace Transclude

/-- A `binary64` number. What is not a number may have an origin, a place in data, by which such
keys of mappings are told apart; arithmetic gives none. -/
inductive Binary64
  | finite (negative : Bool) (significand : Nat) (exponent : Int)
  | infinite (negative : Bool)
  | notANumber (origin : Option (List Nat))
deriving DecidableEq, Repr, Inhabited

namespace Binary64

/-- The exponent of the smallest positive number. -/
def minExponent : Int := -1074

/-- The exponent of the largest finite numbers. -/
def maxExponent : Int := 971

/-- The number of bits of a significand. -/
def precision : Nat := 53

/-- What is not a number, as arithmetic gives it. -/
def nan : Binary64 := .notANumber none

/-- Zero with a sign. -/
def zero (negative : Bool) : Binary64 := .finite negative 0 minExponent

/-- The quotient rounded to the nearest integer, from halfway to the even one. -/
def divideToEven (dividend divisor : Nat) : Nat :=
  let quotient := dividend / divisor
  let twice := 2 * (dividend % divisor)
  if twice < divisor then quotient
  else if divisor < twice then quotient + 1
  else quotient + quotient % 2

/-- The largest `e` with `2 ^ e ≤ dividend / divisor`, for positive arguments. -/
def binaryLog (dividend divisor : Nat) : Int :=
  let estimate : Int := (dividend.log2 : Int) - divisor.log2
  let reached :=
    if 0 ≤ estimate then divisor * Nat.pow 2 estimate.toNat ≤ dividend
    else divisor ≤ dividend * Nat.pow 2 (-estimate).toNat
  if reached then estimate else estimate - 1

/-- A significand that rounding may have carried to `2 ^ 53`, brought into range. -/
def carried (negative : Bool) (significand : Nat) (exponent : Int) : Binary64 :=
  let (significand, exponent) :=
    if significand = Nat.pow 2 precision then (Nat.pow 2 (precision - 1), exponent + 1)
    else (significand, exponent)
  if maxExponent < exponent then .infinite negative else .finite negative significand exponent

/-- The number nearest to a quotient of natural numbers with a positive divisor. -/
def ofRatio (negative : Bool) (dividend divisor : Nat) : Binary64 :=
  if dividend = 0 then zero negative
  else
    let exponent := max (binaryLog dividend divisor - (precision - 1)) minExponent
    let significand :=
      if 0 ≤ exponent then divideToEven dividend (divisor * Nat.pow 2 exponent.toNat)
      else divideToEven (dividend * Nat.pow 2 (-exponent).toNat) divisor
    carried negative significand exponent

/-- The number nearest to `± significand * 2 ^ exponent`, for any significand. -/
def ofScaled (negative : Bool) (significand : Nat) (exponent : Int) : Binary64 :=
  if 0 ≤ exponent then ofRatio negative (significand * Nat.pow 2 exponent.toNat) 1
  else ofRatio negative significand (Nat.pow 2 (-exponent).toNat)

/-- The number nearest to an integer. -/
def ofInt (n : Int) : Binary64 := ofRatio (n < 0) n.natAbs 1

/-- The number nearest to `± digits * 10 ^ exponent`. Far outside the range of the format the powers
of ten are not formed. -/
def ofDecimal (negative : Bool) (digits : Nat) (exponent : Int) : Binary64 :=
  let magnitude := exponent + (Nat.toDigits 10 digits).length
  if digits = 0 ∨ magnitude < -400 then zero negative
  else if 400 < magnitude then .infinite negative
  else if 0 ≤ exponent then ofRatio negative (digits * Nat.pow 10 exponent.toNat) 1
  else ofRatio negative digits (Nat.pow 10 (-exponent).toNat)

/-- Whether the number is not a number. -/
def isNaN : Binary64 → Bool
  | .notANumber _ => true
  | _ => false

/-- Whether both are the same thing that is not a number. -/
def isSameNaN : Binary64 → Binary64 → Bool
  | .notANumber (some a), .notANumber (some b) => a == b
  | _, _ => false

/-- Whether the number is a zero of either sign. -/
def isZero : Binary64 → Bool
  | .finite _ significand _ => significand == 0
  | _ => false

/-- The number with the other sign. -/
def neg : Binary64 → Binary64
  | .finite negative significand exponent => .finite (!negative) significand exponent
  | .infinite negative => .infinite (!negative)
  | .notANumber _ => nan

/-- A significand with its sign, in units of `2 ^ unit` for a unit not above its exponent. -/
def signedAt (unit : Int) (negative : Bool) (significand : Nat) (exponent : Int) : Int :=
  let magnitude : Int := (significand * Nat.pow 2 (exponent - unit).toNat : Nat)
  if negative then -magnitude else magnitude

/-- The integer that the number is equal to, if any. -/
def toInt? : Binary64 → Option Int
  | .finite negative significand exponent =>
    if 0 ≤ exponent then some (signedAt 0 negative significand exponent)
    else
      let unit := Nat.pow 2 (-exponent).toNat
      if significand % unit = 0 then some (signedAt 0 negative (significand / unit) 0) else none
  | _ => none

/-- The integer part of a finite number, towards zero. -/
def truncate : Binary64 → Int
  | .finite negative significand exponent =>
    if 0 ≤ exponent then signedAt 0 negative significand exponent
    else signedAt 0 negative (significand / Nat.pow 2 (-exponent).toNat) 0
  | _ => 0

/-- The sum. -/
def add : Binary64 → Binary64 → Binary64
  | .notANumber _, _ | _, .notANumber _ => nan
  | .infinite a, .infinite b => if a = b then .infinite a else nan
  | .infinite a, _ | _, .infinite a => .infinite a
  | .finite a m p, .finite b n q =>
    let unit := min p q
    let sum := signedAt unit a m p + signedAt unit b n q
    if sum = 0 then zero (a && b) else ofScaled (sum < 0) sum.natAbs unit

/-- The difference. -/
def sub (x y : Binary64) : Binary64 := add x y.neg

/-- The product. -/
def mul : Binary64 → Binary64 → Binary64
  | .notANumber _, _ | _, .notANumber _ => nan
  | .infinite a, .infinite b => .infinite (a != b)
  | .infinite a, .finite b n _ | .finite b n _, .infinite a =>
    if n = 0 then nan else .infinite (a != b)
  | .finite a m p, .finite b n q => ofScaled (a != b) (m * n) (p + q)

/-- The quotient. -/
def div : Binary64 → Binary64 → Binary64
  | .notANumber _, _ | _, .notANumber _ => nan
  | .infinite _, .infinite _ => nan
  | .infinite a, .finite b _ _ => .infinite (a != b)
  | .finite a _ _, .infinite b => zero (a != b)
  | .finite a m p, .finite b n q =>
    if n = 0 then if m = 0 then nan else .infinite (a != b)
    else if q ≤ p then ofRatio (a != b) (m * Nat.pow 2 (p - q).toNat) n
    else ofRatio (a != b) m (n * Nat.pow 2 (q - p).toNat)

/-- The remainder that has the sign of the dividend. -/
def rem : Binary64 → Binary64 → Binary64
  | .notANumber _, _ | _, .notANumber _ => nan
  | .infinite _, _ => nan
  | x@(.finite _ _ _), .infinite _ => x
  | .finite a m p, .finite _ n q =>
    if n = 0 then nan
    else
      let unit := min p q
      ofScaled a (m * Nat.pow 2 (p - unit).toNat % (n * Nat.pow 2 (q - unit).toNat)) unit

/-- The order of two numbers; absent when one of them is not a number. -/
def compare? : Binary64 → Binary64 → Option Ordering
  | .notANumber _, _ | _, .notANumber _ => none
  | .infinite a, .infinite b =>
    some (if a = b then .eq else if a then .lt else .gt)
  | .infinite a, .finite _ _ _ => some (if a then .lt else .gt)
  | .finite _ _ _, .infinite b => some (if b then .gt else .lt)
  | .finite a m p, .finite b n q =>
    let unit := min p q
    some (compare (signedAt unit a m p) (signedAt unit b n q))

/-- The order of an integer and a number; absent when the latter is not a number. -/
def compareInt? (k : Int) : Binary64 → Option Ordering
  | .notANumber _ => none
  | .infinite a => some (if a then .gt else .lt)
  | .finite a m p =>
    let unit := min 0 p
    some (compare (k * (Nat.pow 2 (-unit).toNat : Nat)) (signedAt unit a m p))

end Binary64

end Transclude
