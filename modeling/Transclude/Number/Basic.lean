import Transclude.Fault
import Transclude.Number.Shortest

/-! # Numbers of templates

A number is an integer of any size or a floating-point number. Sums, differences
and products of integers are exact. A division of integers gives the nearest
floating-point number, taken back to an integer when it has no fraction; the
remainder goes through floating-point numbers too. Mixed operands are converted
to floating point, which fails for integers beyond its range. -/

namespace Transclude

/-- A number of a template. -/
inductive Number
  | int (n : Int)
  | float (x : Binary64)
deriving DecidableEq, Repr, Inhabited

namespace Number

/-- An integer as a floating-point number, provided it is in range. -/
def floatOfInt (n : Int) : Except Fault Binary64 :=
  match Binary64.ofInt n with
  | .infinite _ => .error .tooLarge
  | x => .ok x

/-- The number in floating point. -/
def toFloat : Number → Except Fault Binary64
  | .int n => floatOfInt n
  | .float x => .ok x

/-- Not a number. -/
def nan : Number := .float .nan

/-- Whether the number is not a number. -/
def isNaN : Number → Bool
  | .int _ => false
  | .float x => x.isNaN

/-- Whether the number is zero. -/
def isZero : Number → Bool
  | .int n => n == 0
  | .float x => x.isZero

/-- The integer that the number is equal to, if any. -/
def toInt? : Number → Option Int
  | .int n => some n
  | .float x => x.toInt?

/-- The order of two numbers, exact also between integers and floating-point numbers; absent when
one of them is not a number. -/
def compare? : Number → Number → Option Ordering
  | .int a, .int b => some (compare a b)
  | .int a, .float y => Binary64.compareInt? a y
  | .float x, .int b => (Binary64.compareInt? b x).map Ordering.swap
  | .float x, .float y => Binary64.compare? x y

/-- Equality of value. -/
def equals (a b : Number) : Bool := compare? a b == some .eq

/-- Equality of numbers as keys, where what is not a number is at least equal to itself. -/
def sameKey (a b : Number) : Bool :=
  a.equals b || match a, b with
    | .float x, .float y => x.isSameNaN y
    | _, _ => false

/-- The number with the other sign. -/
def neg : Number → Number
  | .int n => .int (-n)
  | .float x => .float x.neg

/-- An operation that is exact on integers and rounds otherwise. -/
def lift (exact : Int → Int → Int) (rounded : Binary64 → Binary64 → Binary64) (a b : Number) :
    Except Fault Number :=
  match a, b with
  | .int m, .int n => .ok (.int (exact m n))
  | a, b => do return .float (rounded (← a.toFloat) (← b.toFloat))

/-- The sum. -/
def add : Number → Number → Except Fault Number := lift (· + ·) Binary64.add

/-- The difference. -/
def sub : Number → Number → Except Fault Number := lift (· - ·) Binary64.sub

/-- The product. -/
def mul : Number → Number → Except Fault Number := lift (· * ·) Binary64.mul

/-- The nearest number to a quotient of integers with a divisor other than zero. -/
def ratio (a b : Int) : Binary64 :=
  Binary64.ofRatio (decide (a < 0) != decide (b < 0)) a.natAbs b.natAbs

/-- The quotient. Dividing by a zero of any kind gives an infinity with the sign of the dividend, or
no number when the dividend is zero too. -/
def div (a b : Number) : Except Fault Number :=
  if b.isZero then
    .ok <| if a.isZero || a.isNaN then nan
      else .float (.infinite (compare? a (.int 0) == some .lt))
  else match a, b with
    | .int m, .int n =>
      match ratio m n with
      | .infinite _ => .error .tooLarge
      | x => .ok (match x.toInt? with | some k => .int k | none => .float x)
    | a, b => do return .float (Binary64.div (← a.toFloat) (← b.toFloat))

/-- The floating-point remainder of an infinite dividend has no value. -/
def remainder (x y : Binary64) : Except Fault Binary64 :=
  match x, y with
  | .infinite _, .notANumber _ => .ok .nan
  | .infinite _, _ => .error .badValue
  | x, y => .ok (Binary64.rem x y)

/-- The remainder, of the sign of the dividend. A zero divisor gives no number. -/
def rem (a b : Number) : Except Fault Number :=
  if b.isZero then .ok nan
  else do
    let r ← remainder (← a.toFloat) (← b.toFloat)
    match a, b with
    | .int _, .int _ => return .int r.truncate
    | _, _ => return .float r

/-- The text of a number in a document: an integral number has no point. -/
def toText : Number → String
  | .int n => toString n
  | .float x =>
    match x with
    | .notANumber _ => "NaN"
    | .infinite negative => if negative then "-Infinity" else "Infinity"
    | x => match x.toInt? with
      | some n => toString n
      | none => x.toText

end Number

end Transclude
