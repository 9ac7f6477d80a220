import Checklist.Text.Basic

/-! # Binary floating-point numbers

Numbers with a 53-bit mantissa and the exponents of the 64-bit interchange format, as exact values.
An operation is the exact one on rationals followed by rounding to nearest, a tie going to the even
mantissa, so every statement about numbers is a statement about integers. -/

namespace Checklist
set_option autoImplicit false

/-- A binary floating-point number. A finite one is `mantissa * 2 ^ exponent`, in the only way in
which the exponent is least, so equality of numbers other than NaN is equality of values, signs of
zero apart. -/
inductive Binary64 where
  | nan
  | infinite (negative : Bool)
  | finite (negative : Bool) (mantissa : Nat) (exponent : Int)
  deriving DecidableEq, Repr

namespace Binary64

def minExponent : Int := -1074

def maxExponent : Int := 971

def zero : Binary64 := .finite false 0 minExponent

/-- The quotient rounded to the nearest natural number, a half to the even one. -/
def roundDiv (num den : Nat) : Nat :=
  let quotient := num / den
  let twice := 2 * (num % den)
  if twice < den then quotient
  else if den < twice then quotient + 1
  else quotient + quotient % 2

/-- `num / den` scaled by `2 ^ (-exponent)` and rounded. -/
def scaled (num den : Nat) (exponent : Int) : Nat :=
  if exponent < 0 then roundDiv (num * Nat.pow 2 exponent.natAbs) den
  else roundDiv num (den * Nat.pow 2 exponent.toNat)

/-- The exponent for the quotient of two positive numbers before rounding: its mantissa
has 53 bits. -/
def exponentFor (num den : Nat) : Int :=
  let guess : Int := (num.log2 : Int) - den.log2
  let below := if guess < 0 then num * Nat.pow 2 guess.natAbs < den else
    num < den * Nat.pow 2 guess.toNat
  max ((if below then guess - 1 else guess) - 52) minExponent

/-- The number nearest to a quotient with a positive denominator. -/
def ofRatio (negative : Bool) (num den : Nat) : Binary64 :=
  if num == 0 then .finite negative 0 minExponent
  else
    let exponent := exponentFor num den
    let mantissa := scaled num den exponent
    let (mantissa, exponent) := if mantissa == Nat.pow 2 53 then
      (Nat.pow 2 52, exponent + 1) else (mantissa, exponent)
    if maxExponent < exponent then .infinite negative else .finite negative mantissa exponent

def ofQuotient (num : Int) (den : Nat) : Binary64 :=
  ofRatio (num < 0) num.natAbs den

def ofInt (n : Int) : Binary64 :=
  ofQuotient n 1

/-- The number nearest to `digits * 10 ^ exponent`; far exponents are settled without
computing the power. -/
def ofDecimal (negative : Bool) (digits : Nat) (exponent : Int) : Binary64 :=
  let size : Int := (Text.ofNat digits).length + exponent
  if digits == 0 || size < -400 then .finite negative 0 minExponent
  else if 400 < size then .infinite negative
  else if exponent < 0 then ofRatio negative digits (Nat.pow 10 exponent.natAbs)
  else ofRatio negative (digits * Nat.pow 10 exponent.toNat) 1

/-- The value of a finite number as a quotient of integers. -/
def ratio? : Binary64 → Option (Int × Nat)
  | .finite negative mantissa exponent =>
    let sign : Int := if negative then -1 else 1
    some (if exponent < 0 then (sign * mantissa, Nat.pow 2 exponent.natAbs) else
      (sign * (mantissa * Nat.pow 2 exponent.toNat : Nat), 1))
  | _ => none

/-- The whole part of a finite number, toward zero. -/
def truncate? (x : Binary64) : Option Int :=
  x.ratio?.map fun (num, den) => Int.tdiv num den

/-- The integer that a finite number is, if it is one. -/
def toInt? (x : Binary64) : Option Int :=
  x.ratio?.bind fun (num, den) => if Int.tmod num den == 0 then some (Int.tdiv num den) else none

/-- The number is not zero; NaN is not. -/
def isNonzero : Binary64 → Bool
  | .finite _ mantissa _ => mantissa != 0
  | _ => true

/-- The sum of two finite numbers, rounded. -/
def add? (x y : Binary64) : Option Binary64 :=
  x.ratio?.bind fun (a, b) => y.ratio?.map fun (c, d) => ofQuotient (a * d + c * b) (b * d)

/-- The product of a finite number and an integer, rounded. -/
def scale? (x : Binary64) (n : Int) : Option Binary64 :=
  x.ratio?.map fun (a, b) => ofQuotient (a * n) b

example : ofQuotient 1 10 = .finite false 7205759403792794 (-56) := by decide +kernel

example : ofInt (2 ^ 53 + 1) = .finite false (2 ^ 52) 1 := by decide +kernel

example : ofDecimal false 5 (-324) = .finite false 1 (-1074) ∧
    ofDecimal false 2 308 = .infinite false := by decide +kernel

end Binary64
end Checklist
