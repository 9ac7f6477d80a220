import Checklist.Number.Binary64

/-! # Shortest decimal notation

The notation of a number is the shortest decimal that reads back as it, and of those the nearest to
it. For one to seventeen digits the two neighbours of the value on that decimal grid are tested in
exact arithmetic; seventeen digits always suffice. -/

namespace Checklist.Binary64
set_option autoImplicit false
open Text

/-- A decimal `digits * 10 ^ exponent`. -/
structure Decimal where
  digits : Nat
  exponent : Int
  deriving DecidableEq, Repr

def Decimal.readsAs (d : Decimal) (x : Binary64) : Bool :=
  ofDecimal false d.digits d.exponent == x

/-- The value divided by a power of ten, as a quotient of natural numbers. -/
def overPower (num den : Nat) (exponent : Int) : Nat × Nat :=
  if exponent < 0 then (num * Nat.pow 10 exponent.natAbs, den)
  else (num, den * Nat.pow 10 exponent.toNat)

/-- The least exponent at which the value has at most the given number of digits
before the point. -/
def gridExponent (num den digits : Nat) : Int :=
  let size := (ofNat (num / den)).length
  if num / den == 0 then
    let small := (ofNat (den / num)).length
    let lead : Int :=
      if num * Nat.pow 10 (small - 1) < den then -(small : Int) else -(small : Int) + 1
    lead + 1 - digits
  else (size : Int) - digits

/-- The neighbours of the value on a decimal grid that read back as it, the nearer one first; of two
equally near the even one. -/
def onGrid (x : Binary64) (num den : Nat) (exponent : Int) : Option Decimal :=
  let (n, d) := overPower num den exponent
  let low : Decimal := ⟨n / d, exponent⟩
  let high : Decimal := ⟨n / d + 1, exponent⟩
  let twice := 2 * (n % d)
  let lowFirst := twice < d || (twice == d && n / d % 2 == 0)
  (if lowFirst then [low, high] else [high, low]).find? (·.readsAs x)

def shortest (x : Binary64) : Decimal :=
  match x.ratio? with
  | none => ⟨0, 0⟩
  | some (num, den) =>
    let num := num.natAbs
    match (List.range 17).findSome? fun digits =>
        onGrid x num den (gridExponent num den (digits + 1)) with
    | some d => d
    | none => ⟨0, 0⟩

def Decimal.stripZeros (d : Decimal) : Decimal :=
  let text := ofNat d.digits
  let zeros := (text.reverse.takeWhile (· == '0')).length
  ⟨d.digits / Nat.pow 10 zeros, d.exponent + zeros⟩

/-- How a number is written: positional while the point stands at most this many places before and
after the first digit, else with an exponent of two or more digits. -/
structure Format where
  placesBefore : Int
  placesAfter : Int

/-- Positional below `10 ^ 16` and from `10 ^ (-4)` on. -/
def format : Format := ⟨16, -4⟩

/-- The digits of a positive decimal with the point in its place; a whole number keeps `.0`. -/
def Decimal.text (d : Decimal) : Text :=
  let digits := ofNat d.digits
  let point : Int := digits.length + d.exponent
  if format.placesAfter < point && point ≤ format.placesBefore then
    if point ≤ 0 then "0.".toList ++ List.replicate point.natAbs '0' ++ digits
    else if digits.length ≤ point.toNat then
      digits ++ List.replicate (point.toNat - digits.length) '0' ++ ".0".toList
    else digits.take point.toNat ++ ['.'] ++ digits.drop point.toNat
  else
    let power := point - 1
    digits.take 1 ++ (if digits.length == 1 then [] else '.' :: digits.drop 1) ++
      ['e', if power < 0 then '-' else '+']
      ++ padNat 2 power.natAbs

def text : Binary64 → Text
  | .nan => "nan".toList
  | .infinite negative => (if negative then "-inf" else "inf").toList
  | .finite negative mantissa exponent =>
    (if negative then ['-'] else []) ++
      (if mantissa == 0 then "0.0".toList else
        (shortest (.finite false mantissa exponent)).stripZeros.text)

/-- The digits and decimal point of a number text, with the power of ten that the digits are to
be scaled by. -/
def scanDigits (s : Text) : Option (Nat × Int) :=
  let isAscii := fun c : Char => '0' ≤ c && c ≤ '9'
  let whole := s.takeWhile isAscii
  let fraction := match s.dropWhile isAscii with
    | [] => some []
    | '.' :: rest => if rest.all isAscii then some rest else none
    | _ => none
  fraction.bind fun fraction =>
    if whole.isEmpty && fraction.isEmpty then none
    else some (digitsValue (whole ++ fraction), -(fraction.length : Int))

/-- Reads a number in the notation that `text` writes, and in any decimal notation with a point or
an exponent. -/
def read? (s : Text) : Option Binary64 :=
  let (negative, rest) := match s with
    | '-' :: rest => (true, rest)
    | '+' :: rest => (false, rest)
    | _ => (false, s)
  if rest == "nan".toList then some .nan
  else if rest == "inf".toList then some (.infinite negative)
  else
    let mark := fun c : Char => c == 'e' || c == 'E'
    match scanDigits (rest.takeWhile (!mark ·)), rest.dropWhile (!mark ·) with
    | some (digits, exponent), [] => some (ofDecimal negative digits exponent)
    | some (digits, exponent), _ :: power =>
      (readInt? power).map fun power => ofDecimal negative digits (exponent + power)
    | none, _ => none

example : text (ofQuotient 1 10) = "0.1".toList ∧ text (ofInt 3) = "3.0".toList := by decide +kernel

example : text (ofDecimal false 1 16) = "1e+16".toList ∧
    text (ofDecimal false 1 15) = "1000000000000000.0".toList := by decide +kernel

example : text (ofDecimal true 15 (-6)) = "-1.5e-05".toList ∧
    text (ofDecimal false 1 (-4)) = "0.0001".toList := by decide +kernel

example : text (.finite false 1 (-1074)) = "5e-324".toList := by decide +kernel

end Checklist.Binary64
