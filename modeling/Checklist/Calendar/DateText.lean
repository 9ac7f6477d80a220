import Checklist.Calendar.Moment
import Checklist.Text.Lower

/-! # Dates as they are written

A date is written as a literal, a day with an optional time, or as a keyword relative to today.
Other text is no date. A literal that names no real day is no date either; a day without a timestamp
is a failure. -/

namespace Checklist.DateText
set_option autoImplicit false
open Text

/-! ## Literals -/

/-- Reads the hour of a literal: one or two digits before a colon. -/
def hour? (s : Text) : Option (Nat × Text) :=
  let digits := s.takeWhile isDecimal
  if digits.length == 1 || digits.length == 2 then
    some (digitsValue digits, s.dropWhile isDecimal) else none

/-- Reads the time of a literal: hours, minutes and perhaps seconds. -/
def time? (s : Text) : Option ((Nat × Nat × Nat) × Text) := do
  let (hour, s) ← hour? s
  let (minute, s) ← Date.digits? 2 (← Date.mark? ':' s)
  match (Date.mark? ':' s).bind (Date.digits? 2) with
  | none => return ((hour, minute, 0), s)
  | some (second, s) => return ((hour, minute, second), s)

/-- The parts of a literal: a day, and a time after a blank or `T`. -/
def parts? (s : Text) : Option ((Nat × Nat × Nat) × (Nat × Nat × Nat)) := do
  let (day, rest) ← Date.scan? s
  match rest with
  | [] => return (day, (0, 0, 0))
  | mark :: rest =>
    if mark == ' ' || mark == 'T' then
      let (time, rest) ← time? rest
      if rest.isEmpty then return (day, time) else none
    else none

def moment? (s : Text) : Option Moment := do
  let ((year, month, day), (hour, minute, second)) ← parts? s
  let date ← Date.of? year month day
  Moment.of? date hour minute second 0

def literal (s : Text) : Except Failure (Option Int) :=
  match moment? s with
  | none => .ok none
  | some moment => moment.timestamp.map some

/-! ## Keywords -/

/-- The keywords for a day relative to today. -/
inductive Keyword where
  | today
  | tomorrow
  | yesterday
  | nextWeek
  | lastWeek
  | nextMonth
  | lastMonth
  deriving DecidableEq, Repr

def Keyword.words : Keyword → Text
  | .today => "today".toList
  | .tomorrow => "tomorrow".toList
  | .yesterday => "yesterday".toList
  | .nextWeek => "next week".toList
  | .lastWeek => "last week".toList
  | .nextMonth => "next month".toList
  | .lastMonth => "last month".toList

/-- The keyword that a text is, in any case and with any blanks between its words. -/
def keyword? (s : Text) : Option Keyword :=
  let text := squeeze (lower s)
  [Keyword.today, .tomorrow, .yesterday, .nextWeek, .lastWeek, .nextMonth, .lastMonth].find?
    fun keyword => keyword.words == text

/-- The day that a keyword names: a week starts on its Sunday, a month on its first day. -/
def Keyword.day (today : Date) : Keyword → Except Failure Date
  | .today => .ok today
  | .tomorrow => today.addDays 1
  | .yesterday => today.addDays (-1)
  | .nextWeek => do (← today.addDays 7).startOfWeek
  | .lastWeek => do (← today.addDays (-7)).startOfWeek
  | .nextMonth => today.startOfMonth 1
  | .lastMonth => today.startOfMonth (-1)

def relative (today : Date) (s : Text) : Except Failure (Option Int) :=
  match keyword? s with
  | none => .ok none
  | some keyword => do return some (← (Moment.ofDate (← keyword.day today)).timestamp)

/-! ## Dates -/

/-- The timestamp that a text names, if it is a date. -/
def resolve (today : Date) (s : Text) : Except Failure (Option Int) := do
  let text := trim s
  match ← relative today text with
  | some timestamp => return some timestamp
  | none => literal text

def dayOf (timestamp : Int) : Except Failure Date :=
  (Moment.ofTimestamp timestamp).map Moment.date

end Checklist.DateText
