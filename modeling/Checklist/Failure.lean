/-! # Failures

Task text never fails to parse for its shape. What can fail is arithmetic: a run of digits that
names no number, a day or an instant beyond the calendar, a placeholder without a span. Each cause
is named here once; the operations say where it arises. -/

namespace Checklist
set_option autoImplicit false

/-- Why an operation on well-typed data has no result. -/
inductive Failure where
  /-- Digits that name no number, one being no decimal digit or there being too many of them, or a
  number of too many digits. -/
  | unreadableNumber
  /-- A placeholder whose number belongs to no stored span. -/
  | missingSpan
  /-- A day or an instant outside the years that have timestamps. -/
  | yearOutOfRange
  /-- A count of days that leaves the calendar. -/
  | dayOutOfRange
  /-- An instant that fits no machine clock. -/
  | instantOutOfRange
  /-- An instant whose year fits no machine calendar. -/
  | clockOutOfRange
  /-- A weekday number without a weekday. -/
  | noSuchWeekday
  /-- A priority outside the five levels. -/
  | noSuchPriority
  /-- Keys of a mapping that have no common order or no written form. -/
  | unorderedKeys
  /-- A value that holds itself was to be written. -/
  | endless
  /-- The oldest entry of an empty cache was to be dropped. -/
  | emptyCache
  deriving DecidableEq, Repr

end Checklist
