import Checklist.Value.Display
import Checklist.Calendar.DateText
import Checklist.Priority
import Checklist.Recurrence

/-! # What a value means for a field

A value of a note header is read as a date, a level, a recurrence or a text. Days and moments are
dates as they are and integers are timestamps; other values count by their text, and one that cannot
be written fails. -/

namespace Checklist.Value
set_option autoImplicit false
open Text

def timestamp? (today : Date) : Value → Except Failure (Option Int)
  | .null | .bool _ => .ok none
  | .int n => .ok (some n)
  | .date d => (Moment.ofDate d).timestamp.map some
  | .moment m none => m.timestamp.map some
  | .moment m (some offset) => .ok (some (m.timestampAt offset))
  | value => do DateText.resolve today (← value.written)

def level? : Value → Except Failure (Option Nat)
  | .null | .bool _ => .ok none
  | .int n => .ok (Priority.inRange? n)
  | value => do Priority.resolve (← value.written)

def recurrence? (value : Value) : Except Failure (Option Recurrence) := do
  Recurrence.parse (← value.written)

/-- The text that a value means; lists and mappings mean none. -/
def text? : Value → Option Text
  | .list _ | .map _ | .ring _ => none
  | value => if (trim value.display).isEmpty then none else some (trim value.display)

/-- The text that a value means, if it can be written. -/
def writtenText? (value : Value) : Except Failure (Option Text) :=
  value.written.map fun _ => value.text?

end Checklist.Value
