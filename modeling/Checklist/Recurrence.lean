import Checklist.Text.Basic
import Checklist.Text.Lower
import Checklist.Failure

/-! # Recurrence phrases

A phrase such as `every 2 weeks`, `weekly` or `every monday when done` is read into a rule. A phrase
of another shape is kept as it stands. -/

namespace Checklist
set_option autoImplicit false
open Text

/-- A step of the calendar. -/
inductive Recurrence.Unit where
  | day
  | week
  | month
  | year
  deriving DecidableEq, Repr

/-- Every `interval` units, or every week on a weekday, counted from 0 for Monday. -/
structure Recurrence.Rule where
  unit : Recurrence.Unit
  interval : Int
  weekday : Option Int
  whenDone : Bool
  deriving DecidableEq, Repr

/-- A rule, or a phrase of another shape. -/
inductive Recurrence where
  | rule (r : Recurrence.Rule)
  | phrase (s : Text)
  deriving DecidableEq, Repr

namespace Recurrence

def Unit.name : Unit → Text
  | .day => "day".toList
  | .week => "week".toList
  | .month => "month".toList
  | .year => "year".toList

def weekdays : List Text :=
  ["monday".toList, "tuesday".toList, "wednesday".toList, "thursday".toList, "friday".toList,
   "saturday".toList, "sunday".toList]

def unit? (word : Text) : Option Unit :=
  [Unit.day, .week, .month, .year].find? fun unit => word == unit.name || word == unit.name ++ ['s']

def adverb? (word : Text) : Option Unit :=
  [("daily".toList, Unit.day), ("weekly".toList, .week), ("monthly".toList, .month),
   ("yearly".toList, .year), ("annually".toList, .year)].lookup word

/-- A weekday by its name, or by the first three or more letters of it, in the singular or
the plural. -/
def weekday? (word : Text) : Option Nat :=
  let stem := trimEndWhere (· == 's') word
  weekdays.findIdx? fun name => stem == name || (3 ≤ stem.length && stem.isPrefixOf name)

/-- A phrase without a final `when done`, and whether it had one. -/
def splitWhenDone (text : Text) : Text × Bool :=
  let ending := " when done".toList
  if ending.isSuffixOf text then (text.take (text.length - ending.length), true) else (text, false)

/-- The unit word: letters only. -/
def isUnitWord (word : Text) : Bool :=
  !word.isEmpty && word.all fun c => 'a' ≤ c && c ≤ 'z'

/-- The interval that `every` is followed by. -/
inductive Interval where
  | once
  | other
  | counted (digits : Text)

/-- The words of a phrase: the interval and the unit word after `every`. -/
def every? (text : Text) : Option (Interval × Text) :=
  match words text with
  | [first, word] => if first == "every".toList && isUnitWord word then some (.once, word) else none
  | [first, count, word] =>
    if first == "every".toList && isUnitWord word then
      if count == "other".toList then some (.other, word)
      else if count.all isDecimal then some (.counted count, word) else none
    else none
  | _ => none

def Interval.count : Interval → Except Failure Nat
  | .once => .ok 1
  | .other => .ok 2
  | .counted digits => match readNat? digits with
    | some n => .ok n
    | none => .error .unreadableNumber

/-- Reads a phrase; blank text is no phrase, and an interval of zero makes no rule. -/
def parse (s : Text) : Except Failure (Option Recurrence) := do
  let whole := trim s
  if whole.isEmpty then return none
  let (text, whenDone) := splitWhenDone (squeeze (lower whole))
  match adverb? text with
  | some unit => return some (.rule ⟨unit, 1, none, whenDone⟩)
  | none =>
    match every? text with
    | none => return some (.phrase whole)
    | some (interval, word) =>
      match unit? word, weekday? word, interval with
      | some unit, _, _ =>
        let count ← interval.count
        return some (if count < 1 then .phrase whole else .rule ⟨unit, count, none, whenDone⟩)
      | none, some weekday, .once => return some (.rule ⟨.week, 1, some weekday, whenDone⟩)
      | none, _, _ => return some (.phrase whole)

/-- The name of a weekday; a negative number counts from the end of the week. -/
def weekdayName (number : Int) : Except Failure Text :=
  let index := if number < 0 then number + weekdays.length else number
  match if index < 0 then none else weekdays[index.toNat]? with
  | some name => .ok name
  | none => .error .noSuchWeekday

def Rule.phrase (rule : Rule) : Except Failure Text := do
  let start ← match rule.weekday with
    | some number => do pure ("every ".toList ++ (← weekdayName number))
    | none =>
      if rule.interval == 1 then pure ("every ".toList ++ rule.unit.name)
      else pure ("every ".toList ++ ofInt rule.interval ++ [' '] ++ rule.unit.name ++ ['s'])
  return start ++ (if rule.whenDone then " when done".toList else [])

def text : Recurrence → Except Failure Text
  | .rule r => r.phrase
  | .phrase s => .ok s

end Recurrence
end Checklist
