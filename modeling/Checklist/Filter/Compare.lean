import Checklist.Calendar.DateText
import Checklist.Priority

/-! # Comparisons

A filter compares one property of a task with an operand. Every kind of property has conditions of
its own, and a condition that is none of them holds. Texts are compared in lower case; levels and
days have an order, and a missing one satisfies no condition on the order. Main statements: a
condition and its opposite never agree (`TextTest.holds_isNot`, `Order.holds_isNot`), and the
combination with none is the opposite of the one with any (`combine_none`). -/

namespace Checklist.Filter
set_option autoImplicit false
open Text

/-! ## Combining results -/

/-- How the results of several filters are combined. -/
inductive Combinator where
  | all
  | any
  | none
  deriving DecidableEq, Repr

def Combinator.names : List (Text × Combinator) :=
  [("all".toList, .all), ("any".toList, .any), ("none".toList, .none)]

/-- All results, one of them, or none of them must be true. -/
def Combinator.combine (combinator : Combinator) (results : List Bool) : Bool :=
  match combinator with
  | .all => results.all id
  | .any => results.any id
  | .none => !results.any id

theorem combine_none (results : List Bool) :
    Combinator.none.combine results = !Combinator.any.combine results := rfl

/-! ## Texts -/

/-- A condition on a text. -/
inductive TextTest where
  | contains
  | lacks
  | is
  | isNot
  | startsWith
  | endsWith
  | isEmpty
  | isNotEmpty
  deriving DecidableEq, Repr

def TextTest.names : List (Text × TextTest) :=
  [("contains".toList, .contains), ("doesNotContain".toList, .lacks), ("is".toList, .is),
   ("isNot".toList, .isNot), ("startsWith".toList, .startsWith), ("endsWith".toList, .endsWith),
   ("isEmpty".toList, .isEmpty), ("isNotEmpty".toList, .isNotEmpty)]

/-- The condition holds of a text and an operand in lower case. -/
def TextTest.holds (test : TextTest) (s operand : Text) : Bool :=
  match test with
  | .contains => occursIn operand s
  | .lacks => !occursIn operand s
  | .is => s == operand
  | .isNot => s != operand
  | .startsWith => operand.isPrefixOf s
  | .endsWith => operand.isSuffixOf s
  | .isEmpty => isBlankText s
  | .isNotEmpty => !isBlankText s

theorem TextTest.holds_isNot (s operand : Text) :
    TextTest.isNot.holds s operand = !TextTest.is.holds s operand := rfl

/-- Compares a text; a missing one counts as empty. -/
def compareText (s : Option Text) (condition : Text) (operand : Option Text) : Bool :=
  match TextTest.names.lookup condition with
  | some test => test.holds (lower (s.getD [])) (lower (operand.getD []))
  | none => true

/-! ## Tags -/

/-- A tag without hash signs before it, in lower case. -/
def tagWord (s : Text) : Text :=
  (lower s).dropWhile (· == '#')

/-- Compares tags: one of them contains the operand. -/
def compareTags (tags : List Text) (condition : Text) (operand : Option Text) : Bool :=
  let found := tags.any fun tag => occursIn (tagWord (operand.getD [])) (lower tag)
  match TextTest.names.lookup condition with
  | some .contains => found
  | some .lacks => !found
  | some .isEmpty => tags.isEmpty
  | some .isNotEmpty => !tags.isEmpty
  | _ => true

def compareDone (done : Bool) (condition : Text) : Bool :=
  if condition == "isTrue".toList then done
  else if condition == "isFalse".toList then !done
  else true

/-! ## Levels and days -/

/-- A condition on the order. -/
inductive Order where
  | is
  | isNot
  | above
  | below
  | atLeast
  | atMost
  deriving DecidableEq, Repr

def Order.names : List (Text × Order) :=
  [("is".toList, .is), ("isNot".toList, .isNot), ([ '>' ], .above), ([ '<' ], .below),
   (">=".toList, .atLeast), ("<=".toList, .atMost)]

def Order.holds (order : Order) (a b : Int) : Bool :=
  match order with
  | .is => a == b
  | .isNot => a != b
  | .above => b < a
  | .below => a < b
  | .atLeast => b ≤ a
  | .atMost => a ≤ b

theorem Order.holds_isNot (a b : Int) : Order.isNot.holds a b = !Order.is.holds a b := rfl

/-- Compares something that has an order by a measure. An operand that means nothing satisfies
no condition. -/
def compareOrdered (measure : Int → Except Failure Int)
    (target? : Text → Except Failure (Option Int)) (actual : Option Int)
    (condition : Text) (operand : Option Text) : Except Failure Bool :=
  if condition == "isEmpty".toList then .ok actual.isNone
  else if condition == "isNotEmpty".toList then .ok actual.isSome
  else
    let order := Order.names.lookup condition
    match actual, operand.filter (!·.isEmpty) with
    | some actual, some operand => do
      match ← target? operand with
      | none => return false
      | some target =>
        let actual ← measure actual
        return order.all fun order => order.holds actual target
    | _, _ => .ok order.isNone

def comparePriority (level : Option Int) (condition : Text) (operand : Option Text) :
    Except Failure Bool :=
  compareOrdered .ok (fun s => (Priority.resolve s).map (·.map Int.ofNat)) level condition operand

def dayNumber (timestamp : Int) : Except Failure Int :=
  (DateText.dayOf timestamp).map fun date => (date.number : Int)

def dayNumber? (today : Date) (s : Text) : Except Failure (Option Int) := do
  match ← DateText.resolve today s with
  | none => return none
  | some timestamp => return some (← dayNumber timestamp)

def compareDate (today : Date) (timestamp : Option Int) (condition : Text) (operand : Option Text) :
    Except Failure Bool :=
  compareOrdered dayNumber (dayNumber? today) timestamp condition operand

end Checklist.Filter
