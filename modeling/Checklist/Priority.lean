import Checklist.Text.Basic
import Checklist.Text.Lower
import Checklist.Failure

/-! # Priorities

Five levels, from 1, the lowest, to 5. A level is written as a symbol, a letter in brackets, a word
in any case, or its number. -/

namespace Checklist.Priority
set_option autoImplicit false
open Text

/-- The mark that asks for the emoji form of a symbol; it is no part of the symbol. -/
def variationSelector : Char := '\ufe0f'

def plain (s : Text) : Text :=
  s.filter (· != variationSelector)

def symbols : List (Text × Nat) :=
  [("⏬".toList, 1), ("🔽".toList, 2), ("🔼".toList, 3), ("⏫".toList, 4), ("🔺".toList, 5)]

/-- The letters in brackets: A is the highest, and what lies below C counts as C. -/
def letters : List (Char × Nat) :=
  [('A', 5), ('B', 3), ('C', 1), ('D', 1), ('E', 1)]

/-- The words for the levels; the first five are the names, the rest are further words for them. -/
def levelWords : List (Text × Nat) :=
  [("lowest".toList, 1), ("low".toList, 2), ("medium".toList, 3), ("high".toList, 4),
   ("highest".toList, 5), ("trivial".toList, 1), ("minor".toList, 2), ("normal".toList, 3),
   ("moderate".toList, 3), ("important".toList, 4), ("urgent".toList, 5), ("critical".toList, 5)]

def bracketLevel? (s : Text) : Option Nat :=
  match s with
  | ['[', '#', letter, ']'] => letters.lookup letter.toUpper
  | _ => none

/-- The level itself, if it is one of the five. -/
def inRange? (n : Int) : Option Nat :=
  if 1 ≤ n ∧ n ≤ 5 then some n.toNat else none

/-- The level that a text names; a text of digits that is no number fails. -/
def resolve (s : Text) : Except Failure (Option Nat) :=
  let text := plain (trim s)
  match symbols.lookup text, bracketLevel? text, levelWords.lookup (lower text) with
  | some level, _, _ => .ok level
  | none, some level, _ => .ok level
  | none, none, some level => .ok level
  | none, none, none =>
    let digits := lower text
    if !digits.isEmpty && digits.all isDigit then
      match readNat? digits with
      | some n => .ok (inRange? n)
      | none => .error .unreadableNumber
    else .ok none

def isWord (s : Text) : Bool :=
  (levelWords.lookup (lower (trim s))).isSome

def symbol? (level : Int) : Option Text :=
  (symbols.find? fun entry => (entry.2 : Int) == level).map (·.1)

def name? (level : Int) : Option Text :=
  (levelWords.find? fun entry => (entry.2 : Int) == level).map (·.1)

end Checklist.Priority
