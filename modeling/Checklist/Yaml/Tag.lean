import Checklist.Yaml.Cursor
import Checklist.Text.Lower

/-! # Tags

A tag says what kind of value a node is. A plain scalar without one gets it from its shape: numbers
may have underscores between their digits and may be written in base 60, and a few words stand for
truth values. -/

namespace Checklist.Yaml
set_option autoImplicit false
open Text

/-- The kinds of value. -/
inductive Tag where
  | null
  | bool
  | int
  | float
  | binary
  | timestamp
  | str
  | list
  | map
  | set
  | orderedMap
  | pairs
  | merge
  | value
  | other
  deriving DecidableEq, Repr

namespace Tag

def common : Text := "tag:yaml.org,2002:".toList

def names : List (Text × Tag) :=
  [("null".toList, .null), ("bool".toList, .bool), ("int".toList, .int), ("float".toList, .float),
   ("binary".toList, .binary), ("timestamp".toList, .timestamp), ("str".toList, .str),
   ("seq".toList, .list), ("map".toList, .map), ("set".toList, .set), ("omap".toList, .orderedMap),
   ("pairs".toList, .pairs), ("merge".toList, .merge), ("value".toList, .value)]

def ofText (s : Text) : Tag :=
  if common.isPrefixOf s then (names.lookup (s.drop common.length)).getD .other else .other

/-! ## Shapes of plain scalars -/

def isGroup (c : Char) : Bool :=
  c.isDigit || c == '_'

def unsigned (s : Text) : Text :=
  match s with
  | c :: rest => if c == '+' || c == '-' then rest else s
  | [] => []

/-- A number in base 60 below 60, in one or two digits. -/
def isSixtieth (s : Text) : Bool :=
  match s with
  | [a] => a.isDigit
  | [a, b] => '0' ≤ a && a ≤ '5' && b.isDigit
  | _ => false

/-- The text starts with a digit of the given range and goes on with digits and underscores. -/
def isWhole (least : Char) (s : Text) : Bool :=
  s.head?.any (fun c => least ≤ c && c ≤ '9') && s.all isGroup

/-- A number in base 60: a whole number and further places. -/
def isSexagesimal (least : Char) (s : Text) : Bool :=
  match splitAt ':' s with
  | whole :: places@(_ :: _) => isWhole least whole && places.all isSixtieth
  | _ => false

/-- The text is not empty and its characters satisfy a condition. -/
def isRun (p : Char → Bool) (s : Text) : Bool :=
  !s.isEmpty && s.all p

/-- An integer: binary, octal, decimal, hexadecimal, or in base 60. -/
def isInt (s : Text) : Bool :=
  match unsigned s with
  | ['0'] => true
  | '0' :: 'b' :: rest => isRun (fun c => c == '0' || c == '1' || c == '_') rest
  | '0' :: 'x' :: rest =>
    isRun (fun c => c.isDigit || ('a' ≤ c && c ≤ 'f') || ('A' ≤ c && c ≤ 'F') || c == '_') rest
  | '0' :: rest => isRun (fun c => ('0' ≤ c && c ≤ '7') || c == '_') rest
  | body => isWhole '1' body || isSexagesimal '1' body

/-- The end of a text is an exponent with a sign, or nothing. -/
def isExponentOrEnd (s : Text) : Bool :=
  match s with
  | [] => true
  | e :: sign :: digits =>
    (e == 'e' || e == 'E') && (sign == '+' || sign == '-') && isRun Char.isDigit digits
  | _ => false

def isFloat (s : Text) : Bool :=
  let body := unsigned s
  ([".inf", ".Inf", ".INF"].map String.toList).contains body ||
    ([".nan", ".NaN", ".NAN"].map String.toList).contains s
    || match cut '.' body with
      | (whole, some fraction) =>
        (isWhole '0' whole && isExponentOrEnd (fraction.dropWhile isGroup))
          || (whole.isEmpty && body == s && fraction.head?.any Char.isDigit &&
            isExponentOrEnd (fraction.dropWhile isGroup))
          || (isSexagesimal '0' whole && fraction.all isGroup)
      | (_, none) => false

/-- The parts of a moment: the day as it is written, and perhaps a time with a fraction
and an offset. -/
structure Stamp where
  year : Text
  month : Text
  day : Text
  time : Option (Text × Text × Text)
  fraction : Text
  offset : Option (Bool × Text × Text)
  deriving DecidableEq, Repr

def oneOrTwo? (s : Text) : Option (Text × Text) :=
  match s with
  | a :: b :: rest => if a.isDigit && b.isDigit then some ([a, b], rest) else if a.isDigit then
      some ([a], b :: rest) else none
  | [a] => if a.isDigit then some ([a], []) else none
  | [] => none

def digits? (count : Nat) (s : Text) : Option (Text × Text) :=
  if (s.take count).length == count && (s.take count).all Char.isDigit then
    some (s.take count, s.drop count) else none

def mark? (mark : Char) (s : Text) : Option Text :=
  match s with
  | c :: rest => if c == mark then some rest else none
  | [] => none

/-- The offset at the end of a moment: `Z`, or hours and perhaps minutes after a sign; the sign is
negative or not. -/
def offset? (s : Text) : Option (Option (Bool × Text × Text)) :=
  match s.dropWhile isGap with
  | [] => if s.isEmpty then some none else none
  | ['Z'] => some (some (false, [], []))
  | sign :: rest =>
    if sign == '+' || sign == '-' then
      match oneOrTwo? rest with
      | some (hour, []) => some (some (sign == '-', hour, []))
      | some (hour, ':' :: minute) => if minute.length == 2 && minute.all Char.isDigit then
          some (some (sign == '-', hour, minute)) else none
      | _ => none
    else none

def stamp? (s : Text) : Option Stamp := do
  let (year, s) ← digits? 4 s
  let (month, s) ← oneOrTwo? (← mark? '-' s)
  let (day, s) ← oneOrTwo? (← mark? '-' s)
  match s with
  | [] => return ⟨year, month, day, none, [], none⟩
  | c :: rest =>
    let s ← if c == 'T' || c == 't' then some rest else if isGap c then
      some (rest.dropWhile isGap) else none
    let (hour, s) ← oneOrTwo? s
    let (minute, s) ← digits? 2 (← mark? ':' s)
    let (second, s) ← digits? 2 (← mark? ':' s)
    let (fraction, s) := match s with
      | '.' :: rest => (rest.takeWhile Char.isDigit, rest.dropWhile Char.isDigit)
      | _ => ([], s)
    return ⟨year, month, day, some (hour, minute, second), fraction, ← offset? s⟩

/-- A moment; a day alone has two digits for month and day. -/
def isTimestamp (s : Text) : Bool :=
  match stamp? s with
  | none => false
  | some stamp => stamp.time.isSome || (stamp.month.length == 2 && stamp.day.length == 2)

/-- The words for truth values, in lower case. -/
def truthWords : List (Text × Bool) :=
  [("yes".toList, true), ("no".toList, false), ("true".toList, true), ("false".toList, false),
   ("on".toList, true), ("off".toList, false)]

/-- A word for a truth value: in lower case, in upper case, or with a capital letter. -/
def isTruth (s : Text) : Bool :=
  truthWords.any fun (word, _) =>
    s == word || s == word.map Char.toUpper || s == (word.take 1).map Char.toUpper ++ word.drop 1

def ofPlain (s : Text) : Tag :=
  if isTruth s then .bool
  else if isFloat s then .float
  else if isInt s then .int
  else if s == "<<".toList then .merge
  else if (["", "~", "null", "Null", "NULL"].map String.toList).contains s then .null
  else if isTimestamp s then .timestamp
  else if s == ['='] then .value
  else .str

end Tag
end Checklist.Yaml
