import Checklist.Calendar.Moment

/-! # Values of user data

Settings, note headers and project files hold data of no fixed shape: scalars, days and moments,
lists, and mappings whose keys are scalars of any kind. A mapping keeps the order in which its keys
came. A list or a mapping may hold itself; the value is then a tree that is cut off where it would
begin again. -/

namespace Checklist
set_option autoImplicit false
open Text

/-- A value of user data. A moment may lie a number of microseconds east of universal time. -/
inductive Value where
  | null
  | bool (b : Bool)
  | int (n : Int)
  | float (x : Binary64)
  | str (s : Text)
  | bytes (octets : List UInt8)
  | date (d : Date)
  | moment (m : Moment) (offset : Option Int)
  | list (items : List Value)
  | set (items : List Value)
  | map (entries : List (Value × Value))
  /-- A mapping or a list that the place lies in. -/
  | ring (isMapping : Bool)
  deriving Repr

/-- The entries of a mapping, in the order in which their keys came. -/
abbrev Entries := List (Value × Value)

namespace Value

/-- The integer that a number is equal to, truth values counting as 0 and 1. -/
def integral? : Value → Option Int
  | .bool b => some (if b then 1 else 0)
  | .int n => some n
  | .float x => x.toInt?
  | _ => none

/-- Two values are the same key: numbers of equal value are, whatever their kind, and so are moments
of one instant. A float that is no number is the same key as itself. -/
def sameKey (a b : Value) : Bool :=
  match a.integral?, b.integral? with
  | some m, some n => m == n
  | some _, none => false
  | none, some _ => false
  | none, none => match a, b with
    | .null, .null => true
    | .float x, .float y => x == y
    | .str s, .str t => s == t
    | .bytes s, .bytes t => s == t
    | .date d, .date e => d == e
    | .moment m none, .moment n none => m == n
    | .moment m (some o), .moment n (some p) =>
      m.seconds * 1000000 + m.micro - o == n.seconds * 1000000 + n.micro - p
    | _, _ => false

/-- A value that is kept as a key is found again as the other one; collections, which are no keys,
are not told apart. -/
def isFoundAs (a b : Value) : Bool :=
  a.sameKey b || !a.sameKey a && !b.sameKey b

def isKey : Value → Bool
  | .list _ | .set _ | .map _ | .ring _ => false
  | _ => true

/-- The text that a value is, if it is one. -/
def str? : Value → Option Text
  | .str s => some s
  | _ => none

def isNull : Value → Bool
  | .null => true
  | _ => false

/-- The value counts as given: it is not null, false, zero or empty. -/
def isGiven : Value → Bool
  | .null => false
  | .bool b => b
  | .int n => n != 0
  | .float x => x.isNonzero
  | .str s => !s.isEmpty
  | .bytes octets => !octets.isEmpty
  | .date _ | .moment _ _ | .ring _ => true
  | .list items | .set items => !items.isEmpty
  | .map entries => !entries.isEmpty

mutual

/-- Every integer in a value has few enough digits to be written. -/
def isWritable : Value → Bool
  | .int n => (ofNat n.natAbs).length ≤ digitLimit
  | .list items | .set items => areWritable items
  | .map entries => areWritableEntries entries
  | _ => true

def areWritable : List Value → Bool
  | [] => true
  | item :: rest => isWritable item && areWritable rest

def areWritableEntries : List (Value × Value) → Bool
  | [] => true
  | (key, value) :: rest => isWritable key && isWritable value && areWritableEntries rest

end

end Value

namespace Entries

def get? (entries : Entries) (key : Value) : Option Value :=
  (entries.find? fun entry => entry.1.sameKey key).map (·.2)

def getText? (entries : Entries) (key : Text) : Option Value :=
  entries.get? (.str key)

def has (entries : Entries) (key : Value) : Bool :=
  entries.any fun entry => entry.1.sameKey key

/-- Sets a key: a present one keeps its place, a new one comes last. -/
def set (entries : Entries) (key value : Value) : Entries :=
  if entries.has key then entries.map fun entry =>
    if entry.1.sameKey key then (entry.1, value) else entry
  else entries ++ [(key, value)]

/-- Sets the keys of other entries, in their order. -/
def update (entries others : Entries) : Entries :=
  others.foldl (fun merged entry => merged.set entry.1 entry.2) entries

/-- The mapping that the entries make up when they are set one after the other. -/
def ofList (entries : List (Value × Value)) : Entries :=
  update [] entries

end Entries
end Checklist
