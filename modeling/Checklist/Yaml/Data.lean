import Checklist.Yaml.Node
import Checklist.Value.Json
import Checklist.Value.Basic
import Checklist.Number.Shortest

/-! # YAML as data

The tree of a text becomes a value. A key that merges takes the entries of other mappings over;
entries of the mapping itself come after them and count. The pairs of an ordered mapping are lists
of two. A mapping that merges a mapping around it has no value, and a half of a character that
stands alone is replaced. -/

namespace Checklist.Yaml
set_option autoImplicit false
open Text

namespace Node

/-! ## Scalars -/

/-- The text of a scalar; a mapping with a value key stands for the text under it. -/
def text : Node → Except Error Text
  | .scalar _ s => .ok s
  | .list _ _ => .error .unsupported
  | .map _ entries => find entries
  | .ring _ => .error .endless
where
  /-- The text under the value key. -/
  find : List (Node × Node) → Except Error Text
    | [] => .error .unsupported
    | (.scalar .value _, value) :: _ => text value
    | _ :: rest => find rest

def digitIn? (base : Nat) (c : Char) : Option Nat :=
  ((digitValue? c).or (Json.hexValue? c)).filter (· < base)

/-- A number by its digits, which may follow a sign and a zero with a letter for the base. -/
def inBase (base : Nat) (letter : Char) (s : Text) : Except Error Int :=
  let s := trim s
  let digits := match Tag.unsigned s with
    | '0' :: mark :: rest => if mark.toLower == letter && !rest.isEmpty then
        rest else '0' :: mark :: rest
    | rest => rest
  match digits.isEmpty, digits.mapM (digitIn? base) with
  | false, some values =>
    let n : Nat := values.foldl (fun n d => base * n + d) 0
    .ok (if s.head? == some '-' then -n else n)
  | _, _ => .error .noSuchValue

def sixtieths (places : List Int) : Int :=
  places.foldl (fun n place => 60 * n + place) 0

def decimal (s : Text) : Except Error Int :=
  match readInt? s with
  | some n => .ok n
  | none => .error .noSuchValue

def magnitude (s : Text) : Except Error Int :=
  match s with
  | [] => .error .emptyNumber
  | ['0'] => .ok 0
  | '0' :: 'b' :: digits => inBase 2 'b' digits
  | '0' :: 'x' :: digits => inBase 16 'x' digits
  | '0' :: digits => inBase 8 'o' ('0' :: digits)
  | _ =>
    if s.contains ':' then do return sixtieths (← (splitAt ':' s).mapM decimal)
    else decimal s

def integer (s : Text) : Except Error Value :=
  let s := s.filter (· != '_')
  if s.isEmpty then .error .emptyNumber
  else do
    let n ← magnitude (Tag.unsigned s)
    return .int (if s.head? == some '-' then -n else n)

def negate : Binary64 → Binary64
  | .nan => .nan
  | .infinite negative => .infinite !negative
  | .finite negative mantissa exponent => .finite (!negative) mantissa exponent

/-- The sum of two numbers; opposite infinities have none. -/
def plus (x y : Binary64) : Binary64 :=
  match x, y with
  | .finite _ _ _, .finite _ _ _ => (x.add? y).getD .nan
  | .infinite _, .finite _ _ _ => x
  | .finite _ _ _, .infinite _ => y
  | .infinite a, .infinite b => if a == b then x else .nan
  | _, _ => .nan

/-- A place of a floating-point number in base 60 times its weight, which must be a
number itself. -/
def weighed (weight : Int) (place : Binary64) : Except Error Binary64 :=
  match (Binary64.ofInt weight).toInt? with
  | none => .error .overflow
  | some weight => .ok ((place.scale? weight).getD place)

/-- The places of a floating-point number in base 60 as one number; the last place counts least. -/
def floatSixtieths (places : List Binary64) : Except Error Binary64 := do
  let (sum, _) ← places.reverse.foldlM (fun ((sum, weight) : Binary64 × Int) place => do
    return (plus sum (← weighed weight place), 60 * weight)) (.zero, 1)
  return sum

def floatMagnitude (s : Text) : Except Error Binary64 :=
  if s == ".inf".toList then .ok (.infinite false)
  else if s == ".nan".toList then .ok .nan
  else
    let read (s : Text) : Except Error Binary64 := match Binary64.read? (trim s) with
      | some x => .ok x
      | none => .error .noSuchValue
    if s.contains ':' then do floatSixtieths (← (splitAt ':' s).mapM read)
    else read s

def floating (s : Text) : Except Error Value :=
  let s := lower (s.filter (· != '_'))
  if s.isEmpty then .error .emptyNumber
  else do
    let x ← floatMagnitude (Tag.unsigned s)
    return .float (if s.head? == some '-' then negate x else x)

def truth (s : Text) : Except Error Value :=
  match Tag.truthWords.lookup (lower s) with
  | some b => .ok (.bool b)
  | none => .error .noSuchWord

/-- The offset of a moment in microseconds, which is less than a day. -/
def offsetOf (negative : Bool) (hour minute : Text) : Except Error Int :=
  let minutes : Int := 60 * digitsValue hour + digitsValue minute
  if minutes < 1440 then .ok ((if negative then -minutes else minutes) * 60000000)
  else .error .noSuchValue

def stamp (s : Text) : Except Error Value :=
  match Tag.stamp? s with
  | none => .error .noMoment
  | some stamp =>
    match Date.of? (digitsValue stamp.year) (digitsValue stamp.month) (digitsValue stamp.day),
        stamp.time with
    | none, _ => .error .noSuchValue
    | some date, none => .ok (.date date)
    | some date, some (hour, minute, second) => do
      let micro := digitsValue ((stamp.fraction ++ List.replicate 6 '0').take 6)
      let offset ← match stamp.offset with
        | none => pure none
        | some (negative, hour, minute) => do pure (some (← offsetOf negative hour minute))
      match Moment.of? date (digitsValue hour) (digitsValue minute) (digitsValue second) micro with
      | some moment => return .moment moment offset
      | none => throw .noSuchValue

/-- The six bits that a character of binary data stands for. -/
def sixBits? (c : Char) : Option Nat :=
  if 'A' ≤ c && c ≤ 'Z' then some (c.toNat - 65)
  else if 'a' ≤ c && c ≤ 'z' then some (c.toNat - 71)
  else if c.isDigit then some (c.toNat + 4)
  else if c == '+' then some 62
  else if c == '/' then some 63
  else none

/-- The octets that groups of six bits make up, four groups at a time; the last ones may be
two or three. -/
def octets : List Nat → Except Error (List UInt8)
  | a :: b :: c :: d :: rest => do
    let more ← octets rest
    return UInt8.ofNat (4 * a + b / 16) :: UInt8.ofNat (16 * b + c / 4) ::
      UInt8.ofNat (64 * c + d) :: more
  | [a, b, c] => .ok [UInt8.ofNat (4 * a + b / 16), UInt8.ofNat (16 * b + c / 4)]
  | [a, b] => .ok [UInt8.ofNat (4 * a + b / 16)]
  | [_] => .error .unsupported
  | [] => .ok []

/-- The groups of six bits in binary data: characters that stand for none are passed over, and
equals signs in a row fill up a last group of two or three. -/
def groupsFrom (count fill : Nat) : Text → Except Error (List Nat)
  | [] => if count % 4 == 0 then .ok [] else .error .unsupported
  | '=' :: rest =>
    if 2 ≤ count % 4 then
      if 4 ≤ count % 4 + fill + 1 then .ok [] else groupsFrom count (fill + 1) rest
    else groupsFrom count fill rest
  | c :: rest => match sixBits? c with
    | none => groupsFrom count fill rest
    | some bits => do return bits :: (← groupsFrom (count + 1) 0 rest)

def binary (s : Text) : Except Error Value := do
  if s.any fun c => 128 ≤ c.toNat then throw .unsupported
  return .bytes (← octets (← groupsFrom 0 0 s))

def scalarValue (tag : Tag) (s : Text) : Except Error Value :=
  match tag with
  | .null => .ok .null
  | .bool => truth s
  | .int => integer s
  | .float => floating s
  | .binary => binary s
  | .timestamp => stamp s
  | .str => .ok (.str s)
  | _ => .error .unsupported

/-! ## Merging -/

/-- The entries of what is merged, whose own merges are done: a mapping, or mappings of which the
first ones count. -/
def mergedFrom : Node → Except Error (List (Node × Node))
  | .map _ entries => .ok entries
  | .list _ items => items.foldrM (fun item merged => match item with
    | .map _ entries => .ok (merged ++ entries)
    | .ring true => .error .endless
    | _ => .error .unsupported) []
  | .ring _ => .error .endless
  | .scalar _ _ => .error .unsupported

/-- The entries of a mapping with those merged into it before its own; a value key among
them is a text. -/
def mergeEntries (entries : List (Node × Node)) : Except Error (List (Node × Node)) := do
  let merged ← entries.mapM fun
    | (.scalar .merge _, value) => mergedFrom value
    | _ => .ok []
  return merged.flatten ++ entries.filterMap fun (key, value) => match key with
    | .scalar .merge _ => none
    | .scalar .value s => some (.scalar .str s, value)
    | _ => some (key, value)

mutual

def merge : Node → Except Error Node
  | .scalar tag s => .ok (.scalar tag s)
  | .list tag items => do return .list tag (← mergeItems items)
  | .map tag entries => do
    let entries ← mergePairs entries
    return .map tag (← if tag == .map || tag == .set then mergeEntries entries else pure entries)
  | .ring isMapping => .ok (.ring isMapping)

def mergeItems : List Node → Except Error (List Node)
  | [] => .ok []
  | item :: rest => do return (← merge item) :: (← mergeItems rest)

/-- The entries of a mapping with all merges within them done. -/
def mergePairs : List (Node × Node) → Except Error (List (Node × Node))
  | [] => .ok []
  | (key, value) :: rest => do return (← merge key, ← merge value) :: (← mergePairs rest)

end

/-! ## Collections -/

mutual

def toValue : Node → Except Error Value
  | .scalar tag s => scalarValue tag s
  | .list tag items => do
    match tag with
    | .list => return .list (← toValues items)
    | .orderedMap | .pairs => return .list (← toPairs items)
    | _ => throw .unsupported
  | .map tag entries => do
    match tag with
    | .map => return .map (Entries.ofList (← toEntries entries))
    | .set => return .set ((Entries.ofList (← toEntries entries)).map (·.1))
    | _ => scalarValue tag (← text (.map tag entries))
  | .ring isMapping => .ok (.ring isMapping)

def toValues : List Node → Except Error (List Value)
  | [] => .ok []
  | item :: rest => do return (← toValue item) :: (← toValues rest)

/-- The values of the entries of a mapping; a collection is no key. -/
def toEntries : List (Node × Node) → Except Error (List (Value × Value))
  | [] => .ok []
  | (key, value) :: rest => do
    let key ← toValue key
    if !key.isKey then throw .unsupported
    return (key, ← toValue value) :: (← toEntries rest)

/-- The pairs that a list of mappings of one entry makes up. -/
def toPairs : List Node → Except Error (List Value)
  | [] => .ok []
  | .map _ [(key, value)] :: rest =>
    do return .list [← toValue key, ← toValue value] :: (← toPairs rest)
  | .ring true :: _ => .error .endless
  | _ :: _ => .error .unsupported

end

end Node

/-- A way to read data in YAML: the value that a text describes. -/
abbrev Loader := Text → Except Error Value

/-- The value that a text describes; an empty text is null. However deep the data nest, they are
loaded: a loader with a limit to that is another one, which gives up on deeper data. -/
def load (dialect : Dialect) : Loader := fun s => do
  match ← Node.ofText dialect s with
  | none => return .null
  | some node => (← node.merge).toValue

end Checklist.Yaml
