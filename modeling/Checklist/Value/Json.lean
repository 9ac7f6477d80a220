import Checklist.Value.Basic
import Checklist.Number.Shortest

/-! # JSON

Reading and writing values as JSON. A reader takes the rest of the text to a value and what follows
it; objects become mappings with text keys, and of two equal keys the last one counts. Besides the
standard's numbers, `NaN` and the infinities are read and written. -/

namespace Checklist.Json
set_option autoImplicit false
open Text

/-- Why a text is no JSON value. -/
inductive Error where
  | malformed
  | hugeNumber
  deriving DecidableEq, Repr

/-! ## Reading -/

def isSpace (c : Char) : Bool :=
  c == ' ' || c == '\t' || c == '\n' || c == '\r'

def skip (s : Text) : Text :=
  s.dropWhile isSpace

def hexValue? (c : Char) : Option Nat :=
  if '0' ≤ c && c ≤ '9' then some (c.toNat - 48)
  else if 'a' ≤ c && c ≤ 'f' then some (c.toNat - 87)
  else if 'A' ≤ c && c ≤ 'F' then some (c.toNat - 55)
  else none

def hexFour? (s : Text) : Option (Nat × Text) :=
  match s with
  | a :: b :: c :: d :: rest => do
    return ((← hexValue? a) * 4096 + (← hexValue? b) * 256 + (← hexValue? c) * 16 + (← hexValue? d),
      rest)
  | _ => none

def escapes : List (Char × Char) :=
  [('"', '"'), ('\\', '\\'), ('/', '/'), ('b', '\x08'), ('f', '\x0c'), ('n', '\n'), ('r', '\r'),
   ('t', '\t')]

/-- The character of a number; a half of a pair that stands alone becomes the
replacement character. -/
def charOf (code : Nat) : Char :=
  if 0xd800 ≤ code && code < 0xe000 then '\ufffd' else Char.ofNat code

/-- The character of an escape by number: two halves make one character. -/
def numbered? (s : Text) : Option (Char × Text) := do
  let (high, rest) ← hexFour? s
  match rest with
  | '\\' :: 'u' :: more =>
    match hexFour? more with
    | some (low, after) =>
      if 0xd800 ≤ high && high < 0xdc00 && 0xdc00 ≤ low && low < 0xe000 then
        return (Char.ofNat (0x10000 + (high - 0xd800) * 1024 + (low - 0xdc00)), after)
      else return (charOf high, rest)
    | none => return (charOf high, rest)
  | _ => return (charOf high, rest)

/-- The characters of a string after its opening quote; every step reads at least one. -/
def string? : Nat → Text → Option (Text × Text)
  | 0, _ => none
  | _, [] => none
  | fuel + 1, c :: rest =>
    if c == '"' then some ([], rest)
    else if c == '\\' then
      match rest with
      | [] => none
      | e :: after =>
        let read := if e == 'u' then numbered? after else (escapes.lookup e).map fun c => (c, after)
        read.bind fun (c, after) => (string? fuel after).map fun (s, after) => (c :: s, after)
    else if c.toNat < 32 then none
    else (string? fuel rest).map fun (s, after) => (c :: s, after)

def isDigit (c : Char) : Bool :=
  '0' ≤ c && c ≤ '9'

/-- The digits of the whole part of a number: no zero before other digits. -/
def whole? (s : Text) : Option (Text × Text) :=
  match s with
  | '0' :: rest => some (['0'], rest)
  | _ => if (s.takeWhile isDigit).isEmpty then
      none else some (s.takeWhile isDigit, s.dropWhile isDigit)

/-- The fraction of a number, if there is one. -/
def fraction (s : Text) : Text × Text :=
  match s with
  | '.' :: rest => if (rest.takeWhile isDigit).isEmpty then
      ([], s) else (rest.takeWhile isDigit, rest.dropWhile isDigit)
  | _ => ([], s)

/-- The exponent of a number, if there is one. -/
def exponent? (s : Text) : Option Int × Text :=
  match s with
  | mark :: rest =>
    let (sign, digits) : Int × Text := match rest with
      | '-' :: digits => (-1, digits)
      | '+' :: digits => (1, digits)
      | _ => (1, rest)
    if (mark == 'e' || mark == 'E') && !(digits.takeWhile isDigit).isEmpty then
      (some (sign * digitsValue (digits.takeWhile isDigit)), digits.dropWhile isDigit)
    else (none, s)
  | [] => (none, s)

/-- A number: an integer unless it has a fraction or an exponent. -/
def number (s : Text) : Except Error (Value × Text) :=
  let (negative, unsigned) := match s with
    | '-' :: rest => (true, rest)
    | _ => (false, s)
  match whole? unsigned with
  | none => .error .malformed
  | some (whole, rest) =>
    let (fractionDigits, rest) := fraction rest
    let (power, rest) := exponent? rest
    if fractionDigits.isEmpty && power.isNone then
      if digitLimit < whole.length then .error .hugeNumber
      else .ok (.int (if negative then -(digitsValue whole : Int) else digitsValue whole), rest)
    else
      .ok (.float (Binary64.ofDecimal negative (digitsValue (whole ++ fractionDigits))
        (power.getD 0 - fractionDigits.length)), rest)

def wordValues : List (Text × Value) :=
  [("null".toList, .null), ("true".toList, .bool true), ("false".toList, .bool false),
   ("NaN".toList, .float .nan), ("Infinity".toList, .float (.infinite false)),
   ("-Infinity".toList, .float (.infinite true))]

def word? (s : Text) : Option (Value × Text) :=
  (wordValues.find? fun entry => entry.1.isPrefixOf s).map fun entry =>
    (entry.2, s.drop entry.1.length)

mutual

/-- A value at the start of a text; every nested value is shorter, so the length of the text is
fuel enough. -/
def value : Nat → Text → Except Error (Value × Text)
  | 0, _ => .error .malformed
  | fuel + 1, s =>
    match s with
    | '"' :: rest => match string? (rest.length + 1) rest with
      | some (text, rest) => .ok (.str text, rest)
      | none => .error .malformed
    | '[' :: rest => match skip rest with
      | ']' :: rest => .ok (.list [], rest)
      | rest => (items fuel rest).map fun (items, rest) => (.list items, rest)
    | '\x7b' :: rest => match skip rest with
      | '\x7d' :: rest => .ok (.map [], rest)
      | rest => (members fuel rest).map fun (entries, rest) => (.map (Entries.ofList entries), rest)
    | _ => match word? s with
      | some found => .ok found
      | none => number s

def items : Nat → Text → Except Error (List Value × Text)
  | 0, _ => .error .malformed
  | fuel + 1, s => do
    let (item, rest) ← value fuel s
    match skip rest with
    | ',' :: rest => do
      let (more, rest) ← items fuel (skip rest)
      return (item :: more, rest)
    | ']' :: rest => return ([item], rest)
    | _ => .error .malformed

def members : Nat → Text → Except Error (Entries × Text)
  | 0, _ => .error .malformed
  | fuel + 1, s =>
    match s with
    | '"' :: rest => match string? (rest.length + 1) rest with
      | none => .error .malformed
      | some (key, rest) => match skip rest with
        | ':' :: rest => do
          let (member, rest) ← value fuel (skip rest)
          match skip rest with
          | ',' :: rest => do
            let (more, rest) ← members fuel (skip rest)
            return ((.str key, member) :: more, rest)
          | '\x7d' :: rest => return ([(.str key, member)], rest)
          | _ => .error .malformed
        | _ => .error .malformed
    | _ => .error .malformed

end

def read (s : Text) : Except Error Value := do
  let (v, rest) ← value (2 * s.length + 2) (skip s)
  if (skip rest).isEmpty then return v else .error .malformed

/-! ## Writing -/

/-- How values are written: escaped to ASCII or not, keys sorted or in their order, on one line or
one item a line, with other kinds of value shown as text or refused. -/
structure Style where
  ascii : Bool
  sorted : Bool
  indented : Bool
  showsOthers : Bool

/-- One line in ASCII with sorted keys, for comparing values. -/
def Style.canonical : Style := ⟨true, true, false, true⟩

/-- One item a line, for reading. -/
def Style.report : Style := ⟨false, false, true, false⟩

def escaped (code : Nat) : Text :=
  let digits := Nat.toDigits 16 code
  "\\u".toList ++ List.replicate (4 - digits.length) '0' ++ digits

def writeChar (style : Style) (c : Char) : Text :=
  let code := c.toNat
  if c == '"' then "\\\"".toList
  else if c == '\\' then "\\\\".toList
  else if c == '\n' then "\\n".toList
  else if c == '\r' then "\\r".toList
  else if c == '\t' then "\\t".toList
  else if c == '\x08' then "\\b".toList
  else if c == '\x0c' then "\\f".toList
  else if code < 32 then escaped code
  else if style.ascii && 126 < code then
    if code < 0x10000 then escaped code
    else escaped (0xd800 + (code - 0x10000) / 1024) ++ escaped (0xdc00 + (code - 0x10000) % 1024)
  else [c]

def writeText (style : Style) (s : Text) : Text :=
  '"' :: s.flatMap (writeChar style) ++ ['"']

def writeFloat : Binary64 → Text
  | .nan => "NaN".toList
  | .infinite negative => (if negative then "-Infinity" else "Infinity").toList
  | x => x.text

/-- The string that a key becomes; days, moments and octets have none. -/
def keyText? : Value → Option Text
  | .null => some "null".toList
  | .bool b => some (if b then "true" else "false").toList
  | .int n => some (ofInt n)
  | .float x => some (writeFloat x)
  | .str s => some s
  | _ => none

/-- The key is a number, truth values counting as numbers. -/
def isNumber : Value → Bool
  | .float _ => true
  | v => v.integral?.isSome

/-- How far a number is out, infinities being further out than all others, and the quotient that it
is; NaN is none. -/
def extended? : Value → Option (Int × Int × Nat)
  | .float (.infinite negative) => some (if negative then -1 else 1, 0, 1)
  | .float x => x.ratio?.map fun (num, den) => (0, num, den)
  | v => v.integral?.map fun n => (0, n, 1)

/-- The first number does not come after the second; NaN comes after none, and none after it. -/
def numberLe (a b : Value) : Bool :=
  match extended? a, extended? b with
  | some (out, m, d), some (out', n, e) => if out == out' then m * e ≤ n * d else out < out'
  | _, _ => true

/-- The order of keys: texts by their characters, numbers by value; keys of different
kinds have none. -/
def keyLe? (a b : Value) : Option Bool :=
  match a, b with
  | .str s, .str t => some (le s t)
  | _, _ => if isNumber a && isNumber b then some (numberLe a b) else none

/-- The entries in the order of their keys, if any two of them have one. -/
def sortEntries? (entries : List (Value × Text)) : Option (List (Value × Text)) :=
  if entries.all fun a => entries.all fun b => (keyLe? a.1 b.1).isSome || entries.length == 1 then
    some (entries.mergeSort fun a b => (keyLe? a.1 b.1).getD true)
  else none

/-- Items between brackets, on one line or one a line. -/
def bracket (style : Style) (depth : Nat) (opening closing : Char) (parts : List Text) : Text :=
  let line (depth : Nat) : Text := '\n' :: List.replicate (2 * depth) ' '
  if parts.isEmpty then [opening, closing]
  else if style.indented then
    opening :: line (depth + 1) ++ join (',' :: line (depth + 1)) parts ++ line depth ++ [closing]
  else opening :: join ", ".toList parts ++ [closing]

def writeMember (style : Style) (key : Value) (text : Text) : Except Failure Text :=
  match keyText? key with
  | some name => if !key.isWritable then .error .unreadableNumber else
      .ok (writeText style name ++ ": ".toList ++ text)
  | none => .error .unorderedKeys

def writeMembers (style : Style) (written : List (Value × Text)) : Except Failure (List Text) :=
  match if style.sorted then sortEntries? written else some written with
  | none => .error .unorderedKeys
  | some ordered => ordered.mapM fun (key, text) => writeMember style key text

mutual

/-- A value at a depth, a kind of value that JSON lacks being shown by the given function. -/
def writeAt (others : Value → Text) (style : Style) (depth : Nat) : Value → Except Failure Text
  | .null => .ok "null".toList
  | .bool b => .ok (if b then "true" else "false").toList
  | .int n => if (Value.int n).isWritable then .ok (ofInt n) else .error .unreadableNumber
  | .float x => .ok (writeFloat x)
  | .str s => .ok (writeText style s)
  | .list items =>
    do return bracket style depth '[' ']' (← writeItems others style (depth + 1) items)
  | .map entries => do
    return bracket style depth '\x7b' '\x7d'
      (← writeMembers style (← writeEntries others style (depth + 1) entries))
  | .ring _ => .error .endless
  | v =>
    if !style.showsOthers then .error .unorderedKeys
    else if v.isWritable then .ok (writeText style (others v))
    else .error .unreadableNumber

def writeItems (others : Value → Text) (style : Style) (depth : Nat) :
    List Value → Except Failure (List Text)
  | [] => .ok []
  | item :: rest =>
    do return (← writeAt others style depth item) :: (← writeItems others style depth rest)

/-- The entries of a mapping, each key with its written value. -/
def writeEntries (others : Value → Text) (style : Style) (depth : Nat) :
    List (Value × Value) → Except Failure (List (Value × Text))
  | [] => .ok []
  | (key, v) :: rest =>
    do return (key, ← writeAt others style depth v) :: (← writeEntries others style depth rest)

end

end Checklist.Json
