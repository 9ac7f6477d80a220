import Checklist.Value.Basic
import Checklist.Number.Shortest
import Checklist.Text.Printable

/-! # Values as text

A value stands in a line of markup, in a filter operand and in messages as a text: a text as it is,
a number in its shortest notation, a day in its notation. Inside a list or a mapping a text is
quoted, and days and moments are shown by their parts. -/

namespace Checklist.Value
set_option autoImplicit false
open Text

/-- A hexadecimal number in lower case with at least the given number of digits. -/
def hex (width n : Nat) : Text :=
  let digits := Nat.toDigits 16 n
  List.replicate (width - digits.length) '0' ++ digits

/-- A character by its number: two, four or eight hexadecimal digits. -/
def byNumber (code : Nat) : Text :=
  if code < 0x100 then "\\x".toList ++ hex 2 code
  else if code < 0x10000 then "\\u".toList ++ hex 4 code
  else "\\U".toList ++ hex 8 code

/-- A character inside quotes: the quote and the backslash are escaped, and what is not printable is
written by name or number. -/
def quotedChar (quote c : Char) : Text :=
  if c == quote || c == '\\' then ['\\', c]
  else if c == '\t' then "\\t".toList
  else if c == '\n' then "\\n".toList
  else if c == '\r' then "\\r".toList
  else if isPrintable c then [c]
  else byNumber c.toNat

/-- The quote for a text: single quotes, unless only they occur in it. -/
def quoteFor (s : Text) : Char :=
  if s.contains '\'' && !s.contains '"' then '"' else '\''

def quotedText (s : Text) : Text :=
  let quote := quoteFor s
  quote :: s.flatMap (quotedChar quote) ++ [quote]

/-- An octet inside quotes: as the ASCII character that it is, or by its number. -/
def quotedOctet (quote : Char) (octet : UInt8) : Text :=
  if octet.toNat < 128 then quotedChar quote (Char.ofNat octet.toNat) else byNumber octet.toNat

def quotedBytes (octets : List UInt8) : Text :=
  let quote := quoteFor (octets.map fun octet => Char.ofNat octet.toNat)
  'b' :: quote :: octets.flatMap (quotedOctet quote) ++ [quote]

def call (name : Text) (parts : List Text) : Text :=
  name ++ ['('] ++ join ", ".toList parts ++ [')']

def quotedDate (d : Date) : Text :=
  call "datetime.date".toList [ofNat d.year, ofNat d.month, ofNat d.day]

/-- A span of time by its days, seconds and microseconds, those that are zero left out. -/
def quotedSpan (micros : Int) : Text :=
  let days := micros.fdiv 86400000000
  let rest := micros.fmod 86400000000
  let part (name : String) (n : Int) : List Text := if n == 0 then [] else [name.toList ++ ofInt n]
  call "datetime.timedelta".toList
    (part "days=" days ++ part "seconds=" (rest / 1000000) ++ part "microseconds=" (rest % 1000000))

def quotedOffset (offset : Int) : Text :=
  if offset == 0 then "datetime.timezone.utc".toList
  else call "datetime.timezone".toList [quotedSpan offset]

/-- A moment by its parts; seconds and microseconds only where there are some. -/
def quotedMoment (m : Moment) (offset : Option Int) : Text :=
  call "datetime.datetime".toList
    ([ofNat m.date.year, ofNat m.date.month, ofNat m.date.day, ofNat m.hour, ofNat m.minute]
      ++ (if m.second == 0 && m.micro == 0 then [] else [ofNat m.second])
      ++ (if m.micro == 0 then [] else [ofNat m.micro])
      ++ (match offset with
        | none => []
        | some offset => ["tzinfo=".toList ++ quotedOffset offset]))

mutual

def quoted : Value → Text
  | .null => "None".toList
  | .bool b => (if b then "True" else "False").toList
  | .int n => ofInt n
  | .float x => x.text
  | .str s => quotedText s
  | .bytes octets => quotedBytes octets
  | .date d => quotedDate d
  | .moment m offset => quotedMoment m offset
  | .list items => '[' :: join ", ".toList (quotedItems items) ++ [']']
  | .set [] => "set()".toList
  | .set items => '\x7b' :: join ", ".toList (quotedItems items) ++ ['\x7d']
  | .map entries => '\x7b' :: join ", ".toList (quotedEntries entries) ++ ['\x7d']
  | .ring isMapping => (if isMapping then "\x7b...\x7d" else "[...]").toList

def quotedItems : List Value → List Text
  | [] => []
  | item :: rest => quoted item :: quotedItems rest

def quotedEntries : List (Value × Value) → List Text
  | [] => []
  | (key, value) :: rest => (quoted key ++ ": ".toList ++ quoted value) :: quotedEntries rest

end

def display : Value → Text
  | .str s => s
  | .date d => d.text
  | .moment m offset => m.textWith ' ' offset
  | value => value.quoted

/-- A value as text, if it can be written. -/
def written (value : Value) : Except Failure Text :=
  if value.isWritable then .ok value.display else .error .unreadableNumber

example : (Value.list [.str "it's".toList, .null, .int 3]).display =
    "[\"it's\", None, 3]".toList := by decide +kernel

example : (Value.map [(.str "k".toList, .bool true)]).display =
    "\x7b'k': True\x7d".toList := by decide +kernel

end Checklist.Value
