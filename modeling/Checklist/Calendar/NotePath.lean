import Checklist.Calendar.Moment

/-! # Dates in note paths

The path of a daily note carries its date in a format such as `YYYY-MM-DD`: number tokens, literal
text, and literal text in brackets. The path without its extension must end with the format, at the
start of the path or after a slash. -/

namespace Checklist.NotePath
set_option autoImplicit false
open Text

/-- What a number in a path stands for. -/
inductive Slot where
  | year
  | shortYear
  | month
  | day
  deriving DecidableEq, Repr

/-- A part of a format: literal text, or a number of `least` to `most` digits, which may
fill a slot. -/
inductive Part where
  | literal (s : Text)
  | number (slot : Option Slot) (least most : Nat)
  deriving DecidableEq, Repr

/-! ## Formats -/

/-- The number token at the start of a format: its slot, its digits and its length. -/
def token? (s : Text) : Option (Slot × Nat × Nat × Nat) :=
  if "YYYY".toList.isPrefixOf s then some (.year, 4, 4, 4)
  else if "YY".toList.isPrefixOf s then some (.shortYear, 2, 2, 2)
  else if "MM".toList.isPrefixOf s then some (.month, 2, 2, 2)
  else if "M".toList.isPrefixOf s then some (.month, 1, 2, 1)
  else if "DD".toList.isPrefixOf s then some (.day, 2, 2, 2)
  else if "D".toList.isPrefixOf s then some (.day, 1, 2, 1)
  else none

/-- The literal text in brackets at the start of a format. -/
def bracketed? (s : Text) : Option Text :=
  match s with
  | '[' :: rest =>
    if (rest.dropWhile (· != ']')).isEmpty then none else some (rest.takeWhile (· != ']'))
  | _ => none

/-- The parts of a format after some characters already read; a slot that was seen is not
filled again. -/
def partsAfter (seen : List Slot) : Nat → Text → List Part
  | _, [] => []
  | skip + 1, _ :: rest => partsAfter seen skip rest
  | 0, c :: rest => match token? (c :: rest), bracketed? (c :: rest) with
    | some (slot, least, most, length), _ =>
      .number (if seen.contains slot then none else some slot) least most ::
        partsAfter (slot :: seen) (length - 1) rest
    | none, some text => .literal text :: partsAfter seen (text.length + 1) rest
    | none, none => .literal [c] :: partsAfter seen 0 rest

def parts (format : Text) : List Part :=
  partsAfter [] 0 format

/-! ## Matching -/

/-- The numbers read from a path, by slot. -/
abbrev Reading := List (Slot × Nat)

/-- The end of the path; one line feed may follow. -/
def isEnd (s : Text) : Bool :=
  s.isEmpty || s == ['\n']

/-- Reads the parts from the start of a text to its end; a number takes as many digits as it can. -/
def read? : List Part → Text → Reading → Option Reading
  | [], s, reading => if isEnd s then some reading else none
  | .literal text :: rest, s, reading =>
    if text.isPrefixOf s then read? rest (s.drop text.length) reading else none
  | .number slot least most :: rest, s, reading =>
    let take (count : Nat) : Option Reading :=
      match Date.digits? count s with
      | none => none
      | some (value, after) => read? rest after (match slot with
        | none => reading
        | some slot => (slot, value) :: reading)
    (take most).or (if least < most then take least else none)

/-- Reads the parts after the first slash that allows it. -/
def readAfterSlash? (format : List Part) : Text → Option Reading
  | [] => none
  | c :: rest => (if c == '/' then read? format rest [] else none).or (readAfterSlash? format rest)

/-- Reads the parts at the end of a path, from its start if that is possible. -/
def readPath? (format : List Part) (path : Text) : Option Reading :=
  (read? format path []).or (readAfterSlash? format path)

/-! ## Dates -/

def withSlashes (path : Text) : Text :=
  replaceChar '\\' '/' path

/-- A path without its extension: a dot and some text without slash after it. -/
def stem (path : Text) : Text :=
  match cutLast '.' path with
  | (some before, extension) => if extension.isEmpty || extension.contains '/' then path else before
  | (none, _) => path

def isUnder (folder path : Text) : Bool :=
  path == folder || (folder ++ ['/']).isPrefixOf path

/-- The day that the numbers of a path name; a short year lies in this century, a missing month or
day counts as the first. -/
def Reading.date? (reading : Reading) : Option Date := do
  let year ← (reading.lookup .year).or ((reading.lookup .shortYear).map (2000 + ·))
  Date.of? year ((reading.lookup .month).getD 1) ((reading.lookup .day).getD 1)

/-- The start of the day that a path names, for a note in the folder, if one is given. -/
def date? (format folder path : Text) : Option Int := do
  let path := withSlashes path
  let folder := trimWhere (· == '/') (withSlashes folder)
  if !folder.isEmpty && !isUnder folder path then none
  else
    let date ← (← readPath? (parts format) (stem path)).date?
    (Moment.ofDate date).timestamp.toOption

end Checklist.NotePath
