import Checklist.Yaml.Scalar

/-! # Tokens of a YAML text

A token is a mark or a scalar. Blocks are marked by indents: a token opens a block where a line is
indented more, and another one closes it. Whether a scalar is a key shows only when a colon
follows it on its line, so a possible key is remembered, and its token is given out only once that
is decided. -/

namespace Checklist.Yaml
set_option autoImplicit false
open Text

/-- A token. -/
inductive Token where
  | version (major : Nat)
  | handle (name content : Text)
  | directive
  | documentStart
  | documentEnd
  | listStart
  | mapStart
  | blockEnd
  | flowListStart
  | flowListEnd
  | flowMapStart
  | flowMapEnd
  | flowEntry
  | entry
  | key
  | value
  | alias (name : Text)
  | anchor (name : Text)
  | tag (handle : Option Text) (suffix : Text)
  | scalar (s : Text) (plain : Bool)
  | streamEnd
  deriving DecidableEq, Repr

/-- A place that a colon would make a key: the number of its token, whether it must become one,
and its place. -/
structure PossibleKey where
  number : Nat
  required : Bool
  index : Nat
  line : Nat
  column : Nat
  deriving DecidableEq, Repr

/-- The tokens of a text as far as they were read: those not yet given out, and the state for
reading on. The possible keys are filed by the number of flow collections around them. -/
structure Tokens where
  dialect : Dialect
  cursor : Cursor
  pending : List Token
  given : Nat
  flow : Nat
  indent : Int
  indents : List Int
  allowsKey : Bool
  keys : List (Nat × PossibleKey)
  done : Bool
  deriving Repr

namespace Tokens

def ofText (dialect : Dialect) (s : Text) : Tokens :=
  ⟨dialect, .ofText s, [], 0, 0, -1, [], true, [], false⟩

def push (t : Tokens) (token : Token) : Tokens := { t with pending := t.pending ++ [token] }

/-- Inserts a token before those from the given number on. -/
def insert (t : Tokens) (number : Nat) (token : Token) : Tokens :=
  { t with pending := t.pending.take (number - t.given) ++ token :: t.pending.drop (number - t.given) }

/-! ## Possible keys -/

def isStale (c : Cursor) (key : PossibleKey) : Bool :=
  key.line != c.line || key.index + 1024 < c.index

/-- Forgets the possible keys that satisfy a condition; none of them may be required. -/
def forget (p : Nat × PossibleKey → Bool) (t : Tokens) : Except Error Tokens :=
  if t.keys.any fun entry => p entry && entry.2.required then .error .missingColon
  else .ok { t with keys := t.keys.filter fun entry => !p entry }

/-- Forgets the possible keys that have become impossible. -/
def forgetStale (t : Tokens) : Except Error Tokens :=
  t.forget fun entry => isStale t.cursor entry.2

/-- Forgets the possible key of the current collection. -/
def forgetHere (t : Tokens) : Except Error Tokens :=
  t.forget fun entry => entry.1 == t.flow

def rememberKey (t : Tokens) : Except Error Tokens :=
  if t.allowsKey then do
    let required := t.flow == 0 && t.indent == t.cursor.column
    let key : PossibleKey :=
      ⟨t.given + t.pending.length, required, t.cursor.index, t.cursor.line, t.cursor.column⟩
    let t ← t.forgetHere
    return { t with keys := t.keys ++ [(t.flow, key)] }
  else .ok t

/-! ## Indents -/

/-- Closes the blocks that are indented more than a column. -/
def closeTo (column : Int) : List Int → Tokens → Tokens
  | [], t => t
  | outer :: rest, t =>
    if column < t.indent then
      closeTo column rest { t.push .blockEnd with indent := outer, indents := rest } else t

/-- Closes the blocks that end before a column; flow collections have none. -/
def unwind (column : Int) (t : Tokens) : Tokens :=
  if t.flow == 0 then closeTo column t.indents t else t

/-- Opens a block at a column if it is indented more, with its token before those from the
given number on. -/
def openAt (column number : Nat) (token : Token) (t : Tokens) : Tokens :=
  if t.indent < column then
    { t.insert number token with indents := t.indent :: t.indents, indent := column } else t

/-! ## Marks -/

def mark (count : Nat) (token : Token) (t : Tokens) : Tokens :=
  { t.push token with cursor := t.cursor.advanceBy count }

def finish (t : Tokens) : Except Error Tokens := do
  let t ← (t.unwind (-1)).forgetHere
  return { t.push .streamEnd with allowsKey := false, keys := [], done := true }

def separator (token : Token) (t : Tokens) : Except Error Tokens := do
  let t ← (t.unwind (-1)).forgetHere
  return { t.mark 3 token with allowsKey := false }

def openFlow (token : Token) (t : Tokens) : Except Error Tokens := do
  let t ← t.rememberKey
  return { t.mark 1 token with flow := t.flow + 1, allowsKey := true }

def closeFlow (token : Token) (t : Tokens) : Except Error Tokens := do
  let t ← t.forgetHere
  return { t.mark 1 token with flow := t.flow - 1, allowsKey := false }

def nextEntry (t : Tokens) : Except Error Tokens := do
  let t ← t.forgetHere
  return { t.mark 1 .flowEntry with allowsKey := true }

/-- A mark that stands only where a key may, and opens a block there. -/
def openBlock (opening : Token) (t : Tokens) : Except Error Tokens :=
  if t.flow != 0 then .ok t
  else if t.allowsKey then .ok (t.openAt t.cursor.column (t.given + t.pending.length) opening)
  else .error .malformed

def listEntry (t : Tokens) : Except Error Tokens := do
  let t ← (← t.openBlock .listStart).forgetHere
  return { t.mark 1 .entry with allowsKey := true }

def keyMark (t : Tokens) : Except Error Tokens := do
  let t ← (← t.openBlock .mapStart).forgetHere
  return { t.mark 1 .key with allowsKey := t.flow == 0 }

/-- The colon after a key: a possible key becomes one. -/
def valueMark (t : Tokens) : Except Error Tokens :=
  match t.keys.lookup t.flow with
  | some key =>
    let t := { t with keys := t.keys.filter fun entry => entry.1 != t.flow }.insert key.number .key
    let t := if t.flow == 0 then t.openAt key.column key.number .mapStart else t
    .ok { t.mark 1 .value with allowsKey := false }
  | none => do
    let t ← (← t.openBlock .mapStart).forgetHere
    return { t.mark 1 .value with allowsKey := t.flow == 0 }

/-! ## Names, tags and directives -/

def isName (c : Char) : Bool :=
  c.isAlphanum || c == '-' || c == '_'

def name (make : Text → Token) (t : Tokens) : Except Error Tokens := do
  let t ← t.rememberKey
  let (name, c) := t.cursor.advance.takeWhile isName
  if name.isEmpty || !(atGap c.rest || c.peek?.any "?:,]\x7d%@\x60".toList.contains) then
    .error .malformed
  else return { t.push (make name) with cursor := c, allowsKey := false }

/-- A character of a tag; escapes start with a percent sign. -/
def isUri (c : Char) : Bool :=
  c.isAlphanum || "-;/?:@&=+$,_.!~*'()[]".toList.contains c

def uriOctets : Nat → Cursor → Except Error (List UInt8 × Cursor)
  | 0, c => .ok ([], c)
  | fuel + 1, c =>
    match c.rest with
    | '%' :: high :: low :: _ => match Json.hexValue? high, Json.hexValue? low with
      | some h, some l => do
        let (more, c) ← uriOctets fuel (c.advanceBy 3)
        return (UInt8.ofNat (16 * h + l) :: more, c)
      | _, _ => .error .malformed
    | '%' :: _ => .error .malformed
    | _ => .ok ([], c)

def uriChars : Nat → Cursor → Except Error (Text × Cursor)
  | 0, c => .ok ([], c)
  | fuel + 1, c => do
    let (plain, c) := c.takeWhile isUri
    if c.isAt '%' then do
      let (octets, c) ← uriOctets (c.rest.length + 1) c
      match String.fromUTF8? (ByteArray.mk octets.toArray) with
      | none => .error .malformed
      | some s => do
        let (more, c) ← uriChars fuel c
        return (plain ++ s.toList ++ more, c)
    else return (plain, c)

/-- A tag's text, which may not be empty. -/
def uri (c : Cursor) : Except Error (Text × Cursor) := do
  let (s, c) ← uriChars (c.rest.length + 1) c
  if s.isEmpty then .error .malformed else return (s, c)

/-- The handle of a tag: exclamation marks around a name, or one alone. -/
def handle (c : Cursor) : Except Error (Text × Cursor) :=
  if !c.isAt '!' then .error .malformed
  else
    let (name, after) := c.advance.takeWhile isName
    if after.isAt '!' then .ok ('!' :: name ++ ['!'], after.advance)
    else if c.advance.isAt ' ' then .ok (['!'], c.advance)
    else .error .malformed

def tagParts (c : Cursor) : Except Error (Option Text × Text × Cursor) :=
  match c.rest.drop 1 with
  | '<' :: _ => do
    let (s, c) ← uri (c.advanceBy 2)
    if c.isAt '>' then return (none, s, c.advance) else .error .malformed
  | rest =>
    if atGap rest then .ok (none, ['!'], c.advance)
    else if (rest.takeWhile fun char => !isBreak char && char != ' ').contains '!' then do
      let (handle, c) ← handle c
      let (suffix, c) ← uri c
      return (some handle, suffix, c)
    else do
      let (suffix, c) ← uri c.advance
      return (some ['!'], suffix, c)

def tag (t : Tokens) : Except Error Tokens := do
  let t ← t.rememberKey
  let (handle, suffix, c) ← tagParts t.cursor
  if atSpace c.rest || (t.dialect == .lenient && t.flow != 0 && c.isAt ',') then
    return { t.push (.tag handle suffix) with cursor := c, allowsKey := false }
  else .error .malformed

def versionNumber (c : Cursor) : Except Error (Nat × Cursor) :=
  let (digits, c) := c.takeWhile Char.isDigit
  if digits.isEmpty then .error .malformed else .ok (digitsValue digits, c)

def directiveToken (c : Cursor) : Except Error (Token × Cursor) := do
  let (name, c) := c.takeWhile isName
  if name.isEmpty || !atSpace c.rest then .error .malformed
  else if name == "YAML".toList then do
    let (major, c) ← versionNumber (c.skipWhile (· == ' '))
    if !c.isAt '.' then .error .malformed
    let (_, c) ← versionNumber c.advance
    if atSpace c.rest then return (.version major, c) else .error .malformed
  else if name == "TAG".toList then do
    let (handle, c) ← handle (c.skipWhile (· == ' '))
    if !c.isAt ' ' then .error .malformed
    let (content, c) ← uri (c.skipWhile (· == ' '))
    if atSpace c.rest then return (.handle handle content, c) else .error .malformed
  else return (.directive, c.skipWhile (!isBreak ·))

def directive (t : Tokens) : Except Error Tokens := do
  let t ← (t.unwind (-1)).forgetHere
  let (token, c) ← directiveToken t.cursor.advance
  let c ← c.endLine (· == ' ')
  return { t.push token with cursor := c, allowsKey := false }

/-! ## Scalars -/

def blockScalar (t : Tokens) : Except Error Tokens := do
  let t ← { t with allowsKey := true }.forgetHere
  let (s, c) ← block t.dialect t.indent t.cursor
  return { t.push (.scalar s false) with cursor := c }

def quotedScalar (t : Tokens) : Except Error Tokens := do
  let t ← t.rememberKey
  let (s, c) ← quoted t.cursor
  return { t.push (.scalar s false) with cursor := c, allowsKey := false }

def plainScalar (t : Tokens) : Except Error Tokens := do
  let t ← t.rememberKey
  let (s, spans, c) ← plain t.dialect (t.flow != 0) t.indent t.cursor
  return { t.push (.scalar s true) with cursor := c, allowsKey := spans }

def startsPlain (t : Tokens) : Bool :=
  match t.cursor.rest with
  | [] => false
  | c :: rest =>
    if c == '-' then !atGap rest
    else if c == '?' || c == ':' then t.flow == 0 && !atGap rest
    else !isBreak c && !isGap c && !(",[]\x7b\x7d#&*!|>'\"%@\x60".toList.contains c)

/-! ## Reading on -/

/-- Skips gaps, comments and line breaks before the next token; in a block a new line may
start a key. -/
def skip : Nat → Tokens → Tokens
  | 0, t => t
  | fuel + 1, t =>
    let isSkipped :=
      fun c => c == ' ' || (t.dialect == .lenient && c == '\t' && (t.flow != 0 || !t.allowsKey))
    let c := (if t.cursor.index == 0 && t.cursor.isAt '\ufeff' then t.cursor.advance else
      t.cursor).skipWhile isSkipped
    let c := if c.isAt '#' then c.skipWhile (!isBreak ·) else c
    match c.lineBreak? with
    | none => { t with cursor := c }
    | some (_, c) => skip fuel { t with cursor := c, allowsKey := t.allowsKey || t.flow == 0 }

def scan (t : Tokens) : Except Error Tokens :=
  let c := t.cursor
  match c.rest with
  | [] => t.finish
  | char :: rest =>
    let signs := t.flow != 0 || atGap rest
    if char == '%' && c.column == 0 then t.directive
    else if c.column == 0 && c.atSeparator then
      t.separator (if char == '-' then .documentStart else .documentEnd)
    else if char == '[' then t.openFlow .flowListStart
    else if char == '\x7b' then t.openFlow .flowMapStart
    else if char == ']' then t.closeFlow .flowListEnd
    else if char == '\x7d' then t.closeFlow .flowMapEnd
    else if char == ',' then t.nextEntry
    else if char == '-' && atGap rest then t.listEntry
    else if char == '?' && signs then t.keyMark
    else if char == ':' && signs then t.valueMark
    else if char == '*' then t.name .alias
    else if char == '&' then t.name .anchor
    else if char == '!' then t.tag
    else if (char == '|' || char == '>') && t.flow == 0 then t.blockScalar
    else if char == '\'' || char == '"' then t.quotedScalar
    else if t.startsPlain then t.plainScalar
    else .error .malformed

def more (t : Tokens) : Except Error Tokens := do
  let t ← (t.skip (t.cursor.rest.length + 1)).forgetStale
  (t.unwind t.cursor.column).scan

/-- The first pending token may still become a key, or none is pending. -/
def isOpen (t : Tokens) : Bool :=
  !t.done && (t.pending.isEmpty || t.keys.any fun entry => entry.2.number == t.given)

def settle : Nat → Tokens → Except Error Tokens
  | 0, t => .ok t
  | fuel + 1, t =>
    if t.done || (!t.pending.isEmpty && t.keys.isEmpty) then .ok t
    else do
      let t ← if t.pending.isEmpty then pure t else t.forgetStale
      if t.isOpen then settle fuel (← t.more) else return t

/-- The next token, which stays pending. -/
def peek (t : Tokens) : Except Error (Token × Tokens) := do
  let t ← settle (t.cursor.rest.length + 2) t
  return (t.pending.headD .streamEnd, t)

def next (t : Tokens) : Except Error (Token × Tokens) := do
  let (token, t) ← t.peek
  return (token, { t with pending := t.pending.drop 1, given := t.given + 1 })

end Tokens
end Checklist.Yaml
