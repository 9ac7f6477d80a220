import Checklist.Text.Basic

/-! # A place in a YAML text

A cursor is the text still to be read with its place: the characters read, the line, and the column.
Main statement: what a cursor takes and what it leaves make up the text (`take_append_rest`). -/

namespace Checklist.Yaml
set_option autoImplicit false

/-- Why a text is no YAML, or why a value in it cannot be read. -/
inductive Error where
  /-- The text has another shape. -/
  | malformed
  /-- A line that must be a key has no colon. -/
  | missingColon
  /-- A tag or an alias that nothing defines, a key that cannot be one, or a merge with
  something else. -/
  | unsupported
  /-- A number or a moment that does not exist. -/
  | noSuchValue
  /-- A word under the tag of truth values that is none. -/
  | noSuchWord
  /-- An empty text under the tag of a number. -/
  | emptyNumber
  /-- A text under the tag of moments that is none. -/
  | noMoment
  /-- A place of a number in base 60 that is worth more than any machine number. -/
  | overflow
  /-- A merge or a text that is looked for within itself. -/
  | endless
  /-- Data that nest too deep for their loader. -/
  | exhausted
  deriving DecidableEq, Repr

/-- Whether tabs separate tokens as spaces do; if they do, question marks may also stand inside
plain words of a list. -/
inductive Dialect where
  | strict
  | lenient
  deriving DecidableEq, Repr

def isBreak (c : Char) : Bool :=
  c == '\n' || c == '\r' || c == '\x85' || c == '\u2028' || c == '\u2029'

def isGap (c : Char) : Bool :=
  c == ' ' || c == '\t'

/-- The text ends, or goes on with a line break. -/
def atBreak (s : Text) : Bool :=
  s.head?.all isBreak

/-- The text ends, or goes on with a space or a line break. -/
def atSpace (s : Text) : Bool :=
  s.head?.all fun c => isBreak c || c == ' '

/-- The text ends, or goes on with a space, a tab or a line break. -/
def atGap (s : Text) : Bool :=
  s.head?.all fun c => isBreak c || isGap c

/-- The text still to be read, and its place. -/
structure Cursor where
  rest : Text
  index : Nat
  line : Nat
  column : Nat
  deriving DecidableEq, Repr

namespace Cursor

def ofText (s : Text) : Cursor := ⟨s, 0, 0, 0⟩

def peek? (c : Cursor) : Option Char := c.rest.head?

def isAt (c : Cursor) (char : Char) : Bool := c.rest.head? == some char

/-- Goes one character on; the byte order mark has no width. -/
def advance (c : Cursor) : Cursor :=
  match c.rest with
  | [] => c
  | char :: rest =>
    if isBreak char && !(char == '\r' && rest.head? == some '\n') then
      ⟨rest, c.index + 1, c.line + 1, 0⟩
    else if char == '\ufeff' then ⟨rest, c.index + 1, c.line, c.column⟩
    else ⟨rest, c.index + 1, c.line, c.column + 1⟩

def advanceBy : Nat → Cursor → Cursor
  | 0, c => c
  | count + 1, c => advanceBy count c.advance

def take (count : Nat) (c : Cursor) : Text × Cursor :=
  (c.rest.take count, c.advanceBy count)

/-- The next characters as long as they satisfy a condition. -/
def takeWhile (p : Char → Bool) (c : Cursor) : Text × Cursor :=
  c.take (c.rest.takeWhile p).length

def skipWhile (p : Char → Bool) (c : Cursor) : Cursor :=
  (c.takeWhile p).2

/-- Reads a line break: the separators of lines and paragraphs are kept, every other one becomes
a line feed. -/
def lineBreak? (c : Cursor) : Option (Char × Cursor) :=
  match c.rest with
  | '\r' :: '\n' :: _ => some ('\n', c.advanceBy 2)
  | char :: _ =>
    if char == '\u2028' || char == '\u2029' then some (char, c.advance)
    else if isBreak char then some ('\n', c.advance)
    else none
  | [] => none

/-- A line of three dashes or three dots, which separates documents, starts here. -/
def atSeparator (c : Cursor) : Bool :=
  ("---".toList.isPrefixOf c.rest || "...".toList.isPrefixOf c.rest) && atGap (c.rest.drop 3)

/-- Skips gaps and a comment up to the end of the line, which must come next. -/
def endLine (gap : Char → Bool) (c : Cursor) : Except Error Cursor :=
  let c := c.skipWhile gap
  let c := if c.isAt '#' then c.skipWhile (!isBreak ·) else c
  if atBreak c.rest then .ok ((c.lineBreak?.map Prod.snd).getD c) else .error .malformed

theorem rest_advance (c : Cursor) : c.advance.rest = c.rest.drop 1 := by
  unfold advance
  split
  · rename_i h
    simp [h]
  · rename_i h
    split
    · simp [h]
    · split <;> simp [h]

theorem rest_advanceBy (count : Nat) (c : Cursor) :
    (c.advanceBy count).rest = c.rest.drop count := by
  induction count generalizing c with
  | zero => rfl
  | succ count ih => rw [advanceBy, ih, rest_advance, List.drop_drop, Nat.add_comm]

theorem take_append_rest (count : Nat) (c : Cursor) :
    (c.take count).1 ++ (c.take count).2.rest = c.rest := by
  simp [take, rest_advanceBy]

end Cursor
end Checklist.Yaml
