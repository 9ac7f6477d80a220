import Checklist.Yaml.Cursor
import Checklist.Value.Json

/-! # Scalars of a YAML text

Quoted scalars, block scalars and plain scalars. Line breaks inside them are folded: one becomes a
space, of several the first is dropped. -/

namespace Checklist.Yaml
set_option autoImplicit false
open Text

/-- Breaks at a fold: a lone line feed becomes a space, and one before others is dropped. -/
def fold (first : Char) (more : Text) : Text :=
  if first != '\n' then first :: more
  else if more.isEmpty then [' ']
  else more

/-! ## Quoted scalars -/

/-- The characters that single letters stand for after a backslash. -/
def escapes : List (Char × Char) :=
  [('0', '\x00'), ('a', '\x07'), ('b', '\x08'), ('t', '\x09'), ('\t', '\x09'), ('n', '\x0a'),
   ('v', '\x0b'), ('f', '\x0c'), ('r', '\x0d'), ('e', '\x1b'), (' ', ' '), ('"', '"'), ('\\', '\\'),
   ('/', '/'), ('N', '\x85'), ('_', '\xa0'), ('L', '\u2028'), ('P', '\u2029')]

/-- The number of hexadecimal digits after a letter for an escape by number. -/
def escapeLength? (c : Char) : Option Nat :=
  [('x', 2), ('u', 4), ('U', 8)].lookup c

def numbered? (digits : Text) (count : Nat) : Option Char :=
  if digits.length == count then do
    let code ← digits.foldlM (fun code c => (Json.hexValue? c).map (16 * code + ·)) 0
    if code.isValidChar then some (Char.ofNat code) else none
  else none

/-- The breaks between two lines of a quoted scalar; indents are skipped, and a separator of
documents may not come. -/
def quotedBreaks : Nat → Cursor → Except Error (Text × Cursor)
  | 0, _ => .error .malformed
  | fuel + 1, c =>
    if c.atSeparator then .error .malformed
    else
      let c := c.skipWhile isGap
      match c.lineBreak? with
      | none => .ok ([], c)
      | some (first, c) => do
        let (more, c) ← quotedBreaks fuel c
        return (first :: more, c)

def escape (c : Cursor) : Except Error (Text × Cursor) :=
  match c.rest with
  | [] => .error .malformed
  | letter :: after => match escapes.lookup letter, escapeLength? letter with
    | some char, _ => .ok ([char], c.advance)
    | none, some count => match numbered? (after.take count) count with
      | some char => .ok ([char], c.advanceBy (count + 1))
      | none => .error .malformed
    | none, none => match c.lineBreak? with
      | some (_, c) => quotedBreaks (c.rest.length + 1) c
      | none => .error .malformed

/-- The text of a quoted scalar up to its closing quote; every step reads at least one character. -/
def quotedText (double : Bool) : Nat → Cursor → Except Error (Text × Cursor)
  | 0, _ => .error .malformed
  | fuel + 1, c =>
    match c.rest with
    | [] => .error .malformed
    | '\'' :: '\'' :: _ =>
      if double then more ['\''] c.advance fuel else more ['\''] (c.advanceBy 2) fuel
    | char :: _ =>
      if char == (if double then '"' else '\'') then .ok ([], c.advance)
      else if double && char == '\\' then do
        let (chars, c) ← escape c.advance
        more chars c fuel
      else if isGap char || isBreak char then
        let (gaps, c) := c.takeWhile isGap
        match c.lineBreak? with
        | none => if c.rest.isEmpty then .error .malformed else more gaps c fuel
        | some (first, c) => do
          let (breaks, c) ← quotedBreaks (c.rest.length + 1) c
          more (fold first breaks) c fuel
      else more [char] c.advance fuel
where
  /-- The text after some characters. -/
  more (chars : Text) (c : Cursor) (fuel : Nat) : Except Error (Text × Cursor) := do
    let (rest, c) ← quotedText double fuel c
    return (chars ++ rest, c)

def quoted (c : Cursor) : Except Error (Text × Cursor) :=
  quotedText (c.isAt '"') (c.rest.length + 1) c.advance

/-! ## Block scalars -/

/-- What becomes of the breaks at the end of a block. -/
inductive Chomping where
  | strip
  | clip
  | keep
  deriving DecidableEq, Repr

def chomping? (c : Char) : Option Chomping :=
  if c == '+' then some .keep else if c == '-' then some .strip else none

def increment? (c : Char) : Option Nat :=
  if '0' ≤ c && c ≤ '9' then some (c.toNat - 48) else none

/-- The chomping and the indent in the head of a block, in either order. -/
def blockHead (c : Cursor) : Except Error (Chomping × Option Nat × Cursor) :=
  let (chomping, c) := sign c
  let (increment, c) := digit c
  let (chomping, c) := if chomping.isNone && increment.isSome then sign c else (chomping, c)
  if increment == some 0 || !atGap c.rest then .error .malformed
  else .ok (chomping.getD .clip, increment, c)
where
  /-- A sign, if one comes next. -/
  sign (c : Cursor) : Option Chomping × Cursor :=
    match c.peek?.bind chomping? with
    | some chomping => (some chomping, c.advance)
    | none => (none, c)
  /-- A digit, if one comes next. -/
  digit (c : Cursor) : Option Nat × Cursor :=
    match c.peek?.bind increment? with
    | some increment => (some increment, c.advance)
    | none => (none, c)

/-- Goes to the indent, as far as there are spaces. -/
def toIndent (indent : Nat) (c : Cursor) : Cursor :=
  c.advanceBy (min (c.rest.takeWhile (· == ' ')).length (indent - c.column))

/-- The breaks before the next line that is not empty, which is indented at least as given; tabs may
not indent it. -/
def blockBreaks (dialect : Dialect) (indent : Nat) : Nat → Cursor → Except Error (Text × Cursor)
  | 0, _ => .error .malformed
  | fuel + 1, c =>
    let c := toIndent indent c
    if dialect == .lenient && c.column < indent && c.isAt '\t' then .error .malformed
    else match c.lineBreak? with
      | none => .ok ([], c)
      | some (first, c) => do
        let (more, c) ← blockBreaks dialect indent fuel c
        return (first :: more, c)

/-- The breaks before the first line that is not empty, and the widest indent up to it. -/
def blockStart (dialect : Dialect) (widest : Nat) :
    Nat → Cursor → Except Error (Text × Nat × Cursor)
  | 0, _ => .error .malformed
  | fuel + 1, c =>
    let c := c.skipWhile (· == ' ')
    let widest := max widest c.column
    if dialect == .lenient && c.isAt '\t' then .error .malformed
    else match c.lineBreak? with
      | none => .ok ([], widest, c)
      | some (first, c) => do
        let (more, widest, c) ← blockStart dialect widest fuel c
        return (first :: more, widest, c)

/-- The break between two lines of a block: folded between lines that start with no gap. -/
def blockJoin (folded : Bool) (leads : Bool) (first : Char) (breaks : Text)
    (next : Cursor) : Text :=
  if folded && first == '\n' && !leads && !(next.peek?.any isGap) then
    if breaks.isEmpty then [' '] else []
  else [first]

/-- The lines of a block from the given breaks on, with the last line break and the
breaks after it. -/
def blockLines (dialect : Dialect) (folded : Bool) (indent : Nat) :
    Nat → Text → Cursor → Except Error (Text × Text × Text × Cursor)
  | 0, _, _ => .error .malformed
  | fuel + 1, breaks, c => do
    let leads := c.peek?.any isGap
    let (line, c) := c.takeWhile (!isBreak ·)
    match c.lineBreak? with
    | none => return (breaks ++ line, [], [], c)
    | some (first, c) => do
      let (more, c) ← blockBreaks dialect indent (c.rest.length + 1) c
      if c.column == indent && !c.rest.isEmpty then do
        let (text, last, final, c') ← blockLines dialect folded indent fuel more c
        return (breaks ++ line ++ blockJoin folded leads first more c ++ text, last, final, c')
      else return (breaks ++ line, [first], more, c)

/-- A block scalar at its sign, inside a block of the given indent. -/
def block (dialect : Dialect) (parent : Int) (c : Cursor) : Except Error (Text × Cursor) := do
  let folded := c.isAt '>'
  let (chomping, increment, c) ← blockHead c.advance
  let c ← c.endLine fun char => char == ' ' || (dialect == .lenient && char == '\t')
  let least := (max (parent + 1) 1).toNat
  let (breaks, indent, c) ← match increment with
    | some increment => do
      let indent := least + increment - 1
      let (breaks, c) ← blockBreaks dialect indent (c.rest.length + 1) c
      pure (breaks, indent, c)
    | none => do
      let (breaks, widest, c) ← blockStart dialect 0 (c.rest.length + 1) c
      pure (breaks, max least widest, c)
  let (text, last, final, c) ←
    if c.column == indent && !c.rest.isEmpty then
      blockLines dialect folded indent (c.rest.length + 1) breaks c
    else pure ([], [], breaks, c)
  return (text ++ (if chomping == .strip then [] else last) ++
    (if chomping == .keep then final else []), c)

/-! ## Plain scalars -/

/-- Brackets and the comma, which end a word inside a flow collection. -/
def isFlowSign (c : Char) : Bool :=
  c == ',' || c == '[' || c == ']' || c == '\x7b' || c == '\x7d'

/-- The length of the word of a plain scalar at the start of a text. -/
def wordLength (dialect : Dialect) (flow : Bool) : Text → Except Error Nat
  | [] => .ok 0
  | c :: rest =>
    if isBreak c || isGap c || (flow && isFlowSign c) then .ok 0
    else if c == '?' && flow && dialect == .strict then .ok 0
    else if c == ':' && atGap rest then .ok 0
    else if c == ':' && flow && rest.head?.any isFlowSign && dialect == .strict then .ok 0
    else if c == ':' && flow && rest.head?.any (fun next => isFlowSign next || next == '?') &&
      dialect == .lenient then .error .malformed
    else (wordLength dialect flow rest).map (· + 1)

/-- The breaks after the first one inside a plain scalar; nothing if a separator of
documents comes. -/
def plainBreaks (dialect : Dialect) (indent : Int) :
    Nat → Cursor → Except Error (Option Text × Cursor)
  | 0, _ => .error .malformed
  | fuel + 1, c =>
    if c.atSeparator && c.column == 0 then .ok (none, c)
    else do
      let c := c.skipWhile (· == ' ')
      if dialect == .lenient && c.isAt '\t' then
        if (c.column : Int) < indent then .error .malformed
        else plainBreaks dialect indent fuel c.advance
      else match c.lineBreak? with
        | none => return (some [], c)
        | some (first, c) => do
          let (more, c) ← plainBreaks dialect indent fuel c
          return (more.map (first :: ·), c)

/-- What stands between two words of a plain scalar, nothing if no further word can follow, and
whether it spans lines. -/
def plainGap (dialect : Dialect) (indent : Int) (c : Cursor) :
    Except Error (Text × Bool × Cursor) := do
  let (gaps, c) := c.takeWhile fun char => char == ' ' || (dialect == .lenient && char == '\t')
  match c.lineBreak? with
  | none => return (gaps, false, c)
  | some (first, c) => do
    let (more, c) ← plainBreaks dialect indent (c.rest.length + 1) c
    return ((more.map (fold first)).getD [], true, c)

/-- A plain scalar, and whether it ends after a line break. -/
def plainFrom (dialect : Dialect) (flow : Bool) (indent : Int) :
    Nat → Cursor → Except Error (Text × Bool × Cursor)
  | 0, _ => .error .malformed
  | fuel + 1, c => do
    let length ← wordLength dialect flow c.rest
    if c.isAt '#' || length == 0 then return ([], false, c)
    let (word, c) := c.take length
    let (gap, spans, c) ← plainGap dialect indent c
    if gap.isEmpty || c.isAt '#' || (!flow && (c.column : Int) < indent) then
      return (word, spans, c)
    let (rest, spansLater, c') ← plainFrom dialect flow indent fuel c
    if rest.isEmpty then return (word, spans, c')
    return (word ++ gap ++ rest, spansLater, c')

/-- A plain scalar inside a block of the given indent, and whether it ends after a line break. -/
def plain (dialect : Dialect) (flow : Bool) (parent : Int) (c : Cursor) :
    Except Error (Text × Bool × Cursor) :=
  plainFrom dialect flow (parent + 1) (c.rest.length + 1) c

end Checklist.Yaml
