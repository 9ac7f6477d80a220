import Checklist.Text.Basic

/-! # Styled text

What a command says may hold names of styles in square brackets; without colours they are dropped.
Long lines are broken between words. Main statement: text without brackets and backslashes is shown
as it stands (`plain?_of_plain`). -/

namespace Checklist.Command
set_option autoImplicit false
open Text

namespace Styled

/-- A part of styled text: a character, the start of a style, or the end of one. -/
inductive Part where
  | char (c : Char)
  | start (name : Text)
  | stop (name : Text)
  deriving DecidableEq, Repr

def startsStyle (c : Char) : Bool :=
  ('a' ≤ c && c ≤ 'z') || c == '#' || c == '/' || c == '@'

/-- The text between a bracket and the one that closes it, if it names a style, and the
text after it. -/
def style? (s : Text) : Option (Text × Text) :=
  match cut ']' s with
  | (name, some rest) => if (name.head?.any startsStyle) && !name.contains '[' then
      some (name, rest) else none
  | (_, none) => none

theorem length_of_cut {separator : Char} {s before after : Text}
    (h : cut separator s = (before, some after)) :
    after.length < s.length := by
  induction s generalizing before with
  | nil => simp [cut] at h
  | cons c rest ih =>
    by_cases hc : c == separator
    · simp [cut, hc] at h
      simp [h.2]
    · simp [cut, hc] at h
      have hrest : cut separator rest = ((cut separator rest).1, some after) := by rw [← h.2]
      exact Nat.lt_succ_of_lt (ih hrest)

theorem length_of_style? {s name rest : Text} (h : style? s = some (name, rest)) :
    rest.length < s.length := by
  unfold style? at h
  split at h
  · rename_i before after hcut
    split at h
    · simp only [Option.some.injEq, Prod.mk.injEq] at h
      exact h.2 ▸ length_of_cut hcut
    · simp at h
  · simp at h

/-- The part that a style's name stands for; what follows an equals sign is no part of the name. -/
def partOf (name : Text) : Part :=
  match (cut '=' name).1 with
  | '/' :: rest => .stop (trim rest)
  | name => .start (trim name)

/-- The parts of a text. Backslashes before a style count in pairs, and one left over
makes it text. -/
def parts (slashes : Nat) : Text → List Part
  | [] => (List.replicate slashes '\\').map .char
  | c :: rest =>
    if c == '\\' then parts (slashes + 1) rest
    else if c == '[' then
      match _h : style? rest with
      | none => ((List.replicate (slashes - 1) '\\') ++ ['[']).map .char ++ parts 0 rest
      | some (name, after) =>
        let shown :=
          if slashes % 2 == 1 then (['['] ++ name ++ [']']).map Part.char else [partOf name]
        (List.replicate (slashes / 2) '\\').map .char ++ shown ++ parts 0 after
    else ((List.replicate slashes '\\') ++ [c]).map .char ++ parts 0 rest
termination_by s => s.length
decreasing_by
  · simp
  · simp
  · exact Nat.lt_succ_of_lt (length_of_style? ‹_›)
  · simp

/-- Drops the nearest style with a name, or the nearest of all. -/
def close (name : Text) : List Text → Option (List Text)
  | [] => none
  | style :: rest =>
    if name.isEmpty || style == name then some rest else (close name rest).map (style :: ·)

/-- The characters of parts; none if the end of a style has no start. -/
def chars? : List Text → List Part → Option Text
  | _, [] => some []
  | styles, .char c :: rest => (chars? styles rest).map (c :: ·)
  | styles, .start name :: rest => chars? (name :: styles) rest
  | styles, .stop name :: rest => (close name styles).bind fun styles => chars? styles rest

/-- A text without its styles; none if the end of a style has no start. -/
def plain? (s : Text) : Option Text :=
  chars? [] (parts 0 s)

theorem plain?_of_plain (s : Text) (h : ∀ c ∈ s, c ≠ '[' ∧ c ≠ '\\') : plain? s = some s := by
  unfold plain?
  induction s with
  | nil => simp [parts, chars?]
  | cons c rest ih =>
    have hc := h c (List.mem_cons_self ..)
    have hrest := ih fun d hd => h d (List.mem_cons_of_mem _ hd)
    simp [parts, hc.1, hc.2, chars?, hrest]

example : plain? "[red]Stage [b]x[/b] \\[y] [Z][/red]".toList =
    some "Stage x [y] [Z]".toList := by decide +kernel

/-! ## Breaking lines -/

/-- The words of a line, each with the blanks after it. -/
def wordsFrom : Text → List Text
  | [] => []
  | c :: rest => match wordsFrom rest with
    | [] => [[c]]
    | word :: words =>
      if isBlank c && !(word.head?.any isBlank) then [c] :: word :: words else (c :: word) :: words

/-- The words of a line; blanks before the first word belong to it. -/
def wordsWithBlanks (s : Text) : List Text :=
  match wordsFrom s with
  | [] => []
  | [word] => if isBlankText word then [] else [word]
  | first :: second :: rest =>
    if isBlankText first then (first ++ second) :: rest else first :: second :: rest

/-- Pieces of a length, the last one perhaps shorter. -/
def pieces (length : Nat) : Nat → Text → List Text
  | 0, s => [s]
  | fuel + 1, s =>
    if s.length ≤ length then [s] else s.take length :: pieces length fuel (s.drop length)

/-- Adds a word to lines, the last line first. -/
def addWord (width : Nat) (lines : List Text) (word : Text) : List Text :=
  let (line, others) := (lines.headD [], lines.tail)
  let bare := (trimEnd word).length
  if line.length + bare ≤ width then (line ++ word) :: others
  else if width < bare then
    let all := pieces width word.length word
    if line.isEmpty then all.reverse ++ others else all.reverse ++ lines
  else if line.isEmpty then word :: others
  else word :: lines

def breakLine (width : Nat) (s : Text) : List Text :=
  (((wordsWithBlanks s).foldl (addWord width) [[]]).reverse).map trimEnd

def wrap (width : Nat) (s : Text) : List Text :=
  (splitAt '\n' s).flatMap (breakLine width)

example : wrap 9 "a word longwordlongword".toList =
    ["a word".toList, "longwordl".toList, "ongword".toList] := by decide +kernel

end Styled
end Checklist.Command
