import Checklist.Text.Basic

/-! # Lines of a note

A task line is an indent of blanks and quote marks, a list marker, one blank, a checkbox around one
character, and the content. Headings and code fences are recognised beside it. Main statements: a
marker and what follows it are the text they were read from (`marker?_eq_some`), and an indent that
goes on is wider (`width_append_lt`). -/

namespace Checklist
set_option autoImplicit false
open Text

/-- A task line taken apart; `content` starts with no blank. -/
structure TaskLine where
  indent : Text
  marker : Text
  status : Char
  content : Text
  deriving DecidableEq, Repr

/-- A heading line: the number of hash signs, and the text between the signs. -/
structure Heading where
  level : Nat
  text : Text
  deriving DecidableEq, Repr

namespace Line

/-! ## Task lines -/

/-- Blanks and quote marks may stand before the list marker. -/
def isIndent (c : Char) : Bool :=
  isBlank c || c == '>'

def isBullet (c : Char) : Bool :=
  c == '-' || c == '*' || c == '+'

/-- A list marker at the start of a text, a bullet or a number with a dot or parenthesis, and what
follows it. -/
def marker? (s : Text) : Option (Text × Text) :=
  match s.takeWhile isDecimal, s.dropWhile isDecimal with
  | [], c :: rest => if isBullet c then some ([c], rest) else none
  | digits@(_ :: _), c :: rest => if c == '.' || c == ')' then some (digits ++ [c], rest) else none
  | _, [] => none

/-- The text lies on one line; a line feed may end it. -/
def onOneLine (s : Text) : Bool :=
  !s.dropLast.contains '\n'

def split? (line : Text) : Option TaskLine :=
  match marker? (line.dropWhile isIndent) with
  | some (marker, gap :: '[' :: status :: ']' :: rest) =>
    if isBlank gap && status != '\n' && onOneLine (trimStart rest) then
      some ⟨line.takeWhile isIndent, marker, status, trimStart rest⟩
    else none
  | _ => none

/-- A line without the line feeds and carriage returns at its end. -/
def body (line : Text) : Text :=
  trimEndWhere (fun c => c == '\r' || c == '\n') line

/-- The parts of a line that is a task line, its content trimmed. -/
def task? (line : Text) : Option TaskLine :=
  (split? (body line)).map fun parts => { parts with content := trim parts.content }

def isTask (line : Text) : Bool :=
  (split? (body line)).isSome

def render (parts : TaskLine) : Text :=
  parts.indent ++ parts.marker ++ " [".toList ++ [parts.status, ']'] ++
    (if parts.content.isEmpty then [] else ' ' :: parts.content)

/-! ## Indents -/

/-- The column after one more character: a tab goes on to the next multiple of the tab size. -/
def advance (tabSize column : Nat) (c : Char) : Nat :=
  if c == '\t' then column + (tabSize - column % tabSize) else column + 1

def width (tabSize : Nat) (indent : Text) : Nat :=
  indent.foldl (advance tabSize) 0

/-- The width of the spaces and tabs at the start of any line. -/
def leadingWidth (tabSize : Nat) (line : Text) : Nat :=
  width tabSize (line.takeWhile fun c => c == ' ' || c == '\t')

theorem lt_advance {tabSize : Nat} (h : 0 < tabSize) (column : Nat) (c : Char) :
    column < advance tabSize column c := by
  unfold advance
  split
  · have := Nat.mod_lt column h
    omega
  · omega

theorem le_foldl_advance {tabSize : Nat} (h : 0 < tabSize) (column : Nat) (s : Text) :
    column ≤ s.foldl (advance tabSize) column := by
  induction s generalizing column with
  | nil => simp
  | cons c rest ih => exact Nat.le_trans (Nat.le_of_lt (lt_advance h column c)) (ih _)

theorem width_append_lt {tabSize : Nat} (h : 0 < tabSize) (indent more : Text) (hmore : more ≠ []) :
    width tabSize indent < width tabSize (indent ++ more) := by
  cases more with
  | nil => exact absurd rfl hmore
  | cons c rest =>
    rw [width, width, List.foldl_append, List.foldl_cons]
    exact Nat.lt_of_lt_of_le (lt_advance h _ c) (le_foldl_advance h _ rest)

/-! ## Fences and headings -/

/-- A code fence: three backticks or three tildes start the line. -/
def isFence (line : Text) : Bool :=
  "\x60\x60\x60".toList.isPrefixOf (trim line) || "~~~".toList.isPrefixOf (trim line)

/-- What may close a heading: blanks, hash signs, blanks. -/
def isClosing (s : Text) : Bool :=
  isBlankText ((trimStart s).dropWhile (· == '#'))

/-- The shortest text before a closing that lies on one line. -/
def headingText? : Text → Option Text
  | [] => none
  | c :: rest =>
    if c == '\n' then none
    else if isClosing rest then some [c]
    else (headingText? rest).map (c :: ·)

/-- The heading on a line: one to six hash signs, a blank, and a text that is not blank. -/
def heading? (line : Text) : Option Heading :=
  let level := ((trimStart line).takeWhile (· == '#')).length
  match (trimStart line).dropWhile (· == '#') with
  | [] => none
  | c :: rest =>
    if 1 ≤ level && level ≤ 6 && isBlank c then
      (headingText? (trimStart rest)).map (Heading.mk level) else none

/-! ## A marker is read where it stands -/

theorem marker?_eq_some {s marker rest : Text} (h : marker? s = some (marker, rest)) :
    s = marker ++ rest := by
  unfold marker? at h
  split at h
  · rename_i c rest' htake hdrop
    split at h
    · simp only [Option.some.injEq, Prod.mk.injEq] at h
      rw [← List.takeWhile_append_dropWhile (p := isDecimal) (l := s), htake, hdrop, ← h.1, ← h.2]
      rfl
    · simp at h
  · rename_i d ds c rest' htake hdrop
    split at h
    · simp only [Option.some.injEq, Prod.mk.injEq] at h
      rw [← List.takeWhile_append_dropWhile (p := isDecimal) (l := s), htake, hdrop, ← h.1, ← h.2]
      simp
    · simp at h
  · simp at h

example : task? "> 2. [x] Pay rent ".toList =
    some ⟨"> ".toList, "2.".toList, 'x', "Pay rent".toList⟩ := by decide +kernel

example : task? "- [xx] two".toList = none ∧
    task? "-  [ ] two blanks".toList = none := by decide +kernel

example : width 4 " \t ".toList = 5 := by decide

example : heading? "### three # four ###".toList =
    some ⟨3, "three # four".toList⟩ := by decide +kernel

example : heading? "####### seven".toList = none ∧
    heading? "# ##".toList = some ⟨1, "#".toList⟩ := by decide +kernel

end Line
end Checklist
