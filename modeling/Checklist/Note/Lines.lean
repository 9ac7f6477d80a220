import Checklist.Settings.Basic
import Checklist.Line

/-! # The task lines of a note

The lines of a note are read from the top: task lines with the heading above them and the comment
below them. Nothing between code fences counts, and the number of lines read is bounded. -/

namespace Checklist.Note
set_option autoImplicit false
open Text

/-- A task line with its number, its indent, the heading above it and the comment below it. -/
structure Found where
  number : Nat
  line : Text
  parts : TaskLine
  indent : Nat
  heading : Option Heading
  comment : Option Text
  deriving DecidableEq, Repr

/-- The line goes on with the comment of a task: it is no task, no fence and not blank, and
indented more. -/
def isComment (settings : Settings) (indent : Nat) (line : Text) : Bool :=
  !isBlankText line && !Line.isTask line && !Line.isFence line &&
    indent < Line.leadingWidth settings.tabSize line

def commentLines (settings : Settings) (indent : Nat) (below : List Text) : List Text :=
  if settings.readsComments then below.takeWhile (isComment settings indent) else []

def commentText (comment : List Text) : Option Text :=
  if comment.isEmpty then none else some (join ['\n'] (comment.map trim))

/-- What is known while the lines of a note are read: the heading above, whether a fence is open,
how many more lines may be read, and how many of the next lines belong to a comment. -/
structure Reading where
  heading : Option Heading
  fenced : Bool
  left : Nat
  skip : Nat
  deriving DecidableEq, Repr

def find (settings : Settings) : Reading → List (Text × Nat) → List Found
  | _, [] => []
  | reading, (line, number) :: rest =>
    match reading.skip, reading.left with
    | skip + 1, _ => find settings { reading with skip } rest
    | 0, 0 => []
    | 0, left + 1 =>
      let reading := { reading with left }
      if Line.isFence line then find settings { reading with fenced := !reading.fenced } rest
      else if reading.fenced then find settings reading rest
      else match (if settings.readsHeadings then Line.heading? line else none), Line.task? line with
        | some heading, _ => find settings { reading with heading := some heading } rest
        | none, none => find settings reading rest
        | none, some parts =>
          let indent := Line.width settings.tabSize parts.indent
          let comment := commentLines settings indent (rest.map (·.1))
          ⟨number, line, parts, indent, reading.heading, commentText comment⟩
            :: find settings { reading with skip := comment.length } rest

def taskLines (settings : Settings) (start : Nat) (s : Text) : List Found :=
  find settings ⟨none, false, settings.lineLimit, 0⟩ ((lines s).zipIdx.drop start)

end Checklist.Note
