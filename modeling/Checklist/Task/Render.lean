import Checklist.Task.Basic
import Checklist.Calendar.DateText
import Checklist.Priority
import Checklist.Text.Word

/-! # Tasks as lines

A task is written as one line in one of two styles. Only what was written on the task is: inherited
values and inferred projects come back when the line is read in its note again. -/

namespace Checklist.Task
set_option autoImplicit false
open Text

/-- The style of the metadata on a line. -/
inductive Style where
  | emoji
  | dataview
  deriving DecidableEq, Repr

def inlineField (key value : Text) : Text :=
  ['['] ++ key ++ "::".toList ++ value ++ [']']

/-- The value can stand in a tag: word characters, slashes and hyphens, at most one line feed
after them. -/
def isPlain (value : Text) : Bool :=
  let isBody := fun c => isWord c || c == '/' || c == '-'
  !(value.takeWhile isBody).isEmpty && (value.all isBody || value.dropWhile isBody == ['\n'])

def tagged (style : Style) (field : Field) (value : Text) : Text :=
  if style == .emoji && isPlain value then
    if field == .context then '@' :: value else ['#'] ++ field.name ++ ['/'] ++ value
  else inlineField field.name value

def symbolOf (field : Field) : Text :=
  ((defaultSymbols.find? fun entry => entry.2 == field).map (·.1)).getD []

def levelText (style : Style) (level : Int) : Except Failure Text :=
  match style, Priority.symbol? level, Priority.name? level with
  | .emoji, some symbol, _ => .ok symbol
  | .dataview, _, some name => .ok (inlineField "priority".toList name)
  | _, _, _ => .error .noSuchPriority

def recurrenceText (style : Style) (recurrence : Recurrence) : Except Failure Text := do
  let phrase ← recurrence.text
  return match style with
    | .emoji => symbolOf .recurrence ++ [' '] ++ phrase
    | .dataview => inlineField "repeat".toList phrase

/-- The dates in the order in which they are written, with their keys. -/
def dateOrder : List (DateField × Text) :=
  [(.created, "created".toList), (.start, "start".toList), (.scheduled, "scheduled".toList),
   (.due, "due".toList), (.completed, "completion".toList)]

def dateText (style : Style) (field : DateField) (key : Text) (timestamp : Int) :
    Except Failure Text := do
  let text ← Moment.timestampText timestamp
  return match style with
    | .emoji => symbolOf (.date field) ++ [' '] ++ text
    | .dataview => inlineField key text

def customText (entry : Value × Value) : Except Failure Text := do
  return inlineField (← entry.1.written) (← entry.2.written)

/-- The pieces of a line after the content, in their order. -/
def pieces (metadata : Metadata) (style : Style) : Except Failure (List Text) := do
  let level ← (metadata.authored .priority metadata.priority).toList.mapM (levelText style)
  let recurrence ← (metadata.authored .recurrence metadata.recurrence).toList.mapM
    (recurrenceText style)
  let dates ← dateOrder.mapM fun (field, key) =>
    (metadata.authored (.date field) (metadata.dates.get field)).toList.mapM (dateText style field key)
  let custom ← (metadata.custom.filter fun entry => !metadata.inherits entry.1).mapM customText
  return metadata.tags.map ('#' :: ·)
    ++ (metadata.authored .project metadata.project).toList.map (tagged style .project)
    ++ (metadata.authored .area metadata.area).toList.map (tagged style .area)
    ++ (metadata.authored .context metadata.context).toList.map (tagged style .context)
    ++ level ++ recurrence ++ dates.flatten ++ custom

/-- What stands before the list marker: the indent of the line that the task was read from, or
tabs by depth. -/
def lead (task : Task) : Text :=
  match Line.split? task.lineText with
  | some parts => parts.indent
  | none => List.replicate task.depth.toNat '\t'

def render (style : Style) (task : Task) : Except Failure Text := do
  let pieces ← pieces task.metadata style
  let body := join [' '] ((if task.content.isEmpty then [] else [task.content]) ++ pieces)
  return lead task ++ task.marker ++ " [".toList ++ task.status ++ [']'] ++
    (if body.isEmpty then [] else ' ' :: body)

end Checklist.Task
