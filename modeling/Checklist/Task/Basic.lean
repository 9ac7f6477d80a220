import Checklist.Settings.Basic
import Checklist.Recurrence
import Checklist.Line
import Checklist.Value.Display

/-! # Tasks

A task and its metadata. A project is either written on the line or inferred from elsewhere; what a
task has inherited from its note is listed by name. -/

namespace Checklist
set_option autoImplicit false

/-- Where an inferred project comes from. -/
inductive ProjectSource where
  | path
  | metadata
  | config
  | default
  deriving DecidableEq, Repr

def ProjectSource.name : ProjectSource → Text
  | .path => "path".toList
  | .metadata => "metadata".toList
  | .config => "config".toList
  | .default => "default".toList

/-- A project that no line names: its kind of source, its name, and what in the source named it. -/
structure InferredProject where
  kind : ProjectSource
  name : Text
  source : Text
  deriving DecidableEq, Repr

/-- The dates of a task, as timestamps. -/
structure Dates where
  due : Option Int := none
  start : Option Int := none
  scheduled : Option Int := none
  completed : Option Int := none
  created : Option Int := none
  deriving DecidableEq, Repr

namespace Dates

def get (dates : Dates) : DateField → Option Int
  | .due => dates.due
  | .start => dates.start
  | .scheduled => dates.scheduled
  | .completed => dates.completed
  | .created => dates.created

def set (dates : Dates) (timestamp : Option Int) : DateField → Dates
  | .due => { dates with due := timestamp }
  | .start => { dates with start := timestamp }
  | .scheduled => { dates with scheduled := timestamp }
  | .completed => { dates with completed := timestamp }
  | .created => { dates with created := timestamp }

theorem get_set (dates : Dates) (timestamp : Option Int) (field : DateField) :
    (dates.set timestamp field).get field = timestamp := by
  cases field <;> rfl

theorem get_set_of_ne (dates : Dates) (timestamp : Option Int)
    {field other : DateField} (h : other ≠ field) :
    (dates.set timestamp field).get other = dates.get other := by
  cases field <;> cases other <;> first | rfl | exact absurd rfl h

end Dates

/-- What is known of a task besides its text. -/
structure Metadata where
  dates : Dates := {}
  priority : Option Int := none
  project : Option Text := none
  inferred : Option InferredProject := none
  tags : List Text := []
  context : Option Text := none
  area : Option Text := none
  recurrence : Option Recurrence := none
  heading : Option Heading := none
  custom : Entries := []
  inherited : List Value := []
  deriving Repr

namespace Metadata

/-- The project that a task belongs to: the one on its line, or else the inferred one. -/
def effectiveProject (metadata : Metadata) : Option Text :=
  match metadata.project, metadata.inferred with
  | some name, inferred => if name.isEmpty then inferred.map InferredProject.name else some name
  | none, inferred => inferred.map InferredProject.name

/-- The field has a value; a list without tags is none. -/
def has (metadata : Metadata) : Field → Bool
  | .date kind => (metadata.dates.get kind).isSome
  | .priority => metadata.priority.isSome
  | .project => metadata.project.isSome
  | .context => metadata.context.isSome
  | .area => metadata.area.isSome
  | .recurrence => metadata.recurrence.isSome
  | .tags => !metadata.tags.isEmpty

def inherits (metadata : Metadata) (name : Value) : Bool :=
  metadata.inherited.any fun other => other.isFoundAs name

def markInherited (metadata : Metadata) (name : Value) : Metadata :=
  if metadata.inherited.any (·.sameKey name) then metadata
  else { metadata with inherited := metadata.inherited ++ [name] }

/-- A value under its own name, or nothing where it was inherited. -/
def authored {α : Type} (metadata : Metadata) (field : Field) (value : Option α) : Option α :=
  if metadata.inherits (.str field.name) then none else value

end Metadata

/-- A task of a note. Its number is the line on which it was found, counted from 0. -/
structure Task where
  id : Text
  path : Text
  line : Int
  content : Text
  status : Text
  category : StatusCategory
  lineText : Text
  depth : Int := 0
  indent : Nat := 0
  marker : Text := ['-']
  metadata : Metadata := {}
  parent : Option Text := none
  children : List Text := []
  comment : Option Text := none
  deriving Repr

namespace Task

def idOf (path : Text) (line : Int) : Text :=
  path ++ "-L".toList ++ Text.ofInt line

def completed (task : Task) : Bool :=
  task.category == .completed

def lineNumber (task : Task) : Int :=
  task.line + 1

def isRoot (task : Task) : Bool :=
  task.parent.isNone

end Task
end Checklist
