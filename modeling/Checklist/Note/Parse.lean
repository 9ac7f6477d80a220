import Checklist.Header
import Checklist.Inheritance
import Checklist.Markup.Extraction
import Checklist.Note.Lines
import Checklist.Outline
import Checklist.Calendar.NotePath
import Checklist.Project.Resolve

/-! # The tasks of a note

The task lines of a note form an outline by their indents. Every line becomes a task; then, parents
first, each task gets its project and inherits from the header of the note and the project file. -/

namespace Checklist
set_option autoImplicit false
open Text

/-- A note: its path, its text, its header unless it is to be read from the text, and the data of
its project file. -/
structure Note where
  path : Text
  content : Text
  header : Option Entries := none
  file : Option Entries := none
  deriving Repr

namespace Note

/-- Why a note has no tasks to show. -/
inductive Error where
  | failure (cause : Failure)
  | header (cause : Yaml.Error)
  deriving DecidableEq, Repr

/-! ## Single tasks -/

/-- Sets a field to what its markup says; text that means nothing for the field is dropped. -/
def setField (today : Date) (metadata : Metadata) (field : Field) (raw : Text) :
    Except Failure Metadata := do
  let text := if (trim raw).isEmpty then none else some (trim raw)
  match field with
  | .date kind => match ← DateText.resolve today raw with
    | some timestamp => return { metadata with dates := metadata.dates.set (some timestamp) kind }
    | none => return metadata
  | .priority => match ← Priority.resolve raw with
    | some level => return { metadata with priority := some (level : Int) }
    | none => return metadata
  | .recurrence => match ← Recurrence.parse raw with
    | some recurrence => return { metadata with recurrence := some recurrence }
    | none => return metadata
  | .project => return { metadata with project := text.or metadata.project }
  | .context => return { metadata with context := text.or metadata.context }
  | .area => return { metadata with area := text.or metadata.area }
  | .tags => return metadata

def lineMetadata (today : Date) (heading : Option Heading) (extraction : Markup.Extraction) :
    Except Failure Metadata :=
  let start : Metadata := {
    tags := extraction.tags
    heading := heading
    custom := extraction.custom.map fun (key, s) => (.str key, .str s) }
  extraction.fields.foldlM (fun metadata (field, raw) => setField today metadata field raw) start

/-- The task on a line, with what the line itself says. -/
def taskOf (settings : Settings) (today : Date) (path : Text) (found : Found) :
    Except Failure Task := do
  let extraction ← Markup.extract settings today found.parts.content
  return {
    id := Task.idOf path found.number
    path := path
    line := found.number
    content := extraction.content
    status := [found.parts.status]
    category := settings.marks.category found.parts.status
    lineText := found.line
    indent := found.indent
    marker := found.parts.marker
    metadata := ← lineMetadata today found.heading extraction
    comment := found.comment }

/-! ## Tasks in their note -/

/-- Sets the date that the path of the note gives, if the task has none. -/
def dateFromPath (settings : Settings) (timestamp : Option Int) (metadata : Metadata) : Metadata :=
  { metadata with dates :=
    metadata.dates.set ((metadata.dates.get settings.pathDate).or timestamp) settings.pathDate }

/-- The date that the path of the note gives to its tasks. -/
def pathDate? (settings : Settings) (path : Text) : Option Int :=
  if settings.datesFromPaths && !path.isEmpty then
    NotePath.date? settings.pathFormat settings.pathFolder path else none

/-- What the tasks of a note are completed with. -/
structure Surroundings where
  settings : Settings
  today : Date
  context : ProjectContext
  source : Entries
  pathDate : Option Int
  ids : Array Text
  children : Array (List Nat)

/-- A task with its place in the outline, its project, and what it inherits. -/
def complete (around : Surroundings) (node : Outline.Node) (number : Nat)
    (parent : Option ResolvedProject) (task : Task) :
    Except Failure (Task × ResolvedProject) := do
  let isSubtask := node.parent?.isSome
  let project ← (resolveProject around.settings.projects around.context
    task.metadata.project isSubtask parent).named
    around.settings.projects around.context
  let metadata ← Inheritance.apply around.settings.projects around.today around.source isSubtask
    { task.metadata with project := project.written, inferred := project.inferred }
  let task := { task with
    depth := node.depth
    parent := node.parent?.bind fun parent => around.ids[parent]?
    children := ((around.children[number]?).getD []).filterMap fun child => around.ids[child]?
    metadata := dateFromPath around.settings around.pathDate metadata }
  return (task, project)

/-- Completes tasks from the top; the projects found so far are those of the lines above. -/
def completeAll (around : Surroundings) (projects : Array ResolvedProject) :
    List (Task × Outline.Node) → Except Failure (List Task)
  | [] => .ok []
  | (task, node) :: rest => do
    let parent := node.parent?.bind fun parent => projects[parent]?
    let (task, project) ← complete around node projects.size parent task
    return task :: (← completeAll around (projects.push project) rest)

/-- The header of a note: the given one, or else the one in its text; one that cannot be read
counts as empty. -/
def headerOf (note : Note) : Except Error Entries :=
  match note.header, Header.endLine? note.content with
  | some header, _ => .ok header
  | none, none => .ok []
  | none, some _ => match Header.read Header.standardLoader note.content with
    | .ok header => .ok header
    | .error (.unreadable cause) => .error (.header cause)
    | .error _ => .ok []

def firstLine (note : Note) : Nat :=
  match Header.endLine? note.content with
  | some last => last + 1
  | none => 0

def found (settings : Settings) (note : Note) : List Found :=
  taskLines settings note.firstLine note.content

def lineTasks (settings : Settings) (today : Date) (note : Note) : Except Failure (List Task) :=
  (note.found settings).mapM (taskOf settings today note.path)

def outline (settings : Settings) (note : Note) : Outline :=
  Outline.ofIndents ((note.found settings).map fun line => (line.indent : Int))

/-- What the tasks of a note are completed with, given its header and the tasks of its lines. -/
def surroundings (settings : Settings) (today : Date) (note : Note) (header : Entries)
    (tasks : List Task) : Surroundings where
  settings := settings
  today := today
  context := ⟨note.path, header, note.file⟩
  source := Inheritance.source settings.projects header note.file
  pathDate := pathDate? settings note.path
  ids := (tasks.map Task.id).toArray
  children := (note.outline settings).childLists

def tasks (settings : Settings) (today : Date) (note : Note) : Except Error (List Task) := do
  let header ← note.headerOf
  let tasks ← (note.lineTasks settings today).mapError .failure
  let around := note.surroundings settings today header tasks
  (completeAll around #[] (tasks.zip (note.outline settings).nodes)).mapError .failure

/-- The task on a single line, as the line with the given number of a note at a path. -/
def task? (settings : Settings) (today : Date) (path : Text) (number : Int) (line : Text) :
    Except Error (Option Task) := do
  match ← tasks settings today { path := path, content := line, header := some [] } with
  | [] => return none
  | task :: _ => return some { task with id := Task.idOf path number, line := number }

end Note
end Checklist
