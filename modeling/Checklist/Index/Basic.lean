import Checklist.Note.File
import Checklist.View.Select

/-! # The index of tasks

The index holds the tasks of many notes. An update first takes a version number and compares
checksums; the tasks it found are stored when its parse ends, unless a later update or removal of
the same note was issued meanwhile. Main statements: an update that was overtaken changes nothing
(`finish_of_overtaken`), and one that was not leaves its tasks and its checksum behind
(`files_finish`, `checksums_finish`). -/

namespace Checklist
set_option autoImplicit false
open Text

def Table.erase {α : Type} (table : Table α) (key : Text) : Table α :=
  table.filter fun entry => entry.1 != key

/-- The tasks of many notes: tasks by id, and for each note the ids of its tasks, its checksum, and
the version number of the last change. -/
structure Index where
  tasks : Table Task := []
  files : Table (List Text) := []
  checksums : Table Text := []
  versions : Table Nat := []

namespace Index

def size (index : Index) : Nat :=
  index.tasks.length

/-- The paths of the notes, in order. -/
def paths (index : Index) : List Text :=
  sort (index.files.map (·.1))

def task? (index : Index) (id : Text) : Option Task :=
  index.tasks.lookup id

/-- The tasks of a note, in the order of its lines. -/
def tasksOf (index : Index) (path : Text) : List Task :=
  ((index.files.lookup path).getD []).filterMap index.task?

/-- All tasks, note by note. -/
def toList (index : Index) : List Task :=
  index.paths.flatMap index.tasksOf

def query (index : Index) (today : Date) (view : View) (tree : Option Filter.Tree) (query : Text) :
    Except Failure (List Task) :=
  View.select today view tree query index.toList

/-! ## Changes -/

def nextVersion (index : Index) (path : Text) : Nat × Index :=
  let version := (index.versions.lookup path).getD 0 + 1
  (version, { index with versions := index.versions.set path version })

def dropTasks (index : Index) (path : Text) : Index :=
  let ids := (index.files.lookup path).getD []
  { index with tasks := index.tasks.filter fun entry =>
    !ids.contains entry.1, files := index.files.erase path }

def store (index : Index) (path checksum : Text) (tasks : List Task) : Index :=
  let index := index.dropTasks path
  { index with
    tasks := tasks.foldl (fun table task => table.set task.id task) index.tasks
    files := index.files.set path (tasks.map Task.id)
    checksums := index.checksums.set path checksum }

/-- Removes a note; how many tasks it had is counted. -/
def remove (index : Index) (path : Text) : Nat × Index :=
  let (_, index) := index.nextVersion path
  (((index.files.lookup path).getD []).length,
    { index.dropTasks path with checksums := index.checksums.erase path })

/-- An update whose parse has not ended. -/
structure Pending where
  note : Note
  version : Nat
  checksum : Text

/-- What comes of an update at once: the note is unchanged and its tasks are known, or it has
to be parsed. -/
inductive Issued where
  | unchanged (tasks : List Task)
  | pending (pending : Pending)

/-- Issues an update: it takes a version number and compares checksums. -/
def issue (index : Index) (note : Note) : Except Failure Issued × Index :=
  let (version, index) := index.nextVersion note.path
  match note.checksum with
  | .error cause => (.error cause, index)
  | .ok checksum =>
    if index.checksums.lookup note.path == some checksum then
      (.ok (.unchanged (index.tasksOf note.path)), index)
    else (.ok (.pending ⟨note, version, checksum⟩), index)

/-- An update was overtaken by a later one of its note, or by a removal. -/
def isOvertaken (index : Index) (pending : Pending) : Bool :=
  index.versions.lookup pending.note.path != some pending.version

/-- Ends an update with the tasks that its parse found; none if it was overtaken. -/
def finish (index : Index) (pending : Pending) (tasks : List Task) : Option (List Task) × Index :=
  if index.isOvertaken pending then (none, index)
  else (some tasks, index.store pending.note.path pending.checksum tasks)

/-! ## Laws -/

theorem finish_of_overtaken {index : Index} {pending : Pending}
    (h : index.isOvertaken pending = true) (tasks : List Task) :
    index.finish pending tasks = (none, index) := by
  simp [finish, h]

theorem files_finish {index : Index} {pending : Pending} (h : index.isOvertaken pending = false)
    (tasks : List Task) :
    (index.finish pending tasks).2.files.lookup pending.note.path = some (tasks.map Task.id) := by
  simp [finish, h, store, Table.lookup_set_self]

theorem checksums_finish {index : Index} {pending : Pending} (h : index.isOvertaken pending = false)
    (tasks : List Task) :
    (index.finish pending tasks).2.checksums.lookup pending.note.path = some pending.checksum := by
  simp [finish, h, store, Table.lookup_set_self]

theorem versions_nextVersion (index : Index) (path : Text) :
    (index.nextVersion path).2.versions.lookup path = some (index.nextVersion path).1 := by
  simp [nextVersion, Table.lookup_set_self]

end Index
end Checklist
