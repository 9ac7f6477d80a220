import Checklist.Index.Update

/-! # Indexing a folder

All notes of a folder are read, each with the data of its project file, and the index is updated;
notes that are gone are removed. A note that cannot be read is reported and keeps the tasks it had.
Main statement: a report counts each of its notes once (`total_report`). -/

namespace Checklist.Index
set_option autoImplicit false
open Text

/-- What became of the notes of a folder. -/
structure Report where
  indexed : List Text
  unchanged : List Text
  failed : Table Text
  removed : List Text
  taskCount : Nat
  deriving DecidableEq, Repr

def Report.total (report : Report) : Nat :=
  report.indexed.length + report.unchanged.length + report.failed.length

/-- How files are read: what loads their headers, and the path under which errors show a file. -/
structure Reader where
  load : Yaml.Loader := Header.standardLoader
  shown : Text → Text := id

/-- The note in a file, under the path of its place. -/
def Reader.note (reader : Reader) (entry : Route × StoredFile) : Except Note.FileError Note :=
  Note.ofFile reader.load (reader.shown (Route.text entry.1)) (Route.text entry.1) entry.2

/-- Where project files are looked for. -/
structure ProjectFiles where
  rules : ProjectFileRules
  folder : Folder
  root : Route

/-- An index, and what is kept of project files. -/
structure State where
  index : Index := {}
  kept : ProjectFile.Kept := []

/-- What became of one note. -/
inductive Fate where
  | indexed
  | unchanged
  | failed (message : Text)

/-- The data of the project file of a note, if project files are looked for. -/
def projectData (load : Yaml.Loader) (files : Option ProjectFiles)
    (kept : ProjectFile.Kept) (route : Route) : Except Error (Option Entries × ProjectFile.Kept) :=
  match files with
  | none => .ok (none, kept)
  | some files =>
    (ProjectFile.read load files.rules files.folder files.root route kept).mapError .projectFile

/-- Indexes the note in a file. -/
def indexFile (parse : Parse) (files : Option ProjectFiles) (reader : Reader) (state : State)
    (entry : Route × StoredFile) : Except Error (Option (List Task)) × State :=
  match reader.note entry with
  | .error cause => (.error (.file cause), state)
  | .ok note => match projectData reader.load files state.kept entry.1 with
    | .error cause => (.error cause, state)
    | .ok (data, kept) =>
      let (result, index) := state.index.update parse { note with file := data }
      (result, ⟨index, kept⟩)

/-- What became of a note, from its checksum before and after. -/
def fate (before after : Index) (path : Text) :
    Except Error (Option (List Task)) → Except Error Fate
  | .error (.file cause) =>
    if cause.isReported then .ok (.failed cause.message) else .error (.file cause)
  | .error cause => .error cause
  | .ok _ =>
    let checksum := before.checksums.lookup path
    .ok (if checksum.isSome && checksum == after.checksums.lookup path then .unchanged else .indexed)

/-- Indexes a note of a folder and says what became of it. -/
def indexEntry (parse : Parse) (files : Option ProjectFiles) (reader : Reader)
    (before : Index) (state : State) (entry : Route × StoredFile) :
    (Text × Except Error Fate) × State :=
  let path := Route.text entry.1
  let (result, state) := indexFile parse files reader state entry
  ((path, fate before state.index path result), state)

/-- The notes that have a fate, in order. -/
def withFate (fates : List (Text × Fate)) (has : Fate → Bool) : List Text :=
  sort ((fates.filter fun entry => has entry.2).map (·.1))

def Fate.message? : Fate → Option Text
  | .failed message => some message
  | _ => none

/-- The report on notes and on the notes that are gone. -/
def report (fates : List (Text × Fate)) (removed : List Text) (index : Index) : Report where
  indexed := withFate fates fun
    | .indexed => true
    | _ => false
  unchanged := withFate fates fun
    | .unchanged => true
    | _ => false
  failed := fates.filterMap fun (path, fate) => fate.message?.map fun message => (path, message)
  removed := removed
  taskCount := index.size

/-- Indexes the notes of a folder. A run that breaks off over a note has neither a report nor a
state: how far the other notes have come by then depends on the turns they take. Of several such
notes the first one gives the cause. -/
def indexFolder (parse : Parse) (files : Option ProjectFiles) (reader : Reader)
    (folder : Folder) (state : State) : Except Error (Report × State) := do
  let notes := folder.notes
  let (results, after) := through (indexEntry parse files reader state.index) state notes
  let fates ← results.mapM fun (path, fate) => fate.map fun fate => (path, fate)
  let gone := after.index.paths.filter fun path => !notes.any fun entry =>
    Route.text entry.1 == path
  let index := gone.foldl (fun index path => (index.remove path).2) after.index
  return (report fates gone index, { after with index := index })

theorem length_withFate (fates : List (Text × Fate)) (has : Fate → Bool) :
    (withFate fates has).length = (fates.filter fun entry => has entry.2).length := by
  simp [withFate, length_sort]

theorem total_report (fates : List (Text × Fate)) (removed : List Text) (index : Index) :
    (report fates removed index).total = fates.length := by
  simp only [Report.total, report, length_withFate]
  induction fates with
  | nil => rfl
  | cons entry rest ih =>
    obtain ⟨path, fate⟩ := entry
    cases fate <;> simp [Fate.message?] at ih ⊢ <;> omega

end Checklist.Index
