import Checklist.Folder
import Checklist.Note.Parse
import Checklist.Sha256
import Checklist.Value.Json

/-! # Notes in files

Reading the text and the header of a note from a file, and the checksum by which a change is
noticed. Main statement: a note that is read from a file has its header with it
(`header_ofFile`). -/

namespace Checklist.Note
set_option autoImplicit false
open Text

/-- Why the note in a file cannot be read. -/
inductive FileError where
  /-- The file at a path is no text. -/
  | notText (path : Text)
  /-- Its header cannot be read. -/
  | header (cause : Header.Error)
  deriving DecidableEq, Repr

def FileError.message : FileError → Text
  | .notText path => "Failed to read file ".toList ++ path
  | .header cause => cause.message

/-- The file is to blame, and not a value in it that cannot be taken in. -/
def FileError.isReported : FileError → Bool
  | .header (.unreadable _) => false
  | _ => true

/-- The note in a file, under a path of its own and shown under another one. -/
def ofFile (load : Yaml.Loader) (shown path : Text) (file : StoredFile) : Except FileError Note :=
  match file.text? with
  | none => .error (.notText shown)
  | some content =>
    (Header.read load content).mapError .header |>.map fun header =>
      { path := path, content := content, header := some header }

/-- Entries as a value, or null. -/
def orNull : Option Entries → Value
  | some entries => .map entries
  | none => .null

/-- All that the tasks of a note depend on, as one text. -/
def evidence (note : Note) : Except Failure Text := do
  let context ← Json.writeAt Value.display Json.Style.canonical 0
    (.list [orNull note.header, orNull note.file])
  return note.content ++ '\n' :: context

def checksum (note : Note) : Except Failure Text :=
  note.evidence.map fun s => Sha256.hexDigest (utf8 s)

theorem header_ofFile {load : Yaml.Loader} {shown path : Text} {file : StoredFile} {note : Note}
    (h : ofFile load shown path file = .ok note) :
    ∃ header, note.header = some header := by
  unfold ofFile at h
  split at h
  · simp at h
  · rename_i content _
    cases hread : Header.read load content with
    | error cause =>
      rw [hread] at h
      have h : (Except.error (FileError.header cause) : Except FileError Note) = .ok note := h
      cases h
    | ok header =>
      rw [hread] at h
      have h : (.ok { path := path, content := content, header := some header } :
          Except FileError Note) = .ok note := h
      cases h
      exact ⟨header, rfl⟩

end Checklist.Note
