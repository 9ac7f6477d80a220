import Checklist.Field
import Checklist.Text.Basic
import Checklist.Table

/-! # Settings

What a note is read with: the grammars for metadata, the marks in checkboxes, where projects come
from, and the limits of a parse. Every setting has a default. -/

namespace Checklist
set_option autoImplicit false
open Text

/-- The grammars in which metadata is read. -/
inductive Grammars where
  | emojiOnly
  | dataviewOnly
  | both
  deriving DecidableEq, Repr

def Grammars.allowsEmoji : Grammars → Bool
  | .emojiOnly | .both => true
  | .dataviewOnly => false

def Grammars.allowsDataview : Grammars → Bool
  | .dataviewOnly | .both => true
  | .emojiOnly => false

/-- The stage of life that a task is in. -/
inductive StatusCategory where
  | notStarted
  | inProgress
  | abandoned
  | planned
  | completed
  deriving DecidableEq, Repr

/-- The marks for each category, separated by bars, and the category of any other mark. -/
structure StatusMarks where
  completed : Text := "x|X".toList
  inProgress : Text := ">|/".toList
  abandoned : Text := "-".toList
  planned : Text := "?".toList
  notStarted : Text := " ".toList
  others : StatusCategory := .notStarted
  deriving DecidableEq, Repr

/-- A folder, or a pattern with wildcards, whose notes belong to a project. -/
structure PathMapping where
  pattern : Text
  project : Text
  enabled : Bool := true
  deriving DecidableEq, Repr

/-- What a note's header says about its tasks: the key of the project, and who inherits. -/
structure HeaderRules where
  projectKey : Text := "project".toList
  inherits : Bool := true
  subtasksInherit : Bool := false
  enabled : Bool := true
  deriving DecidableEq, Repr

/-- Project files: notes beside or above a note that hold data for all of its folder. -/
structure ProjectFileRules where
  fileName : Text := "project.md".toList
  climbs : Bool := true
  enabled : Bool := false
  deriving DecidableEq, Repr

/-- A header key whose value is also filed under another key. -/
structure KeyMapping where
  source : Text
  target : Text
  enabled : Bool := true
  deriving DecidableEq, Repr

/-- What names a project that nothing else names. -/
inductive NamingSource where
  | fileName
  | folderName
  | header
  deriving DecidableEq, Repr

/-- How a project gets a name if nothing else names it. -/
structure NamingRules where
  source : NamingSource := .fileName
  headerKey : Option Text := none
  stripsExtension : Bool := true
  enabled : Bool := false
  deriving DecidableEq, Repr

/-- Where projects come from. -/
structure ProjectRules where
  infers : Bool := true
  paths : List PathMapping := []
  header : HeaderRules := {}
  file : ProjectFileRules := {}
  keys : List KeyMapping := []
  naming : NamingRules := {}
  deriving DecidableEq, Repr

def defaultSymbols : Table Field :=
  [("📅".toList, .date .due), ("🛫".toList, .date .start), ("⏳".toList, .date .scheduled),
   ("✅".toList, .date .completed), ("➕".toList, .date .created), ("🔁".toList, .recurrence),
   ("🔺".toList, .priority), ("⏫".toList, .priority), ("🔼".toList, .priority),
   ("🔽".toList, .priority), ("⏬".toList, .priority)]

/-- The first parts of tags that file the rest under a name of their own. -/
def defaultTagKeys : Table Text :=
  ["project".toList, "area".toList, "context".toList].map fun key => (key, key)

/-- All settings. -/
structure Settings where
  readsComments : Bool := false
  readsMetadata : Bool := true
  readsTags : Bool := true
  readsHeadings : Bool := false
  grammars : Grammars := .both
  lineLimit : Nat := 4000
  metadataLimit : Nat := 400
  tabSize : Nat := 4
  symbols : Table Field := defaultSymbols
  tagKeys : Table Text := defaultTagKeys
  marks : StatusMarks := {}
  projects : Option ProjectRules := some {}
  datesFromPaths : Bool := false
  pathFormat : Text := "YYYY-MM-DD".toList
  pathFolder : Text := []
  pathDate : DateField := .due
  deriving DecidableEq, Repr

namespace StatusMarks

/-- The marks in a text, separated by bars. -/
def split (marks : Text) : List Text :=
  (splitAt '|' marks).filter (· ≠ [])

def ofCategory (marks : StatusMarks) : StatusCategory → List Text
  | .completed => split marks.completed
  | .inProgress => split marks.inProgress
  | .abandoned => split marks.abandoned
  | .planned => split marks.planned
  | .notStarted => split marks.notStarted

/-- The categories in the order in which they claim a mark. -/
def precedence : List StatusCategory :=
  [.completed, .abandoned, .inProgress, .planned, .notStarted]

/-- The category of every mark; of two categories that claim a mark the first one gets it. -/
def table (marks : StatusMarks) : Table StatusCategory :=
  Table.ofListFirst (precedence.flatMap fun category => (marks.ofCategory category).map fun mark =>
    (mark, category))

def category (marks : StatusMarks) (status : Char) : StatusCategory :=
  (marks.table.lookup [status]).getD marks.others

end StatusMarks
end Checklist
