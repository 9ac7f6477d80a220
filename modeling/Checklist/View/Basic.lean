import Checklist.Settings.Data

/-! # Views

A view shows some of the tasks: it may hide those that are done or blank, and has rules about text,
tags, project, level, status, path and dates. -/

namespace Checklist
set_option autoImplicit false
open Text Schema

/-- A rule about whether a task has a date. -/
inductive View.Presence where
  | any
  | present
  | absent
  deriving DecidableEq, Repr

/-- The rules of a view; one that is not given restricts nothing. -/
structure View.Rules where
  textContains : Option Text := none
  tagsInclude : List Text := []
  tagsExclude : List Text := []
  project : Option Text := none
  priority : Option Text := none
  statusInclude : List Text := []
  statusExclude : List Text := []
  pathIncludes : Option Text := none
  pathExcludes : Option Text := none
  due : Option Text := none
  start : Option Text := none
  scheduled : Option Text := none
  hasDue : Option View.Presence := none
  hasStart : Option View.Presence := none
  hasScheduled : Option View.Presence := none
  hasCompleted : Option View.Presence := none
  deriving DecidableEq, Repr

/-- What a view hides, and its rules. -/
structure View where
  hidesDone : Bool := false
  hidesBlank : Bool := false
  rules : View.Rules := {}
  deriving DecidableEq, Repr

namespace View

def Presence.names : List (Text × Presence) :=
  [("any".toList, .any), ("hasDate".toList, .present), ("noDate".toList, .absent)]

/-- Reads a level or levels; a value that is no text counts by its text. -/
def levels : Schema (Option Text)
  | .null => .ok none
  | value => .ok (some value.display)

def Rules.schema : Schema Rules :=
  record "ViewFilterRules" fun entries =>
    Rules.mk
      <$> optional ["textContains", "text_contains"] none (nullable text) entries
      <*> optional ["tagsInclude", "tags_include"] [] (listOf text) entries
      <*> optional ["tagsExclude", "tags_exclude"] [] (listOf text) entries
      <*> optional ["project"] none (nullable text) entries
      <*> optional ["priority"] none levels entries
      <*> optional ["statusInclude", "status_include"] [] (listOf text) entries
      <*> optional ["statusExclude", "status_exclude"] [] (listOf text) entries
      <*> optional ["pathIncludes", "path_includes"] none (nullable text) entries
      <*> optional ["pathExcludes", "path_excludes"] none (nullable text) entries
      <*> optional ["dueDate", "due_date"] none (nullable text) entries
      <*> optional ["startDate", "start_date"] none (nullable text) entries
      <*> optional ["scheduledDate", "scheduled_date"] none (nullable text) entries
      <*> optional ["hasDueDate", "has_due_date"] none (nullable (literal Presence.names)) entries
      <*> optional ["hasStartDate", "has_start_date"] none (nullable (literal Presence.names)) entries
      <*> optional ["hasScheduledDate", "has_scheduled_date"]
        none (nullable (literal Presence.names)) entries
      <*> optional ["hasCompletedDate", "has_completed_date"]
        none (nullable (literal Presence.names)) entries

def schema : Schema View :=
  record "ViewConfig" fun entries =>
    View.mk
      <$> optional ["hideCompletedAndAbandonedTasks",
        "hide_completed_and_abandoned"] false truth entries
      <*> optional ["filterBlanks", "filter_blanks"] false truth entries
      <*> optional ["filterRules", "filter_rules"] {} Rules.schema entries

def presenceValue : Option Presence → Value
  | some presence => .str (nameOf Presence.names presence)
  | none => .null

def textList (items : List Text) : Value :=
  .list (items.map Value.str)

def Rules.toValue (rules : Rules) : Value :=
  .map [(.str "textContains".toList, textOrNull rules.textContains),
    (.str "tagsInclude".toList, textList rules.tagsInclude),
    (.str "tagsExclude".toList, textList rules.tagsExclude),
    (.str "project".toList, textOrNull rules.project),
    (.str "priority".toList, textOrNull rules.priority),
    (.str "statusInclude".toList, textList rules.statusInclude),
    (.str "statusExclude".toList, textList rules.statusExclude),
    (.str "pathIncludes".toList, textOrNull rules.pathIncludes),
    (.str "pathExcludes".toList, textOrNull rules.pathExcludes),
    (.str "dueDate".toList, textOrNull rules.due),
    (.str "startDate".toList, textOrNull rules.start),
    (.str "scheduledDate".toList, textOrNull rules.scheduled),
    (.str "hasDueDate".toList, presenceValue rules.hasDue),
    (.str "hasStartDate".toList, presenceValue rules.hasStart),
    (.str "hasScheduledDate".toList, presenceValue rules.hasScheduled),
    (.str "hasCompletedDate".toList, presenceValue rules.hasCompleted)]

def toValue (view : View) : Value :=
  .map [(.str "hideCompletedAndAbandonedTasks".toList, .bool view.hidesDone),
    (.str "filterBlanks".toList, .bool view.hidesBlank),
    (.str "filterRules".toList, view.rules.toValue)]

end View
end Checklist
