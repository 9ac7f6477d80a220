import Checklist.Settings.Data
import Checklist.Task.Basic

/-! # Tasks as data

A task as a mapping, with everything that is known of it but the names of inherited values. -/

namespace Checklist
set_option autoImplicit false
open Text

def Recurrence.Rule.toValue (rule : Recurrence.Rule) : Value :=
  .map [(.str "unit".toList, .str rule.unit.name), (.str "interval".toList, .int rule.interval),
    (.str "weekday".toList, (rule.weekday.map Value.int).getD .null),
    (.str "when_done".toList, .bool rule.whenDone)]

/-- A recurrence as data: a rule, or its phrase. -/
def Recurrence.toValue : Recurrence → Value
  | .rule r => r.toValue
  | .phrase s => .str s

def InferredProject.toValue (project : InferredProject) : Value :=
  .map [(.str "type".toList, .str project.kind.name), (.str "name".toList, .str project.name),
    (.str "source".toList, .str project.source), (.str "readonly".toList, .bool true)]

/-- A number, or null. -/
def intOrNull (n : Option Int) : Value :=
  (n.map Value.int).getD .null

def Metadata.toValue (metadata : Metadata) : Value :=
  .map [(.str "due_date".toList, intOrNull metadata.dates.due),
    (.str "start_date".toList, intOrNull metadata.dates.start),
    (.str "scheduled_date".toList, intOrNull metadata.dates.scheduled),
    (.str "completed_date".toList, intOrNull metadata.dates.completed),
    (.str "created_date".toList, intOrNull metadata.dates.created),
    (.str "priority".toList, intOrNull metadata.priority),
    (.str "project".toList, textOrNull metadata.project),
    (.str "tg_project".toList, (metadata.inferred.map InferredProject.toValue).getD .null),
    (.str "effective_project".toList, textOrNull metadata.effectiveProject),
    (.str "tags".toList, .list (metadata.tags.map Value.str)),
    (.str "context".toList, textOrNull metadata.context),
    (.str "area".toList, textOrNull metadata.area),
    (.str "recurrence".toList, (metadata.recurrence.map Recurrence.toValue).getD .null),
    (.str "heading".toList, textOrNull (metadata.heading.map Heading.text)),
    (.str "custom".toList, .map metadata.custom)]

def Task.toValue (task : Task) : Value :=
  .map [(.str "id".toList, .str task.id), (.str "file_path".toList, .str task.path),
    (.str "line".toList, .int task.line),
    (.str "content".toList, .str task.content), (.str "status".toList, .str task.status),
    (.str "status_category".toList, .str (nameOf StatusCategory.names task.category)),
    (.str "completed".toList, .bool task.completed), (.str "indent_level".toList, .int task.depth),
    (.str "list_marker".toList, .str task.marker),
    (.str "parent_id".toList, textOrNull task.parent),
    (.str "children".toList, .list (task.children.map Value.str)),
    (.str "comment".toList, textOrNull task.comment),
    (.str "original_markdown".toList, .str task.lineText),
    (.str "metadata".toList, task.metadata.toValue)]

end Checklist
