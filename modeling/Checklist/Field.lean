import Checklist.Text.Lower

/-! # Fields of a task

The fields that markup, note headers and filters can name. A field has one name; in inline fields
and note headers further words stand for some of them, in any case. -/

namespace Checklist
set_option autoImplicit false
open Text

/-- The dates that a task carries. -/
inductive DateField where
  | due
  | start
  | scheduled
  | completed
  | created
  deriving DecidableEq, Repr

/-- The fields of a task. -/
inductive Field where
  | date (kind : DateField)
  | priority
  | project
  | context
  | area
  | recurrence
  | tags
  deriving DecidableEq, Repr

def DateField.name : DateField → Text
  | .due => "dueDate".toList
  | .start => "startDate".toList
  | .scheduled => "scheduledDate".toList
  | .completed => "completedDate".toList
  | .created => "createdDate".toList

namespace Field

def name : Field → Text
  | .date kind => kind.name
  | .priority => "priority".toList
  | .project => "project".toList
  | .context => "context".toList
  | .area => "area".toList
  | .recurrence => "recurrence".toList
  | .tags => "tags".toList

def all : List Field :=
  [.date .due, .date .start, .date .scheduled, .date .completed, .date .created, .priority,
   .project, .context, .area, .recurrence, .tags]

def ofName? (s : Text) : Option Field :=
  all.find? fun field => field.name == s

def words : List (Text × Field) :=
  [("due".toList, .date .due), ("start".toList, .date .start), ("scheduled".toList, .date .scheduled),
   ("completion".toList, .date .completed), ("completed".toList, .date .completed),
   ("created".toList, .date .created), ("repeat".toList, .recurrence)]

/-- The field that a key stands for, in any case. Tags have no key. -/
def ofKey? (key : Text) : Option Field :=
  let word := lower key
  (words.lookup word).or ((all.erase .tags).find? fun field => lower field.name == word)

theorem ofName?_name (field : Field) : ofName? field.name = some field := by
  cases field with
  | date kind => cases kind <;> decide
  | _ => decide

theorem ofName?_eq_some_iff {s : Text} {field : Field} :
    ofName? s = some field ↔ s = field.name := by
  constructor
  · intro h
    have h' : all.find? (fun field => field.name == s) = some field := h
    have hs := List.find?_some h'
    exact (beq_iff_eq.1 hs).symm
  · rintro rfl
    exact ofName?_name field

end Field

/-- What a piece of metadata is filed under: a field, or a key of the author's own. -/
inductive Slot where
  | field (f : Field)
  | custom (key : Text)
  deriving DecidableEq, Repr

namespace Slot

def ofName (s : Text) : Slot :=
  match Field.ofName? s with
  | some f => .field f
  | none => .custom s

def name : Slot → Text
  | .field f => f.name
  | .custom key => key

theorem name_ofName (s : Text) : (ofName s).name = s := by
  unfold ofName
  split
  · rename_i h
    exact (Field.ofName?_eq_some_iff.1 h).symm
  · rfl

end Slot
end Checklist
