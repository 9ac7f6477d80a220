import Checklist.Filter.Compare
import Checklist.Settings.Data
import Checklist.Task.Basic

/-! # Filter trees

Filters stand in groups, and the groups of a tree are combined in turn. An empty tree and an empty
group let everything through. -/

namespace Checklist
set_option autoImplicit false
open Text Schema

/-- A comparison of a property with an operand. -/
structure Filter where
  id : Option Text
  property : Text
  condition : Text
  operand : Option Text
  deriving DecidableEq, Repr

/-- Filters that are combined. -/
structure Filter.Group where
  id : Option Text
  combinator : Filter.Combinator
  filters : List Filter
  deriving DecidableEq, Repr

/-- Groups that are combined. -/
structure Filter.Tree where
  combinator : Filter.Combinator
  groups : List Filter.Group
  deriving DecidableEq, Repr

namespace Filter

/-! ## Trees as data -/

/-- A text, or another value by its text. -/
def anyText : Schema (Option Text)
  | .null => .ok none
  | value => .ok (some value.display)

def schema : Schema Filter :=
  record "Filter" fun entries =>
    Filter.mk
      <$> optional ["id"] none (nullable text) entries
      <*> required ["property"] text entries
      <*> optional ["condition"] [] text entries
      <*> optional ["value"] none anyText entries

def Group.schema : Schema Group :=
  record "FilterGroup" fun entries =>
    Group.mk
      <$> optional ["id"] none (nullable text) entries
      <*> optional ["groupCondition", "group_condition"] .all (literal Combinator.names) entries
      <*> optional ["filters"] [] (listOf Filter.schema) entries

def Tree.schema : Schema Tree :=
  record "RootFilterState" fun entries =>
    Tree.mk
      <$> optional ["rootCondition", "root_condition"] .any (literal Combinator.names) entries
      <*> optional ["filterGroups", "filter_groups"] [] (listOf Group.schema) entries

def toValue (filter : Filter) : Value :=
  .map [(.str "id".toList, textOrNull filter.id), (.str "property".toList, .str filter.property),
    (.str "condition".toList, .str filter.condition),
    (.str "value".toList, textOrNull filter.operand)]

def Group.toValue (group : Group) : Value :=
  .map [(.str "id".toList, textOrNull group.id),
    (.str "groupCondition".toList, .str (nameOf Combinator.names group.combinator)),
    (.str "filters".toList, .list (group.filters.map Filter.toValue))]

def Tree.toValue (tree : Tree) : Value :=
  .map [(.str "rootCondition".toList, .str (nameOf Combinator.names tree.combinator)),
    (.str "filterGroups".toList, .list (tree.groups.map Group.toValue))]

def invalidMessage : Text := "Invalid filter definition".toList

/-! ## Evaluation -/

/-- The property of a task satisfies a condition; a property that a task lacks does. -/
def compare (today : Date) (task : Task) (property condition : Text) (operand : Option Text) :
    Except Failure Bool :=
  let metadata := task.metadata
  if property == "content".toList then .ok (compareText task.content condition operand)
  else if property == "status".toList then .ok (compareText task.status condition operand)
  else if property == "filePath".toList then .ok (compareText task.path condition operand)
  else if property == "completed".toList then .ok (compareDone task.completed condition)
  else match Field.ofName? property with
    | some (.date kind) => compareDate today (metadata.dates.get kind) condition operand
    | some .priority => comparePriority metadata.priority condition operand
    | some .project => .ok (compareText metadata.effectiveProject condition operand)
    | some .context => .ok (compareText metadata.context condition operand)
    | some .area => .ok (compareText metadata.area condition operand)
    | some .tags => .ok (compareTags metadata.tags condition operand)
    | some .recurrence | none => .ok true

def passes (today : Date) (task : Task) (filter : Filter) : Except Failure Bool :=
  if filter.condition.isEmpty then .ok true
  else compare today task filter.property filter.condition filter.operand

def Group.passes (today : Date) (task : Task) (group : Group) : Except Failure Bool :=
  if group.filters.isEmpty then .ok true
  else (group.filters.mapM (Filter.passes today task)).map group.combinator.combine

def Tree.passes (today : Date) (task : Task) (tree : Tree) : Except Failure Bool :=
  if tree.groups.isEmpty then .ok true
  else (tree.groups.mapM (Group.passes today task)).map tree.combinator.combine

end Filter
end Checklist
