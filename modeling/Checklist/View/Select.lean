import Checklist.Filter.Tree
import Checklist.View.Basic

/-! # The tasks that a view shows

What a view hides goes first, then its rules decide, then a filter tree, and last a query
that must occur in the text, the project, the context or a tag. A day that cannot be read
restricts nothing. -/

namespace Checklist.View
set_option autoImplicit false
open Text

/-- A condition on tasks. -/
abbrev Check := Task → Except Failure Bool

def plain (p : Task → Bool) : Check := fun task => .ok (p task)

def shows (view : View) (task : Task) : Bool :=
  !(view.hidesDone && (task.completed || task.category == .abandoned)) &&
    !(view.hidesBlank && isBlankText task.content)

/-- The query occurs in the text of the task, its project, its context or one of its tags,
in any case. -/
def matchesText (query : Text) (task : Task) : Bool :=
  let metadata := task.metadata
  let texts :=
    [task.content, metadata.effectiveProject.getD [], metadata.context.getD []] ++ metadata.tags
  texts.any fun s => occursIn (lower query) (lower s)

/-! ## Rules -/

/-- The parts of a text between commas, trimmed, without empty ones. -/
def commaParts (s : Text) : List Text :=
  ((splitAt ',' s).map trim).filter (· ≠ [])

/-- One of the texts occurs in the path, in any case. -/
def pathHas (parts : List Text) (task : Task) : Bool :=
  parts.any fun part => occursIn (lower part) (lower task.path)

/-- One of the tags is among the task's, in any case. -/
def hasTag (tags : List Text) (task : Task) : Bool :=
  task.metadata.tags.any fun tag => (tags.map Filter.tagWord).contains (lower tag)

/-- The rule about levels: none, one of several, or one; a level that is no number is 0. -/
def hasLevel (rule : Text) (task : Task) : Bool :=
  let level := task.metadata.priority
  if rule == "none".toList then level.isNone
  else if rule.contains ',' then ((splitAt ',' rule).map trim).contains (ofInt (level.getD 0))
  else level == some ((readInt? rule).getD 0)

def onDay (field : DateField) (day : Int) : Check := fun task =>
  match task.metadata.dates.get field with
  | none => .ok false
  | some timestamp => (Filter.dayNumber timestamp).map (· == day)

def dayChecks (today : Date) (field : DateField) (rule : Option Text) :
    Except Failure (List Check) :=
  match rule.filter (!·.isEmpty) with
  | none => .ok []
  | some s => (Filter.dayNumber? today s).map fun day => day.toList.map (onDay field)

def presenceChecks (field : DateField) (rule : Option Presence) : List Check :=
  match rule with
  | some .present => [plain fun task => (task.metadata.dates.get field).isSome]
  | some .absent => [plain fun task => (task.metadata.dates.get field).isNone]
  | some .any | none => []

def ifGiven (rule : Option Text) (check : Text → Task → Bool) : List Check :=
  (rule.filter (!·.isEmpty)).toList.map fun s => plain (check s)

def ifAny (rule : List Text) (check : List Text → Task → Bool) : List Check :=
  if rule.isEmpty then [] else [plain (check rule)]

/-- The conditions of the rules, in the order in which they are asked. -/
def Rules.checks (today : Date) (rules : Rules) : Except Failure (List Check) := do
  let due ← dayChecks today .due rules.due
  let start ← dayChecks today .start rules.start
  let scheduled ← dayChecks today .scheduled rules.scheduled
  return ifGiven rules.textContains (fun s task => occursIn (lower s) (lower task.content))
    ++ ifAny rules.tagsInclude hasTag
    ++ ifAny rules.tagsExclude (fun tags task => !hasTag tags task)
    ++ ifGiven rules.project (fun s task => trim (task.metadata.effectiveProject.getD []) == trim s)
    ++ rules.priority.toList.map (fun rule => plain (hasLevel rule))
    ++ ifAny rules.statusInclude (fun statuses task => statuses.contains task.status)
    ++ ifAny rules.statusExclude (fun statuses task => !statuses.contains task.status)
    ++ ifAny (commaParts (rules.pathIncludes.getD [])) pathHas
    ++ ifAny (commaParts (rules.pathExcludes.getD [])) (fun parts task => !pathHas parts task)
    ++ due ++ start ++ scheduled
    ++ presenceChecks .due rules.hasDue ++ presenceChecks .start rules.hasStart
    ++ presenceChecks .scheduled rules.hasScheduled ++ presenceChecks .completed rules.hasCompleted

/-- All conditions hold; they are asked one after the other until one does not. -/
def meets (checks : List Check) (task : Task) : Except Failure Bool :=
  checks.allM fun check => check task

def Rules.allow (today : Date) (rules : Rules) (task : Task) : Except Failure Bool := do
  meets (← rules.checks today) task

/-! ## Selection -/

/-- The tasks that a view shows, a filter tree lets through, and a query occurs in. -/
def select (today : Date) (view : View) (tree : Option Filter.Tree) (query : Text)
    (tasks : List Task) : Except Failure (List Task) := do
  let checks ← view.rules.checks today
  let shown ← tasks.filterM fun task => if view.shows task then meets checks task else .ok false
  let passed ← match tree with
    | none => pure shown
    | some tree => shown.filterM (tree.passes today)
  return if query.isEmpty then passed else passed.filter (matchesText query)

end Checklist.View
