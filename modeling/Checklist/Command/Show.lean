import Checklist.Command.Styled
import Checklist.Calendar.Moment
import Checklist.Task.Data
import Checklist.Value.Json
import Checklist.Workflow.Basic

/-! # What commands show

Data as JSON, tasks and projects as lines, and workflows as trees. -/

namespace Checklist.Command
set_option autoImplicit false
open Text

def lineWidth : Nat := 200

/-- Lines as a text, each with its end. -/
def unlines (lines : List Text) : Text :=
  lines.flatMap fun line => line ++ ['\n']

/-- A styled message as lines; none if the end of a style has no start. -/
def say? (message : Text) : Option Text :=
  (Styled.plain? message).map fun s => unlines (Styled.wrap lineWidth s)

def coloured (colour : String) (message : Text) : Text :=
  ['['] ++ colour.toList ++ [']'] ++ message ++ "[/".toList ++ colour.toList ++ [']']

def dataText (value : Value) : Except Failure Text :=
  (Json.writeAt Value.display Json.Style.report 0 value).map (· ++ ['\n'])

/-! ## Trees -/

/-- The lines of a branch: its label, and what is below it. -/
def branch (isLast : Bool) (label below : List Text) : List Text :=
  let corner := (if isLast then "└── " else "├── ").toList
  let side := (if isLast then "    " else "│   ").toList
  match label with
  | [] => below.map (side ++ ·)
  | first :: rest => (corner ++ first) :: (rest ++ below).map (side ++ ·)

/-- The lines of branches; the last one is drawn as such. -/
def branches : List (List Text × List Text) → List Text
  | [] => []
  | [(label, below)] => branch true label below
  | (label, below) :: rest => branch false label below ++ branches rest

def label? (depth : Nat) (s : Text) : Option (List Text) :=
  (Styled.plain? s).map (Styled.wrap (lineWidth - 4 * depth))

def kindWord (stage : Stage) : Text :=
  match stage.kind with
  | .linear _ => "linear".toList
  | .cycle _ _ => "cycle".toList
  | .terminal => "terminal".toList

def subLabel (stage : Stage) (sub : SubStage) : Text :=
  let next := (sub.next.filter (!·.isEmpty)).or (stage.subStages.head?.map (·.id))
  sub.id ++ " -> ".toList ++ next.getD []

def stageBranch? (stage : Stage) : Option (List Text × List Text) := do
  let label ← label? 1 (stage.id ++ " [dim]".toList ++ kindWord stage ++ "[/dim]".toList)
  let subs ← stage.subStages.mapM fun sub => label? 2 (subLabel stage sub)
  return (label, branches (subs.map fun label => (label, [])))

/-- The stages of a workflow as a tree, and how many they are. -/
def workflowText? (workflow : Workflow) : Option Text := do
  let label ← label? 0 ("[bold]".toList ++ workflow.name ++ "[/bold] (".toList ++ workflow.id ++ [')'])
  let stages ← workflow.stages.mapM stageBranch?
  let count ← say?
    (coloured "green" ("✓ ".toList ++ ofNat workflow.stages.length ++ " stages valid".toList))
  return unlines (label ++ branches stages) ++ count

/-! ## Tables -/

/-- A task as a line of a table: where it is, its status, its text, its project and its tags. -/
def taskLine (showsFile : Bool) (task : Task) : Text :=
  let place :=
    if showsFile then task.path ++ ':' :: ofInt task.lineNumber else ofInt task.lineNumber
  let tags := task.metadata.tags.map fun tag => '#' :: tag
  let parts :=
    [place, ['['] ++ task.status ++ [']'],
      List.replicate (2 * task.depth.toNat) ' ' ++ task.content,
    task.metadata.effectiveProject.getD []] ++ tags
  join [' '] (parts.filter fun part => !part.isEmpty)

def taskTable (title : Text) (showsFile : Bool) (tasks : List Task) : Text :=
  unlines (title :: tasks.map (taskLine showsFile))

def projectCounts (tasks : List Task) : List (Text × Nat) :=
  let names := tasks.map fun task =>
    (task.metadata.effectiveProject.filter (!·.isEmpty)).getD "(none)".toList
  (sort names.eraseDups).map fun name => (name, names.count name)

end Checklist.Command
