import Checklist.Text.Basic

/-! # Workflows

A workflow is a list of stages. A linear stage leads on to another one, a cycle goes round its
sub-stages until it is left, and a terminal stage ends the workflow. Main statement: entering a
stage keeps its id (`stage_enter`). -/

namespace Checklist
set_option autoImplicit false

/-- A step inside a cycle; without a next step the cycle returns to its first one. -/
structure SubStage where
  id : Text
  name : Text
  next : Option Text
  deriving DecidableEq, Repr

namespace Stage

/-- The stages that are named to come next: none, one, or several in order of preference. -/
inductive Targets where
  | none
  | one (id : Text)
  | several (ids : List Text)
  deriving DecidableEq, Repr

/-- The kinds of stage. -/
inductive Kind where
  | linear (next : Targets)
  | cycle (next : Targets) (subStages : List SubStage)
  | terminal
  deriving DecidableEq, Repr

end Stage

/-- A stage, with the other stages that it may proceed to. -/
structure Stage where
  id : Text
  name : Text
  canProceedTo : List Text
  kind : Stage.Kind
  deriving DecidableEq, Repr

/-- Facts about a definition that no transition depends on. -/
structure Workflow.About where
  version : Text := "1.0".toList
  created : Option Text := none
  lastModified : Option Text := none
  deriving DecidableEq, Repr

/-- A life cycle for tasks. -/
structure Workflow where
  id : Text
  name : Text
  description : Text
  stages : List Stage
  about : Workflow.About
  deriving DecidableEq, Repr

/-- A place in a workflow: a stage, and a sub-stage if it is a cycle. -/
structure Position where
  stage : Text
  subStage : Option Text := none
  deriving DecidableEq, Repr

namespace Stage

def Targets.ids : Targets → List Text
  | .none => []
  | .one id => [id]
  | .several ids => ids

def nextIds (stage : Stage) : List Text :=
  match stage.kind with
  | .linear next | .cycle next _ => next.ids
  | .terminal => []

/-- The sub-stages of a cycle; other stages have none. -/
def subStages (stage : Stage) : List SubStage :=
  match stage.kind with
  | .cycle _ subStages => subStages
  | .linear _ | .terminal => []

def references (stage : Stage) : List Text :=
  stage.nextIds ++ stage.canProceedTo

end Stage

def SubStage.find? (subStages : List SubStage) (id : Text) : Option SubStage :=
  subStages.find? fun sub => sub.id == id

namespace Workflow

def stage? (workflow : Workflow) (id : Text) : Option Stage :=
  workflow.stages.find? fun stage => stage.id == id

/-- The name for the place of a task that has not entered a stage yet. -/
def rootId : Text := "root".toList

/-- The place of a task that has just come to a stage: a cycle begins with its first sub-stage. -/
def enter (workflow : Workflow) (id : Text) : Position :=
  ⟨id, ((workflow.stage? id).bind fun stage => stage.subStages.head?).map (·.id)⟩

def following? (workflow : Workflow) (id : Text) : Option Stage :=
  (workflow.stages.dropWhile fun stage => stage.id != id)[1]?

/-- The place after a sub-stage, or after a cycle whose sub-stage is not known. A cycle is left when
it comes to a sub-stage without a next one and may proceed elsewhere. -/
def nextInCycle (workflow : Workflow) (stage : Stage) (sub : Option SubStage) : Position :=
  match sub.bind fun sub => sub.next.filter (!·.isEmpty) with
  | some next => ⟨stage.id, some next⟩
  | none => match stage.canProceedTo with
    | id :: _ => workflow.enter id
    | [] => ⟨stage.id, sub.bind fun _ => stage.subStages.head?.map (·.id)⟩

/-- The place after a place; none after a terminal stage, the last stage and an unknown one. -/
def next? (workflow : Workflow) (place : Position) : Option Position :=
  match workflow.stages with
  | [] => none
  | first :: _ =>
    if place.stage == rootId then some (workflow.enter first.id)
    else (workflow.stage? place.stage).bind fun stage => match stage.kind with
      | .terminal => none
      | .cycle _ subStages =>
        some (workflow.nextInCycle stage
          ((place.subStage.filter (!·.isEmpty)).bind (SubStage.find? subStages)))
      | .linear _ => match stage.references with
        | id :: _ => some (workflow.enter id)
        | [] => (workflow.following? stage.id).map fun stage => workflow.enter stage.id

/-- The places after a place, as many as asked for at most. -/
def run (workflow : Workflow) : Nat → Position → List Position
  | 0, _ => []
  | count + 1, place => match workflow.next? place with
    | none => []
    | some next => next :: run workflow count next

theorem stage_enter (workflow : Workflow) (id : Text) : (workflow.enter id).stage = id := rfl

theorem next?_terminal {workflow : Workflow} {place : Position} {stage : Stage}
    (hroot : place.stage ≠ rootId)
    (hstage : workflow.stage? place.stage = some stage) (hkind : stage.kind = .terminal) :
    workflow.next? place = none := by
  unfold next?
  split
  · rfl
  · simp [hroot, hstage, hkind]

end Workflow
end Checklist
