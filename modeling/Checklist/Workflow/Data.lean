import Checklist.Workflow.Flaw
import Checklist.Schema
import Checklist.Settings.Data
import Checklist.Yaml.Data

/-! # Workflows as data

The definition of a workflow is a mapping with a list of stages, in JSON or in YAML. It is checked
when it is read, so that no transition meets a stage that does not exist. Main statement: a
definition that is read has no flaw (`flaw?_of_load`). -/

namespace Checklist
set_option autoImplicit false
open Text Schema

/-! ## Reading -/

def SubStage.schema : Schema SubStage :=
  record "SubStage" fun entries =>
    SubStage.mk
      <$> required ["id"] text entries
      <*> required ["name"] text entries
      <*> optional ["next"] none (nullable text) entries

namespace Stage

/-- Reads the stages named to come next: null, an id or a list of ids. -/
def Targets.schema : Schema Targets := fun value =>
  (nullable textOrTexts value).map fun
    | .none => .none
    | .some (.inl id) => .one id
    | .some (.inr ids) => .several ids

/-- Reads a stage of a kind that is read from the entries of the stage. -/
def ofKind (name : String) (kind : Entries → Checked Kind) : Schema Stage :=
  record name fun entries =>
    Stage.mk
      <$> required ["id"] text entries
      <*> required ["name"] text entries
      <*> optional ["canProceedTo", "can_proceed_to"] [] (listOf text) entries
      <*> kind entries

def linear : Schema Stage :=
  ofKind "LinearStage" fun entries => Kind.linear <$> optional ["next"] .none Targets.schema entries

def cycle : Schema Stage :=
  ofKind "CycleStage" fun entries =>
    Kind.cycle
      <$> optional ["next"] .none Targets.schema entries
      <*> optional ["subStages", "sub_stages"] [] (listOf SubStage.schema) entries

def leadsOnMessage (id : Value) : Text :=
  "terminal stage '".toList ++ id.display ++ "' cannot have a next stage".toList

/-- Reads a terminal stage, which names no next stage. -/
def terminal : Schema Stage
  | .map entries =>
    if ((Entries.getText? entries "next".toList).any Value.isGiven) then
      .fail (.rejected (leadsOnMessage ((Entries.getText? entries "id".toList).getD .null)))
    else ofKind "TerminalStage" (fun _ => .ok .terminal) (.map entries)
  | value => ofKind "TerminalStage" (fun _ => .ok .terminal) value

def schema : Schema Stage :=
  tagged "type" [("linear".toList, linear), ("cycle".toList, cycle), ("terminal".toList, terminal)]

end Stage

namespace Workflow

def About.schema : Schema About :=
  record "WorkflowMetadata" fun entries =>
    About.mk
      <$> optional ["version"] "1.0".toList text entries
      <*> optional ["created"] none (nullable text) entries
      <*> optional ["lastModified", "last_modified"] none (nullable text) entries

def fields : Schema Workflow :=
  record "WorkflowDefinition" fun entries =>
    Workflow.mk
      <$> required ["id"] text entries
      <*> required ["name"] text entries
      <*> optional ["description"] [] text entries
      <*> optional ["stages"] [] (listOf Stage.schema) entries
      <*> optional ["metadata"] {} About.schema entries

/-- The workflow, unless its stages have a flaw. -/
def checked (workflow : Workflow) : Except Text Workflow :=
  match flaw? workflow.stages with
  | none => .ok workflow
  | some flaw => .error flaw.message

def schema : Schema Workflow :=
  check fields checked

/-! ## Writing -/

end Workflow

def SubStage.toValue (sub : SubStage) : Value :=
  .map [(.str "id".toList, .str sub.id), (.str "name".toList, .str sub.name),
    (.str "next".toList, textOrNull sub.next)]

namespace Stage

def Targets.toValue : Targets → Value
  | .none => .null
  | .one id => .str id
  | .several ids => .list (ids.map Value.str)

def Kind.toEntries : Kind → Entries
  | .linear next => [(.str "type".toList, .str "linear".toList), (.str "next".toList, next.toValue)]
  | .cycle next subStages =>
    [(.str "type".toList, .str "cycle".toList), (.str "next".toList, next.toValue),
     (.str "subStages".toList, .list (subStages.map SubStage.toValue))]
  | .terminal => [(.str "type".toList, .str "terminal".toList)]

def toValue (stage : Stage) : Value :=
  .map ([(.str "id".toList, .str stage.id), (.str "name".toList, .str stage.name),
    (.str "canProceedTo".toList, .list (stage.canProceedTo.map Value.str))] ++ stage.kind.toEntries)

end Stage

namespace Workflow

def About.toValue (about : About) : Value :=
  .map [(.str "version".toList, .str about.version), (.str "created".toList, textOrNull about.created),
    (.str "lastModified".toList, textOrNull about.lastModified)]

def toValue (workflow : Workflow) : Value :=
  .map [(.str "id".toList, .str workflow.id), (.str "name".toList, .str workflow.name),
    (.str "description".toList, .str workflow.description),
    (.str "stages".toList, .list (workflow.stages.map Stage.toValue)),
    (.str "metadata".toList, workflow.about.toValue)]

/-! ## Loading -/

/-- Why there is no workflow. -/
inductive Error where
  /-- The data are no definition; the id is the one they give. -/
  | invalid (id : Option Text) (first : Issue) (rest : List Issue)
  /-- The file is not there or has another shape. -/
  | unreadable (path : Text)
  /-- The file holds something other than a mapping. -/
  | noMapping (path : Text)
  /-- The file holds a number that is too long. -/
  | hugeNumber
  /-- The file holds a value under a tag that it does not fit. -/
  | misfit (cause : Yaml.Error)
  deriving DecidableEq, Repr

def Error.message : Error → Text
  | .invalid id first rest =>
    let words := join "; ".toList ((first :: rest).map fun issue => issue.cause.message)
    match id with
    | some id => "Workflow ".toList ++ quote id ++ ": ".toList ++ words
    | none => words
  | .unreadable path => "Could not read ".toList ++ path
  | .noMapping path => path ++ " must contain a mapping".toList
  | .hugeNumber | .misfit _ => []

/-- The id that data give, as text. -/
def givenId? : Value → Option Text
  | .map entries => ((Entries.getText? entries "id".toList).filter Value.isGiven).map Value.display
  | _ => none

def load (data : Value) : Except Error Workflow :=
  match schema data with
  | .ok workflow => .ok workflow
  | .issues first rest => .error (.invalid (givenId? data) first rest)

/-- The data in a file: YAML, unless its name says that it is JSON. -/
def readData (isJson : Bool) (path s : Text) : Except Error Value :=
  if isJson then (Json.read s).mapError fun
    | .malformed => .unreadable path
    | .hugeNumber => .hugeNumber
  else (Yaml.load .strict s).mapError fun
    | .malformed | .missingColon | .unsupported => .unreadable path
    | cause => .misfit cause

def loadText (isJson : Bool) (path s : Text) : Except Error Workflow := do
  match ← readData isJson path (unifyNewlines s) with
  | .map entries => load (.map entries)
  | _ => .error (.noMapping path)

theorem flaw?_of_load {data : Value} {workflow : Workflow} (h : load data = .ok workflow) :
    flaw? workflow.stages = none := by
  cases hfields : fields data with
  | issues first rest => simp [load, schema, check, hfields, Checked.andThen] at h
  | ok w =>
    cases hflaw : flaw? w.stages with
    | none =>
      simp [load, schema, check, hfields, Checked.andThen, checked, hflaw] at h
      exact h ▸ hflaw
    | some flaw =>
      simp [load, schema, check, hfields, Checked.andThen, checked, hflaw, Checked.fail] at h

end Workflow
end Checklist
