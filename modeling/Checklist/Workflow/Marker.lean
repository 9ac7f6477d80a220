import Checklist.Workflow.Basic

/-! # Markers of stages

A task carries its place in a workflow as `[stage::id]` or `[stage::id.sub]`, or a tag that names
the workflow it is about to enter. -/

namespace Checklist.Workflow
set_option autoImplicit false
open Text

/-- What a line says about its workflow; a line in the middle of one does not name it. -/
structure LineInfo where
  workflow : Option Text
  place : Position
  deriving DecidableEq, Repr

def markerStart : Text := "[stage::".toList

def tagStart : Text := "#workflow/".toList

def marker (place : Position) : Text :=
  let sub := match place.subStage.filter (!·.isEmpty) with
    | some sub => '.' :: sub
    | none => []
  markerStart ++ place.stage ++ sub ++ [']']

def stageText? (s : Text) : Option Text :=
  if markerStart.isPrefixOf s then
    match cut ']' (s.drop markerStart.length) with
    | (stage, some _) => if stage.isEmpty then none else some stage
    | (_, none) => none
  else none

/-- The workflow that the tag at the start of a text names. -/
def tagText? (s : Text) : Option Text :=
  let name := (s.drop tagStart.length).takeWhile fun c => c != '/' && !isBlank c
  if tagStart.isPrefixOf s && !name.isEmpty then some name else none

/-- The first result in a text, from left to right. -/
def firstIn {α : Type} (read : Text → Option α) : Text → Option α
  | [] => none
  | c :: rest => (read (c :: rest)).or (firstIn read rest)

/-- The place that the text of a marker names: a dot comes before the sub-stage. -/
def placeOf (s : Text) : Position :=
  let (stage, sub) := cut '.' (trim s)
  ⟨stage, sub.filter (!·.isEmpty)⟩

/-- What a line says about its workflow; a marker counts more than a tag. -/
def lineInfo? (line : Text) : Option LineInfo :=
  match firstIn stageText? line with
  | some s => some ⟨none, placeOf s⟩
  | none => (firstIn tagText? line).map fun name => ⟨some name, ⟨rootId, none⟩⟩

example : lineInfo? "- [ ] x [stage::draft.write] #workflow/w".toList =
    some ⟨none, ⟨"draft".toList, some "write".toList⟩⟩ := by decide +kernel

end Checklist.Workflow
