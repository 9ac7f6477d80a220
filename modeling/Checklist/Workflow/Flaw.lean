import Checklist.Workflow.Basic

/-! # Flaws of workflows

What makes a list of stages no workflow: two stages of one id, a reference to a stage that does not
exist, and sub-stages that are no ring. Main statement: a walk round the sub-stages leaves over only
sub-stages that it started with (`leftOver_subset`). -/

namespace Checklist.Workflow
set_option autoImplicit false
open Text

/-- What is wrong with a list of stages. -/
inductive Flaw where
  /-- Several stages have one id. -/
  | duplicates (ids : List Text)
  /-- A stage refers to one that does not exist. -/
  | unknownStage (stage target : Text)
  /-- A sub-stage refers to one that its stage does not have. -/
  | unknownSubStage (subStage stage target : Text)
  /-- The sub-stages lead into a loop that misses the first one. -/
  | misses (stage first : Text)
  /-- The first sub-stage does not lead to these. -/
  | unreachable (stage first : Text) (ids : List Text)
  deriving DecidableEq, Repr

def quote (id : Text) : Text :=
  ['\''] ++ id ++ ['\'']

def Flaw.message : Flaw → Text
  | .duplicates ids => "duplicate stage ids: ".toList ++ join ", ".toList ids
  | .unknownStage stage target =>
    "stage ".toList ++ quote stage ++ " refers to unknown stage ".toList ++ quote target
  | .unknownSubStage sub stage target =>
    "sub-stage ".toList ++ quote sub ++ " of ".toList ++ quote stage ++
      " refers to unknown sub-stage ".toList ++ quote target
  | .misses stage first =>
    "sub-stages of ".toList ++ quote stage ++ " loop without returning to ".toList ++ quote first
  | .unreachable stage first ids =>
    "sub-stages of ".toList ++ quote stage ++ " not reachable from ".toList ++ quote first ++
      ": ".toList ++ join ", ".toList ids

/-! ## Rings of sub-stages -/

def without (id : Text) (subStages : List SubStage) : List SubStage :=
  subStages.filter fun sub => sub.id != id

theorem length_without_lt {subStages : List SubStage} {id : Text} {sub : SubStage}
    (h : SubStage.find? subStages id = some sub) :
    (without id subStages).length < subStages.length := by
  unfold SubStage.find? at h
  have hid := List.find?_some h
  exact List.length_filter_lt_length_iff_exists.2 ⟨sub, List.mem_of_find?_eq_some h, by simp_all⟩

/-- Walks on from a sub-stage until it comes back to the first one. The sub-stages not met on the
way are left over; none if the walk meets another one twice. -/
def leftOver? (first : Text) (current : SubStage) (unmet : List SubStage) :
    Option (List SubStage) :=
  match current.next with
  | none => some unmet
  | some next =>
    if next == first then some unmet
    else match _h : SubStage.find? unmet next with
      | none => none
      | some sub => leftOver? first sub (without next unmet)
termination_by unmet.length
decreasing_by exact length_without_lt ‹_›

theorem leftOver_subset {first : Text} {current : SubStage} {unmet left : List SubStage}
    (h : leftOver? first current unmet = some left) :
    left ⊆ unmet := by
  fun_induction leftOver? first current unmet with
  | case1 current unmet hnext => simp_all
  | case2 current unmet next hnext hfirst => simp_all
  | case3 current unmet next hnext hfirst hfind => simp_all
  | case4 current unmet next hnext hfirst sub hfind ih =>
    exact fun x hx => (List.mem_filter.1 (ih h hx)).1

/-- The reference of a sub-stage to one that is not among its siblings. -/
def strayReference? (subStages : List SubStage) : Option (SubStage × Text) :=
  subStages.findSome? fun sub => sub.next.bind fun next =>
    if (SubStage.find? subStages next).isSome then none else some (sub, next)

def ringFlaw? (stage : Stage) : Option Flaw :=
  match stage.subStages with
  | [] => none
  | first :: rest => match strayReference? (first :: rest) with
    | some (sub, target) => some (.unknownSubStage sub.id stage.id target)
    | none => match leftOver? first.id first (without first.id rest) with
      | none => some (.misses stage.id first.id)
      | some [] => none
      | some left => some (.unreachable stage.id first.id (left.map (·.id)))

/-! ## Lists of stages -/

/-- The ids that several stages have, in order. -/
def duplicates (stages : List Stage) : List Text :=
  let ids := stages.map (·.id)
  sort (ids.filter fun id => 1 < ids.count id).eraseDups

def stageFlaw? (stages : List Stage) (stage : Stage) : Option Flaw :=
  match stage.references.find? fun target => !stages.any fun other => other.id == target with
  | some target => some (.unknownStage stage.id target)
  | none => ringFlaw? stage

/-- What is wrong with a list of stages, first of all. -/
def flaw? (stages : List Stage) : Option Flaw :=
  match duplicates stages with
  | [] => stages.findSome? (stageFlaw? stages)
  | ids => some (.duplicates ids)

end Checklist.Workflow
