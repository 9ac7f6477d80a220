import Checklist.Proofs.Workflow.Traversal
import Mathlib.Data.List.TakeWhile

/-! # Where a stage leads

A stage names where it leads, or its place in the list does. Main statements: no other id than that
of the root and no other sub-stage than the one without an id is told apart by a transition
(`next?_rename`), and so in a workflow that loads a terminal stage is final, and any other leads
where it says, exactly if it is not called as the root is (`onward_of_load`). -/

namespace Checklist
set_option autoImplicit false

/-! ## Transitions -/

namespace Workflow

variable {workflow : Workflow} {stage : Stage} {place : Position} {n : Nat}

/-- The place after a stage, or after one of its sub-stages. -/
def leave (workflow : Workflow) (stage : Stage) (sub : Option Text) : Option Position :=
  match stage.kind with
  | .terminal => none
  | .cycle _ subStages =>
    some (workflow.nextInCycle stage ((sub.filter (!·.isEmpty)).bind (SubStage.find? subStages)))
  | .linear _ =>
    (stage.references.head?.or ((workflow.following? stage.id).map (·.id))).map workflow.enter

theorem next?_of_root (h : place.stage = rootId) :
    workflow.next? place = workflow.stages.head?.map fun first => workflow.enter first.id := by
  unfold next?
  cases workflow.stages <;> simp [h]

theorem next?_of_ne_root (h : place.stage ≠ rootId) :
    workflow.next? place = (workflow.stage? place.stage).bind fun stage =>
      workflow.leave stage place.subStage := by
  unfold next?
  cases hstages : workflow.stages with
  | nil => simp [stage?, hstages]
  | cons first rest =>
    simp only [beq_iff_eq, h, if_false]
    cases workflow.stage? place.stage with
    | none => rfl
    | some stage =>
      simp only [Option.bind_some, leave]
      cases stage.kind with
      | terminal => rfl
      | cycle next subStages => rfl
      | linear next =>
        cases stage.references with
        | cons id rest => rfl
        | nil => cases workflow.following? stage.id <;> rfl

end Workflow

/-- Other ids for stages and sub-stages, the same for the root and for a sub-stage without an id. -/
structure Renaming where
  stage : Text → Text
  subStage : Text → Text
  stage_inj : Function.Injective stage
  subStage_inj : Function.Injective subStage
  stage_root : stage Workflow.rootId = Workflow.rootId
  subStage_nil : subStage [] = []

/-! ## Renaming -/

theorem Renaming.stage_eq_root_iff (names : Renaming) {id : Text} :
    names.stage id = Workflow.rootId ↔ id = Workflow.rootId := by
  constructor
  · exact fun h => names.stage_inj (h.trans names.stage_root.symm)
  · rintro rfl
    exact names.stage_root

theorem Renaming.subStage_eq_nil_iff (names : Renaming) {id : Text} :
    names.subStage id = [] ↔ id = [] := by
  constructor
  · exact fun h => names.subStage_inj (h.trans names.subStage_nil.symm)
  · rintro rfl
    exact names.subStage_nil

def SubStage.rename (names : Renaming) (sub : SubStage) : SubStage :=
  { sub with id := names.subStage sub.id, next := sub.next.map names.subStage }

def Position.rename (names : Renaming) (place : Position) : Position :=
  ⟨names.stage place.stage, place.subStage.map names.subStage⟩

namespace Stage

def Targets.rename (names : Renaming) : Targets → Targets
  | .none => .none
  | .one id => .one (names.stage id)
  | .several ids => .several (ids.map names.stage)

def Kind.rename (names : Renaming) : Kind → Kind
  | .linear next => .linear (next.rename names)
  | .cycle next subStages => .cycle (next.rename names) (subStages.map (SubStage.rename names))
  | .terminal => .terminal

/-- A stage with other ids for itself, for the stages that it refers to and for its sub-stages. -/
def rename (names : Renaming) (stage : Stage) : Stage :=
  { stage with
    id := names.stage stage.id
    canProceedTo := stage.canProceedTo.map names.stage
    kind := stage.kind.rename names }

theorem subStages_rename (names : Renaming) (stage : Stage) :
    (stage.rename names).subStages = stage.subStages.map (SubStage.rename names) := by
  obtain ⟨id, name, canProceedTo, _ | _ | _⟩ := stage <;> rfl

theorem Targets.ids_rename (names : Renaming) (next : Targets) :
    (next.rename names).ids = next.ids.map names.stage := by
  cases next <;> rfl

theorem references_rename (names : Renaming) (stage : Stage) :
    (stage.rename names).references = stage.references.map names.stage := by
  obtain ⟨id, name, canProceedTo, _ | _ | _⟩ :=
    stage <;> simp [references, rename, nextIds, Kind.rename, Targets.ids_rename]

end Stage

namespace Workflow

/-- A workflow with other ids for its stages and their sub-stages. -/
def rename (names : Renaming) (workflow : Workflow) : Workflow :=
  { workflow with stages := workflow.stages.map (Stage.rename names) }

variable {workflow : Workflow} {stage : Stage} {names : Renaming}

theorem find?_map_key {α : Type} {key : α → Text} {change : α → α} {other : Text → Text}
    (hinj : Function.Injective other)
    (hkey : ∀ a, key (change a) = other (key a)) (items : List α) (id : Text) :
    ((items.map change).find? fun a => key a == other id) =
      (items.find? fun a => key a == id).map change := by
  rw [List.find?_map]
  congr 2
  funext a
  simp [hkey, hinj.eq_iff]

theorem stage?_rename (names : Renaming) (workflow : Workflow) (id : Text) :
    (workflow.rename names).stage? (names.stage id) =
      (workflow.stage? id).map (Stage.rename names) :=
  @find?_map_key _ Stage.id (Stage.rename names) _ names.stage_inj (fun _ => rfl) workflow.stages id

theorem find?_rename (names : Renaming) (subStages : List SubStage) (id : Text) :
    SubStage.find? (subStages.map (SubStage.rename names)) (names.subStage id) =
      (SubStage.find? subStages id).map (SubStage.rename names) :=
  @find?_map_key _ SubStage.id (SubStage.rename names) _ names.subStage_inj (fun _ => rfl) subStages id

theorem filter_rename (names : Renaming) (sub : Option Text) :
    (sub.map names.subStage).filter (!·.isEmpty) =
      (sub.filter (!·.isEmpty)).map names.subStage := by
  cases sub with
  | none => rfl
  | some id =>
    have hempty : (names.subStage id).isEmpty = id.isEmpty := by
      rw [Bool.eq_iff_iff, List.isEmpty_iff, List.isEmpty_iff, names.subStage_eq_nil_iff]
    cases hid : id.isEmpty <;> simp [Option.filter, hempty, hid]

theorem enter_rename (names : Renaming) (workflow : Workflow) (id : Text) :
    (workflow.rename names).enter (names.stage id) = (workflow.enter id).rename names := by
  simp only [enter, stage?_rename, Position.rename, Position.mk.injEq, true_and]
  cases workflow.stage? id with
  | none => rfl
  | some stage =>
    simp only [Option.map_some, Option.bind_some, Stage.subStages_rename, List.head?_map]
    cases stage.subStages.head? <;> rfl

theorem following?_rename (names : Renaming) (workflow : Workflow) (id : Text) :
    (workflow.rename names).following? (names.stage id) =
      (workflow.following? id).map (Stage.rename names) := by
  have hsame : ((fun stage : Stage => stage.id != names.stage id) ∘ Stage.rename names) =
      fun stage => stage.id != id := by
    funext stage
    simp [Stage.rename, bne, names.stage_inj.eq_iff]
  simp only [following?, rename, List.dropWhile_map, hsame, List.getElem?_map]

theorem nextInCycle_rename (names : Renaming) (workflow : Workflow) (stage : Stage)
    (sub : Option SubStage) :
    (workflow.rename names).nextInCycle (stage.rename names) (sub.map (SubStage.rename names)) =
      (workflow.nextInCycle stage sub).rename names := by
  have hnext : ((sub.map (SubStage.rename names)).bind fun sub => sub.next.filter (!·.isEmpty)) =
      (sub.bind fun sub => sub.next.filter (!·.isEmpty)).map names.subStage := by
    cases sub with
    | none => rfl
    | some sub => exact filter_rename names sub.next
  unfold nextInCycle
  rw [hnext]
  cases sub.bind fun sub => sub.next.filter (!·.isEmpty) with
  | some next => rfl
  | none =>
    have hproceed : (stage.rename names).canProceedTo = stage.canProceedTo.map names.stage := rfl
    dsimp only [Option.map_none]
    rw [hproceed]
    cases stage.canProceedTo with
    | cons id rest => exact enter_rename names workflow id
    | nil =>
      rw [Stage.subStages_rename, List.head?_map]
      cases sub <;> cases stage.subStages.head? <;> rfl

theorem leave_rename (names : Renaming) (workflow : Workflow) (stage : Stage) (sub : Option Text) :
    (workflow.rename names).leave (stage.rename names) (sub.map names.subStage) =
      (workflow.leave stage sub).map (Position.rename names) := by
  have hreferences := stage.references_rename names
  have hfollowing := following?_rename names workflow stage.id
  have hkind : (stage.rename names).kind = stage.kind.rename names := rfl
  unfold leave
  rw [hkind, hreferences]
  cases stage.kind with
  | terminal => rfl
  | cycle next subStages =>
    have hsub : ((sub.map names.subStage).filter (!·.isEmpty)).bind
        (SubStage.find? (subStages.map (SubStage.rename names))) =
        ((sub.filter (!·.isEmpty)).bind (SubStage.find? subStages)).map (SubStage.rename names) := by
      rw [filter_rename]
      cases sub.filter (!·.isEmpty) with
      | none => rfl
      | some id => exact find?_rename names subStages id
    dsimp only [Stage.Kind.rename]
    rw [hsub]
    exact congrArg some (nextInCycle_rename names workflow stage _)
  | linear next =>
    dsimp only [Stage.Kind.rename]
    cases stage.references with
    | cons id rest => exact congrArg some (enter_rename names workflow id)
    | nil =>
      rw [show (stage.rename names).id = names.stage stage.id from rfl, hfollowing]
      cases workflow.following? stage.id with
      | none => rfl
      | some next => exact congrArg some (enter_rename names workflow next.id)

/-- A transition does not depend on ids, except that of the root. -/
theorem next?_rename (names : Renaming) (workflow : Workflow) (place : Position) :
    (workflow.rename names).next? (place.rename names) =
      (workflow.next? place).map (Position.rename names) := by
  by_cases hroot : place.stage = rootId
  · have hstages : (workflow.rename names).stages = workflow.stages.map (Stage.rename names) := rfl
    rw [next?_of_root hroot, next?_of_root (names.stage_eq_root_iff.2 hroot), hstages, List.head?_map]
    cases workflow.stages.head? with
    | none => rfl
    | some first => exact congrArg some (enter_rename names workflow first.id)
  · rw [next?_of_ne_root hroot, next?_of_ne_root (mt names.stage_eq_root_iff.1 hroot)]
    rw [show (place.rename names).stage = names.stage place.stage from rfl, stage?_rename]
    cases workflow.stage? place.stage with
    | none => rfl
    | some stage => exact leave_rename names workflow stage place.subStage

/-! ## The place in the list -/

/-- Where a stage leads, by what it says and by its place in the list. -/
def onward (workflow : Workflow) (n : Nat) (stage : Stage) : Option Position :=
  match stage.kind with
  | .terminal => none
  | .cycle _ _ => some ((stage.canProceedTo.head?.map workflow.enter).getD ⟨stage.id, none⟩)
  | .linear next =>
    ((next.ids ++ stage.canProceedTo).head?.or (workflow.stages[n + 1]?.map (·.id))).map
      workflow.enter

theorem id_ne_of_mem_take (hdistinct : (workflow.stages.map (·.id)).Nodup) {n : Nat}
    (hstage : workflow.stages[n]? = some stage)
    {other : Stage} (hother : other ∈ workflow.stages.take n) : other.id ≠ stage.id := by
  intro hid
  obtain ⟨k, hk⟩ := List.mem_iff_getElem?.1 hother
  obtain ⟨hlt, hk⟩ : k < n ∧ workflow.stages[k]? = some other := by
    rw [List.getElem?_take] at hk
    split at hk
    · exact ⟨‹_›, hk⟩
    · cases hk
  have hsame : (workflow.stages.map (·.id))[k]? = (workflow.stages.map (·.id))[n]? := by
    rw [List.getElem?_map, List.getElem?_map, hk, hstage, Option.map_some, Option.map_some, hid]
  obtain ⟨hbound, -⟩ := List.getElem?_eq_some_iff.1 hk
  have := (List.getElem?_inj (by simpa using hbound) hdistinct).1 hsame
  omega

theorem dropWhile_of_getElem? (hdistinct : (workflow.stages.map (·.id)).Nodup) {n : Nat}
    (hstage : workflow.stages[n]? = some stage) :
    (workflow.stages.dropWhile fun other => other.id != stage.id) =
      stage :: workflow.stages.drop (n + 1) := by
  obtain ⟨hbound, hget⟩ := List.getElem?_eq_some_iff.1 hstage
  have hsplit : workflow.stages = workflow.stages.take n ++
      stage :: workflow.stages.drop (n + 1) := by
    rw [← hget, List.getElem_cons_drop, List.take_append_drop]
  have hbefore : ∀ other ∈ workflow.stages.take n, (other.id != stage.id) = true :=
    fun other hother => bne_iff_ne.2 (id_ne_of_mem_take hdistinct hstage hother)
  conv => lhs; rw [hsplit]
  rw [List.dropWhile_append_of_pos hbefore, List.dropWhile_cons_of_neg (by simp)]

theorem stage?_of_getElem? (hdistinct : (workflow.stages.map (·.id)).Nodup) {n : Nat}
    (hstage : workflow.stages[n]? = some stage) :
    workflow.stage? stage.id = some stage := by
  have hdrop := dropWhile_of_getElem? hdistinct hstage
  rw [stage?, List.find?_eq_head?_dropWhile_not]
  exact congrArg List.head? hdrop

theorem following?_of_getElem? (hdistinct : (workflow.stages.map (·.id)).Nodup) {n : Nat}
    (hstage : workflow.stages[n]? = some stage) :
    workflow.following? stage.id = workflow.stages[n + 1]? := by
  rw [following?, dropWhile_of_getElem? hdistinct hstage, List.getElem?_cons_succ,
    List.getElem?_drop, Nat.add_zero]

theorem leave_of_getElem? (hdistinct : (workflow.stages.map (·.id)).Nodup) {n : Nat}
    (hstage : workflow.stages[n]? = some stage) :
    workflow.leave stage none = workflow.onward n stage := by
  have hfollowing := following?_of_getElem? hdistinct hstage
  unfold leave onward
  cases hkind : stage.kind with
  | terminal => rfl
  | cycle next subStages =>
    cases hproceed : stage.canProceedTo with
    | nil => simp [nextInCycle, hproceed]
    | cons id rest => simp [nextInCycle, hproceed]
  | linear next =>
    have hreferences : stage.references = next.ids ++
        stage.canProceedTo := by simp [Stage.references, Stage.nextIds, hkind]
    rw [hreferences, hfollowing]

/-! ## Workflows that load -/

variable {data : Value}

/-- In a workflow that loads, a terminal stage is final, and any other leads where it says, unless
it is called as the root is: from there a task comes to the first stage. Other names for the stages
do not change where a task goes. -/
theorem onward_of_load (h : load data = .ok workflow) {n : Nat}
    (hstage : workflow.stages[n]? = some stage) :
    (stage.kind = .terminal → ((∀ sub, workflow.next? ⟨stage.id, sub⟩ = none) ↔ stage.id ≠ rootId)) ∧
      (stage.kind ≠ .terminal → stage.id ≠ rootId →
        workflow.next? ⟨stage.id, none⟩ = workflow.onward n stage) ∧
      (stage.id = rootId → ∀ sub, workflow.next? ⟨stage.id, sub⟩ =
        workflow.stages.head?.map fun first => workflow.enter first.id) ∧
      ∀ (names : Renaming) (sub : Option Text),
        (workflow.rename names).next? ⟨names.stage stage.id, sub.map names.subStage⟩ =
          (workflow.next? ⟨stage.id, sub⟩).map (Position.rename names) := by
  have hwell : IsWellFormed workflow.stages := flaw?_eq_none_iff.1 (flaw?_of_load h)
  have hfound : workflow.stage? stage.id = some stage := stage?_of_getElem? hwell.distinct hstage
  have hroot : stage.id = rootId → ∀ sub, workflow.next? ⟨stage.id, sub⟩ =
      workflow.stages.head?.map fun first => workflow.enter first.id :=
    fun hid sub => next?_of_root hid
  refine ⟨fun hkind => ⟨fun hfinal hid => ?_, fun hid sub => next?_terminal hid hfound hkind⟩,
    fun _ hid => ?_, hroot, fun names sub => next?_rename names workflow ⟨stage.id, sub⟩⟩
  · obtain ⟨first, hfirst⟩ : ∃ first, workflow.stages.head? = some first := by
      rw [← Option.isSome_iff_exists, List.isSome_head?]
      exact List.ne_nil_of_mem (List.mem_of_getElem? hstage)
    have hnext := hfinal none
    rw [hroot hid, hfirst] at hnext
    cases hnext
  · rw [next?_of_ne_root hid]
    dsimp only
    rw [hfound, Option.bind_some, leave_of_getElem? hwell.distinct hstage]

theorem onward_proofreading : load proofreading.toValue = .ok proofreading ∧
    ∃ review, proofreading.stages[1]? = some review ∧ review.kind ≠ .terminal ∧ review.id ≠ rootId ∧
      proofreading.next? ⟨review.id, none⟩ = proofreading.onward 1 review := by
  have hload : load proofreading.toValue = .ok proofreading :=
    load_toValue_iff.2 isWellFormed_proofreading
  obtain ⟨review, hreview, hkind, hid⟩ : ∃ review, proofreading.stages[1]? = some review ∧
      review.kind ≠ .terminal ∧ review.id ≠ rootId :=
    ⟨_, rfl, by decide, by decide⟩
  exact ⟨hload, review, hreview, hkind, hid, (onward_of_load hload hreview).2.1 hkind hid⟩

/-- A workflow whose last stage is called as the root is. -/
def sketching : Workflow where
  id := "sketch".toList
  name := "Sketch".toList
  description := []
  stages :=
    [⟨"sketch".toList, "Sketch".toList, [], .linear (.one rootId)⟩,
     ⟨rootId, "Filed".toList, [], .terminal⟩]
  about := {}

theorem isWellFormed_sketching : IsWellFormed sketching.stages := by
  rw [← flaw?_eq_none_iff]
  decide +kernel

/-- A terminal stage need not be final: from one called as the root is, the workflow
begins again. -/
theorem root_stage_is_not_final : load sketching.toValue = .ok sketching ∧
    ∃ filed ∈ sketching.stages, filed.kind = .terminal ∧
      sketching.next? ⟨filed.id, none⟩ = some ⟨"sketch".toList, none⟩ := by
  refine ⟨load_toValue_iff.2 isWellFormed_sketching, _,
    List.mem_cons_of_mem _ List.mem_cons_self, rfl, ?_⟩
  decide +kernel

end Workflow
end Checklist
