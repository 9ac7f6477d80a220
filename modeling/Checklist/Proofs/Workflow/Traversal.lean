import Checklist.Proofs.Workflow.Definition

/-! # Runs of a workflow

Where a task moves next, it is still in its workflow. Main statements: a step from any place, known
or not, leads to a place of a well-formed workflow (`contains_of_next?`), and so does each step of a
run (`contains_of_mem_run`). -/

namespace Checklist.Workflow
set_option autoImplicit false

variable {workflow : Workflow} {stage : Stage} {place next : Position}

/-- The place is one of the workflow: a stage of it, and a sub-stage, if any, of that stage. -/
def Contains (workflow : Workflow) (place : Position) : Prop :=
  ∃ stage ∈ workflow.stages, stage.id = place.stage ∧ ∀ sub, place.subStage = some sub →
    sub ∈ stage.subStages.map (·.id)

theorem mem_of_stage? {id : Text} (h : workflow.stage? id = some stage) :
    stage ∈ workflow.stages ∧ stage.id = id :=
  ⟨List.mem_of_find?_eq_some h, by simpa using List.find?_some h⟩

theorem exists_stage? {id : Text} (h : id ∈ workflow.stages.map (·.id)) :
    ∃ stage, workflow.stage? id = some stage := by
  rw [← Option.isSome_iff_exists, stage?, List.find?_isSome]
  simpa using h

theorem contains_enter {id : Text} (h : id ∈ workflow.stages.map (·.id)) :
    workflow.Contains (workflow.enter id) := by
  obtain ⟨stage, hstage⟩ := exists_stage? h
  obtain ⟨hmem, hid⟩ := mem_of_stage? hstage
  refine ⟨stage, hmem, hid, fun sub hsub => ?_⟩
  obtain ⟨first, hfirst, rfl⟩ : ∃ first, stage.subStages.head? = some first ∧ first.id = sub := by
    simpa [enter, hstage] using hsub
  exact List.mem_map_of_mem (List.mem_of_head? hfirst)

theorem contains_nextInCycle (h : IsWellFormed workflow.stages) (hstage : stage ∈ workflow.stages)
    {sub : Option SubStage} (hsub : ∀ current ∈ sub, current ∈ stage.subStages) :
    workflow.Contains (workflow.nextInCycle stage sub) := by
  unfold nextInCycle
  split
  · next target htarget =>
    obtain ⟨current, hcurrent, hnext⟩ := Option.bind_eq_some_iff.1 htarget
    have hknown := (h.rings stage hstage).known current (hsub current hcurrent) target
      (Option.filter_eq_some_iff.1 hnext).1
    exact ⟨stage, hstage, rfl, by rintro _ ⟨⟩; exact hknown⟩
  · split
    · next id rest hproceed =>
      have hid : id ∈ stage.references := by simp [Stage.references, hproceed]
      exact contains_enter (h.references stage hstage id hid)
    · refine ⟨stage, hstage, rfl, fun first hfirst => ?_⟩
      obtain ⟨current, -, hfirst⟩ := Option.bind_eq_some_iff.1 hfirst
      obtain ⟨sub, hsub, rfl⟩ := Option.map_eq_some_iff.1 hfirst
      exact List.mem_map_of_mem (List.mem_of_head? hsub)

/-- A step from any place whatsoever leads to a place of the workflow. -/
theorem contains_of_next? (h : IsWellFormed workflow.stages)
    (hnext : workflow.next? place = some next) : workflow.Contains next := by
  unfold next? at hnext
  split at hnext
  · cases hnext
  · next first rest hstages =>
    split at hnext
    · cases hnext
      exact contains_enter (by simp [hstages])
    · obtain ⟨stage, hstage, hnext⟩ := Option.bind_eq_some_iff.1 hnext
      obtain ⟨hmem, -⟩ := mem_of_stage? hstage
      split at hnext
      · cases hnext
      · next targets subStages hkind =>
        cases hnext
        refine contains_nextInCycle h hmem fun current hcurrent => ?_
        obtain ⟨sub, -, hsub⟩ := Option.bind_eq_some_iff.1 hcurrent
        rw [Stage.subStages, hkind]
        exact List.mem_of_find?_eq_some hsub
      · split at hnext
        · next id others hreferences =>
          cases hnext
          exact contains_enter (h.references stage hmem id (by simp [hreferences]))
        · obtain ⟨following, hfollowing, rfl⟩ := Option.map_eq_some_iff.1 hnext
          have hlater : following ∈ workflow.stages :=
            (List.dropWhile_suffix _).subset (List.mem_of_getElem? hfollowing)
          exact contains_enter (List.mem_map_of_mem hlater)

theorem contains_of_mem_run (h : IsWellFormed workflow.stages) {count : Nat} {reached : Position}
    (hreached : reached ∈ workflow.run count place) : workflow.Contains reached := by
  induction count generalizing place with
  | zero => cases hreached
  | succ count ih =>
    rw [run] at hreached
    split at hreached
    · cases hreached
    · next next hnext =>
      rcases List.mem_cons.1 hreached with rfl | hlater
      · exact contains_of_next? h hnext
      · exact ih hlater

/-- Whatever the place, a workflow that loads leads on to its own places only, as far
as one goes. -/
theorem contains_of_load {data : Value} (h : load data = .ok workflow) :
    (∀ place next, workflow.next? place = some next → workflow.Contains next) ∧
      ∀ count place, ∀ reached ∈ workflow.run count place, workflow.Contains reached := by
  have hwell : IsWellFormed workflow.stages := flaw?_eq_none_iff.1 (flaw?_of_load h)
  exact ⟨fun _ _ hnext => contains_of_next? hwell hnext,
    fun _ _ _ hreached => contains_of_mem_run hwell hreached⟩

theorem contains_run_proofreading :
    load proofreading.toValue = .ok proofreading ∧
      proofreading.run 3 ⟨rootId, none⟩ =
        [⟨"draft".toList, none⟩, ⟨"review".toList, some "read".toList⟩,
         ⟨"review".toList, some "mend".toList⟩] ∧
      ∀ reached ∈ proofreading.run 3 ⟨rootId, none⟩, proofreading.Contains reached := by
  have hload : load proofreading.toValue = .ok proofreading :=
    load_toValue_iff.2 isWellFormed_proofreading
  exact ⟨hload, by decide +kernel, (contains_of_load hload).2 3 ⟨rootId, none⟩⟩

end Checklist.Workflow
