import Checklist.Project.Resolve
import Mathlib.Tactic.Common

/-! # Inference without parents

A subtask may take its project over from its parent, so that the sources need not be asked again.
Main statement: what is taken over is what the sources name for a subtask anyway
(`resolveProject_of_parent`). -/

namespace Checklist
set_option autoImplicit false
open Text

namespace ProjectRules

variable {rules : ProjectRules} {context : ProjectContext}

/-! ## Sources -/

theorem kind_of_fromSource {isSubtask : Bool} {source : ProjectSource} {project : InferredProject}
    (h : rules.fromSource context isSubtask source = some project) : project.kind = source := by
  cases source with
  | path =>
    obtain ⟨mapping, -, rfl⟩ := Option.map_eq_some_iff.1 h
    rfl
  | metadata =>
    simp only [fromSource, Option.ite_none_right_eq_some] at h
    obtain ⟨name, -, rfl⟩ := Option.map_eq_some_iff.1 h.2
    rfl
  | config =>
    obtain ⟨name, -, rfl⟩ := Option.map_eq_some_iff.1 h
    rfl
  | default =>
    simp only [fromSource, Option.ite_none_right_eq_some] at h
    obtain ⟨name, -, rfl⟩ := Option.map_eq_some_iff.1 h.2
    rfl

theorem fromSource_of_ne {source : ProjectSource} (h : source ≠ .metadata)
    (isSubtask other : Bool) :
    rules.fromSource context isSubtask source = rules.fromSource context other source := by
  cases source with
  | metadata => exact absurd rfl h
  | _ => rfl

theorem fromSource_metadata_of_subtask {project : InferredProject}
    (h : rules.fromSource context true .metadata = some project) (isSubtask : Bool) :
    rules.fromSource context isSubtask .metadata = some project := by
  simp only [fromSource, Option.ite_none_right_eq_some] at h ⊢
  refine ⟨?_, h.2⟩
  have hreads := h.1
  simp only [readsHeader, Bool.and_eq_true] at hreads ⊢
  exact ⟨hreads.1, by simp [show rules.header.subtasksInherit = true by simpa using hreads.2]⟩

theorem findSome?_subtask {isSubtask : Bool} {project : InferredProject}
    (hkind : project.kind ≠ .metadata)
    (h : sources.findSome? (rules.fromSource context isSubtask) = some project) :
    sources.findSome? (rules.fromSource context true) = some project := by
  obtain ⟨before, source, after, hsplit, hproject, hbefore⟩ := List.findSome?_eq_some_iff.1 h
  have hsource : source ≠ .metadata := kind_of_fromSource hproject ▸ hkind
  refine List.findSome?_eq_some_iff.2 ⟨before, source, after, hsplit, ?_, fun other hother => ?_⟩
  · rw [fromSource_of_ne hsource true isSubtask, hproject]
  · by_cases hmetadata : other = .metadata
    · subst hmetadata
      cases hfound : rules.fromSource context true .metadata with
      | none => rfl
      | some found =>
        exact absurd (hbefore _ hother) (by rw [fromSource_metadata_of_subtask hfound]; simp)
    · rw [fromSource_of_ne hmetadata true isSubtask, hbefore other hother]

/-- Where the header is not read for the project of a task and no project is named after it, it
makes no difference. -/
theorem fromSource_of_header {path : Text} {file : Option Entries} {isSubtask : Bool}
    (hreads : rules.readsHeader isSubtask = false)
    (hnaming : rules.naming.enabled = true → rules.naming.source ≠ .header) (header other : Entries)
    (source : ProjectSource) :
    rules.fromSource ⟨path, header, file⟩ isSubtask source =
      rules.fromSource ⟨path, other, file⟩ isSubtask source := by
  cases source with
  | path | config => rfl
  | metadata => simp [fromSource, hreads]
  | default =>
    by_cases henabled : rules.naming.enabled = true
    · have hsource := hnaming henabled
      unfold fromSource defaultName?
      cases hkind : rules.naming.source with
      | header => exact absurd hkind hsource
      | fileName | folderName => rfl
    · simp [fromSource, henabled]

end ProjectRules

/-! ## Parents -/

/-- The project that is inferred for a task whose line names none, without regard to its parent. -/
def inferredProject (rules : Option ProjectRules) (context : ProjectContext) (isSubtask : Bool) :
    Option InferredProject :=
  (resolveProject rules context none isSubtask none).inferred

theorem inferredProject_eq (rules : Option ProjectRules)
    (context : ProjectContext) (isSubtask : Bool) :
    inferredProject rules context isSubtask =
      (inferring rules).bind fun rules =>
        ProjectRules.sources.findSome? (rules.fromSource context isSubtask) := by
  unfold inferredProject resolveProject
  cases inferring rules with
  | none => rfl
  | some rules =>
    have hnone : ProjectRules.takenOver none = none := rfl
    simp only [Option.map_none, Option.filter_none, ProjectRules.infer, hnone, Option.bind_some]
    cases ProjectRules.sources.findSome? (rules.fromSource context isSubtask) <;> rfl

theorem inferredProject_of_header {rules : Option ProjectRules} {isSubtask : Bool}
    (hreads : ∀ found ∈ rules, found.readsHeader isSubtask = false)
    (hnaming : ∀ found ∈ rules, found.naming.enabled = true → found.naming.source ≠ .header)
    (path : Text) (file : Option Entries) (header other : Entries) :
    inferredProject rules ⟨path, header, file⟩ isSubtask =
      inferredProject rules ⟨path, other, file⟩ isSubtask := by
  rw [inferredProject_eq, inferredProject_eq]
  cases hrules : inferring rules with
  | none => rfl
  | some found =>
    have hmem : found ∈ rules := (Option.filter_eq_some_iff.1 hrules).1
    exact congrArg ProjectRules.sources.findSome?
      (funext (ProjectRules.fromSource_of_header (hreads found hmem)
        (hnaming found hmem) header other))

/-- The task has the project of its line, or else one that is inferred for some place
in the note. -/
def ResolvedProject.IsOfNote (rules : Option ProjectRules) (context : ProjectContext)
    (project : ResolvedProject) : Prop :=
  project.inferred = .none ∨ ∃ isSubtask, project.inferred = inferredProject rules context isSubtask

theorem resolveProject_alone (rules : Option ProjectRules) (context : ProjectContext)
    (written : Option Text) (isSubtask : Bool) :
    let project := resolveProject rules context written isSubtask none
    project.written = (written.map trim).filter (!·.isEmpty) ∧
      project.inferred = match (written.map trim).filter (!·.isEmpty) with
        | some _ => none
        | none => inferredProject rules context isSubtask := by
  unfold inferredProject resolveProject
  cases (written.map trim).filter fun name => !name.isEmpty with
  | some name => exact ⟨rfl, rfl⟩
  | none =>
    cases inferring rules with
    | none => exact ⟨rfl, rfl⟩
    | some rules =>
      refine ⟨?_, rfl⟩
      show (rules.infer context isSubtask none).written = none
      unfold ProjectRules.infer
      split <;> rfl

/-- A subtask has the project that it would have without its parent. -/
theorem resolveProject_of_parent {rules : Option ProjectRules} {context : ProjectContext}
    {parent : ResolvedProject} (hparent : parent.IsOfNote rules context) (written : Option Text) :
    let project := resolveProject rules context written true (some parent)
    let alone := resolveProject rules context written true none
    project.written = alone.written ∧ project.inferred = alone.inferred := by
  unfold resolveProject
  cases (written.map trim).filter fun name => !name.isEmpty with
  | some name => exact ⟨rfl, rfl⟩
  | none =>
    cases hrules : inferring rules with
    | none => exact ⟨rfl, rfl⟩
    | some rules' =>
      dsimp only
      unfold ProjectRules.infer
      cases htaken : ProjectRules.takenOver (some parent) with
      | none => exact ⟨rfl, rfl⟩
      | some project =>
        obtain ⟨hproject, hkind⟩ := Option.filter_eq_some_iff.1 htaken
        replace hproject : parent.inferred = some project := hproject
        -- what the parent hands on was found for some place in the note, and the sources name it
        -- for a subtask too
        have hsources : ProjectRules.sources.findSome? (rules'.fromSource context true) =
            some project := by
          rcases hparent with hnone | ⟨isSubtask, hsome⟩
          · rw [hproject] at hnone
            cases hnone
          · rw [hproject, inferredProject_eq, hrules, Option.bind_some] at hsome
            exact ProjectRules.findSome?_subtask (by simpa using hkind) hsome.symm
        rw [hsources]
        exact ⟨rfl, rfl⟩

end Checklist
