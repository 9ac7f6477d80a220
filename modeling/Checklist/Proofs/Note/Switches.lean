import Checklist.Proofs.Note.Projects

/-! # Headers that do not reach the tasks

A header reaches a task in two ways: the task inherits from it, and its project is named after it.
Main statement: the rules for headers close both ways, for all tasks or for those that have a parent
(`tasks_of_headers`). -/

namespace Checklist.Note
set_option autoImplicit false
open Text

variable {settings : Settings} {today : Date} {note : Note}

def withHeader (note : Note) (header : Entries) : Note :=
  { note with header := some header }

/-- No project is named after a key of the header. -/
def NamesWithoutHeader (settings : Settings) : Prop :=
  ∀ rules ∈ settings.projects, rules.naming.enabled = true → rules.naming.source ≠ .header

theorem readsHeader_of_not_reaches {rules : ProjectRules} {isSubtask : Bool}
    (h : Inheritance.reaches (some rules) isSubtask = false) :
    rules.readsHeader isSubtask = false := by
  have hheader : (rules.header.inherits && (!isSubtask || rules.header.subtasksInherit)) = false :=
    h
  rw [ProjectRules.readsHeader, Bool.and_assoc, hheader, Bool.and_false]

theorem eq_of_completeAlone {around : Surroundings} {entry : (Task × Outline.Node) × Nat}
    {task task' : Task} {header source : Entries}
    (hreaches : Inheritance.reaches around.settings.projects entry.1.2.parent?.isSome = false)
    (hnaming : NamesWithoutHeader around.settings) (h : completeAlone around entry = .ok task)
    (h' : completeAlone { around with
      context := { around.context with header := header }, source := source } entry = .ok task') :
    task = task' := by
  obtain ⟨metadata, hmetadata, rfl⟩ := completeAlone_eq_ok h
  obtain ⟨metadata', hmetadata', rfl⟩ := completeAlone_eq_ok h'
  have hreads : ∀ rules ∈ around.settings.projects,
      rules.readsHeader entry.1.2.parent?.isSome = false := by
    intro rules hrules
    rw [Option.mem_def.1 hrules] at hreaches
    exact readsHeader_of_not_reaches hreaches
  have hinferred := inferredProject_of_header hreads hnaming around.context.path
    around.context.file around.context.header header
  have halone := resolveProject_alone around.settings.projects around.context
    entry.1.1.metadata.project entry.1.2.parent?.isSome
  have halone' :=
      resolveProject_alone around.settings.projects { around.context with header := header }
        entry.1.1.metadata.project entry.1.2.parent?.isSome
  rw [Inheritance.apply, hreaches, if_neg (by simp)] at hmetadata hmetadata'
  obtain rfl := Except.ok.inj hmetadata
  obtain rfl := Except.ok.inj hmetadata'
  dsimp only at halone halone' ⊢
  rw [halone.1, halone.2, halone'.1, halone'.2, ← hinferred]

/-- Without inheritance from headers two headers of a note give the same tasks, and without
inheritance from headers for subtasks they give the same tasks where a task has a parent. -/
theorem tasks_of_headers {header other : Entries} {tasks others : List Task}
    (h : (note.withHeader header).tasks settings today = .ok tasks)
    (hother : (note.withHeader other).tasks settings today = .ok others)
    (hnaming : NamesWithoutHeader settings) :
    ((Inheritance.headerRules settings.projects).inherits = false → tasks = others) ∧
      ((Inheritance.headerRules settings.projects).subtasksInherit = false →
        List.Forall₂ (fun task task' => task.id = task'.id ∧ task.parent = task'.parent ∧
          (task.parent.isSome = true → task = task')) tasks others) := by
  obtain ⟨found, firsts, hfound, hfirsts, hall⟩ := forall₂_completeAlone_tasks h
  obtain ⟨found', firsts', hfound', hfirsts', hall'⟩ := forall₂_completeAlone_tasks hother
  obtain rfl : header = found := Except.ok.inj hfound
  obtain rfl : other = found' := Except.ok.inj hfound'
  obtain rfl : firsts = firsts' := Except.ok.inj (hfirsts.symm.trans hfirsts')
  have hpairs : List.Forall₂ (fun task task' => task.id = task'.id ∧ task.parent = task'.parent ∧
      (Inheritance.reaches settings.projects task.parent.isSome = false → task = task')) tasks
      others := by
    refine (Result.forall₂_of_left hall hall').imp ?_
    rintro task task' ⟨entry, ⟨first, hfirst, htask, hparent⟩, ⟨first', hfirst', htask', -⟩⟩
    obtain rfl : first = first' := Except.ok.inj (hfirst.symm.trans hfirst')
    refine ⟨?_, ?_, fun hreaches => eq_of_completeAlone (hparent ▸ hreaches) hnaming htask htask'⟩ <;>
    · obtain ⟨metadata, -, rfl⟩ := completeAlone_eq_ok htask
      obtain ⟨metadata', -, rfl⟩ := completeAlone_eq_ok htask'
      rfl
  refine ⟨fun hnone => ?_, fun hnone => hpairs.imp fun task task' hpair =>
    ⟨hpair.1, hpair.2.1, fun hparent => hpair.2.2 ?_⟩⟩
  · refine List.forall₂_eq_eq_eq ▸ hpairs.imp fun task task' hpair => hpair.2.2 ?_
    rw [Inheritance.reaches, hnone, Bool.false_and]
  · rw [Inheritance.reaches, hparent, hnone]
    exact Bool.and_false _

/-- Two headers give a task different projects, and its subtask none. -/
theorem tasks_of_headers_nested :
    let note : Note := { path := "n.md".toList, content := "- [ ] a\n  - [ ] b".toList }
    let header : Entries := [(.str "project".toList, .str "Alpha".toList)]
    let other : Entries :=
      [(.str "project".toList, .str "Beta".toList), (.str "priority".toList, .str "high".toList)]
    ∃ tasks others, (note.withHeader header).tasks {} ⟨2024, 3, 13, rfl⟩ = .ok tasks ∧
      (note.withHeader other).tasks {} ⟨2024, 3, 13, rfl⟩ = .ok others ∧
      tasks.map (fun task => task.metadata.effectiveProject) = [some "Alpha".toList, none] ∧
      others.map (fun task => task.metadata.effectiveProject) = [some "Beta".toList, none] ∧
      NamesWithoutHeader {} ∧
      List.Forall₂ (fun task task' => task.id = task'.id ∧ task.parent = task'.parent ∧
          (task.parent.isSome = true → task = task')) tasks others := by
  intro note header other
  have hnames :
      (((note.withHeader header).tasks {} ⟨2024, 3, 13, rfl⟩).map
        (·.map fun task => task.metadata.effectiveProject)).toOption =
      some [some "Alpha".toList, none] := by decide +kernel
  have hnames' :
      (((note.withHeader other).tasks {} ⟨2024, 3, 13, rfl⟩).map
        (·.map fun task => task.metadata.effectiveProject)).toOption =
      some [some "Beta".toList, none] := by decide +kernel
  obtain ⟨tasks, htasks, hprojects⟩ := Result.exists_of_map hnames
  obtain ⟨others, hothers, hprojects'⟩ := Result.exists_of_map hnames'
  have hnaming : NamesWithoutHeader {} := by
    intro rules hrules
    cases hrules
    decide
  exact ⟨tasks, others, htasks, hothers, hprojects, hprojects', hnaming,
    (tasks_of_headers htasks hothers hnaming).2 rfl⟩

end Checklist.Note
