import Checklist.Proofs.Note.Precedence
import Checklist.Proofs.Note.SingleLine

/-! # What a task has from its own line

Inheritance, the project and the date of the path only fill what a line leaves open. Main
statements: whatever a task inherits, what is not among the names of inherited values stays as it is
(`keeps_apply`), so a task of a note has the rest from its line, as the same line by itself says
(`task_of_line`). -/

namespace Checklist
set_option autoImplicit false
open Text

/-! ## What is not inherited -/

namespace Metadata

/-- The metadata has what other metadata has, wherever it inherits nothing. -/
structure Keeps (source metadata : Metadata) : Prop where
  tags : source.Agrees metadata .tags
  project : source.Agrees metadata .project
  fields : ∀ field, metadata.inherits (.str field.name) = false → source.Agrees metadata field
  custom : ∀ key, metadata.inherits key = false → metadata.custom.get? key = source.custom.get? key

theorem Keeps.refl (metadata : Metadata) : metadata.Keeps metadata :=
  ⟨.refl _ _, .refl _ _, fun _ _ => .refl _ _, fun _ _ => rfl⟩

theorem Keeps.trans {first second third : Metadata} (h : first.Keeps second)
    (h' : second.Keeps third)
    (hmarked : ∀ name, third.inherits name = false → second.inherits name = false) :
    first.Keeps third where
  tags := h.tags.trans h'.tags
  project := h.project.trans h'.project
  fields field hfield := (h.fields field (hmarked _ hfield)).trans (h'.fields field hfield)
  custom key hkey := (h'.custom key hkey).trans (h.custom key (hmarked _ hkey))

end Metadata

namespace Inheritance

variable {rules : Option ProjectRules} {today : Date} {metadata result : Metadata}
  {key value : Value}

theorem Taken.inherits_eq_false (h : Taken rules today metadata key value result) {name : Value}
    (hname : result.inherits name = false) :
    metadata.inherits name = false := by
  cases h with
  | nothing _ => exact hname
  | custom _ _ _ =>
    rw [Metadata.inherits_markInherited, Bool.or_eq_false_iff] at hname
    exact hname.1
  | @field field filled _ _ _ =>
    rw [Metadata.inherits_markInherited, Bool.or_eq_false_iff] at hname
    cases field <;> exact hname.1

theorem get?_set_of_ne {entries : Entries} {key other : Value} (value : Value)
    (hnew : entries.has key = false) (h : key.sameKey other = false) :
    (entries.set key value).get? other = entries.get? other := by
  rw [Entries.set, if_neg (by simp [hnew]), Entries.get?, List.find?_append, List.find?_singleton, h]
  cases hfind : entries.find? _ <;> simp [Entries.get?, hfind]

theorem Taken.keeps (h : Taken rules today metadata key value result) : metadata.Keeps result := by
  have htags : fills rules today .tags (key, value) =
      false := by simp [fills, meaning?, fill?, Except.toOption]
  have hproject : fills rules today .project (key, value) = false := by simp [fills, names_project]
  refine ⟨h.agrees (.inr htags), h.agrees (.inr hproject), fun field hfield => ?_,
    fun other hother => ?_⟩
  · cases h with
    | nothing _ => exact .refl _ _
    | custom _ _ _ => exact (Metadata.Agrees.refl _ _).markInherited _
    | @field taken filled hfills hmeaning hempty =>
      rw [Metadata.inherits_markInherited, Bool.or_eq_false_iff] at hfield
      refine (Metadata.agrees_copy_of_ne ?_).markInherited _
      rintro rfl
      rw [Value.isFoundAs_self] at hfield
      cases hfield.2
  · cases h with
    | nothing _ => rfl
    | custom _ _ hnew =>
      rw [Metadata.inherits_markInherited, Value.isFoundAs, Bool.or_eq_false_iff,
        Bool.or_eq_false_iff] at hother
      rw [Metadata.custom_markInherited, get?_set_of_ne value hnew hother.2.1]
    | @field field filled _ _ _ =>
      rw [Metadata.custom_markInherited]
      cases field <;> rfl

theorem keeps_foldlM {source : Entries}
    (h : source.foldlM (fun metadata entry => inherit rules today metadata entry.1 entry.2)
      metadata = .ok result) :
    metadata.Keeps result ∧ ∀ name, result.inherits name = false →
      metadata.inherits name = false := by
  induction source generalizing metadata with
  | nil =>
    cases h
    exact ⟨.refl _, fun _ hname => hname⟩
  | cons entry rest ih =>
    rw [List.foldlM_cons] at h
    obtain ⟨next, hnext, h⟩ := Result.bind_eq_ok.1 h
    have htaken := taken_of_inherit hnext
    obtain ⟨hrest, hmarked⟩ := ih h
    exact ⟨htaken.keeps.trans hrest hmarked,
      fun name hname => htaken.inherits_eq_false (hmarked name hname)⟩

theorem keeps_apply {source : Entries} {isSubtask : Bool}
    (h : apply rules today source isSubtask metadata = .ok result) : metadata.Keeps result := by
  unfold apply at h
  split at h
  · exact (keeps_foldlM h).1
  · cases h
    exact .refl _

end Inheritance

namespace Note

variable {settings : Settings} {today : Date} {path : Text} {note : Note}

theorem keeps_dateFromPath {source metadata : Metadata} (h : source.Keeps metadata)
    (timestamp : Option Int) :
    (dateFromPath settings timestamp source).Keeps (dateFromPath settings timestamp metadata) := by
  refine ⟨h.tags, h.project, fun field hfield => ?_, h.custom⟩
  have hagrees := h.fields field hfield
  cases field with
  | date kind =>
    show Dates.get _ kind = Dates.get _ kind
    by_cases hkind : kind = settings.pathDate
    · subst hkind
      rw [dateFromPath, dateFromPath, Dates.get_set, Dates.get_set,
        show metadata.dates.get _ = source.dates.get _ from hagrees]
    · rw [dateFromPath, dateFromPath, Dates.get_set_of_ne _ _ hkind, Dates.get_set_of_ne _ _ hkind]
      exact hagrees
  | _ => exact hagrees

/-! ## The line by itself -/

theorem setField_heading (metadata : Metadata) (heading : Option Heading)
    (field : Field) (raw : Text) :
    setField today { metadata with heading } field raw = (setField today metadata field raw).map
      fun metadata => { metadata with heading } := by
  cases field with
  | date kind =>
    unfold setField
    cases DateText.resolve today raw with
    | error cause => rfl
    | ok found => cases found <;> rfl
  | priority =>
    unfold setField
    cases Priority.resolve raw with
    | error cause => rfl
    | ok found => cases found <;> rfl
  | recurrence =>
    unfold setField
    cases Recurrence.parse raw with
    | error cause => rfl
    | ok found => cases found <;> rfl
  | _ => rfl

theorem foldlM_setField_heading (heading : Option Heading) (fields : List (Field × Text))
    (metadata : Metadata) :
    fields.foldlM (fun metadata (field, raw) => setField today metadata field raw)
      { metadata with heading } =
      (fields.foldlM (fun metadata (field, raw) => setField today metadata field raw) metadata).map
        fun (metadata : Metadata) => { metadata with heading := heading } := by
  induction fields generalizing metadata with
  | nil => rfl
  | cons entry fields ih =>
    obtain ⟨field, raw⟩ := entry
    rw [List.foldlM_cons, List.foldlM_cons]
    dsimp only
    rw [setField_heading]
    cases setField today metadata field raw with
    | error cause => rfl
    | ok next => exact ih next

theorem lineMetadata_heading (heading : Option Heading) (extraction : Markup.Extraction) :
    lineMetadata today heading extraction =
    (lineMetadata today none extraction).map fun (metadata : Metadata) =>
      { metadata with heading := heading } := by
  unfold lineMetadata
  rw [← foldlM_setField_heading]

theorem lineText_of_taskOf {found : Found} {task : Task}
    (h : taskOf settings today path found = .ok task) : task.lineText = found.line := by
  obtain ⟨extraction, metadata, -, -, rfl⟩ := taskOf_eq_ok_iff.1 h
  rfl

/-- Only the place of a line, its heading and its comment are what it does not say itself. -/
theorem taskOf_alone (found : Found) (number : Nat) :
    taskOf settings today path { found with number := number, heading := none, comment := none } =
    (taskOf settings today path found).map fun task => { task with
      id := Task.idOf path number
      line := number
      metadata := { task.metadata with heading := none }
      comment := none } := by
  unfold taskOf
  dsimp only
  cases Markup.extract settings today found.parts.content with
  | error cause => rfl
  | ok extraction =>
    simp only [bind, Except.bind]
    rw [lineMetadata_heading found.heading]
    cases hline : lineMetadata today none extraction with
    | error cause => rfl
    | ok metadata =>
      have hheading := @lineMetadata_heading today none extraction
      rw [hline] at hheading
      have hsame : { metadata with heading := none } = metadata := (Except.ok.inj hheading).symm
      conv_lhs => rw [← hsame]
      rfl

theorem source_bare (rules : Option ProjectRules) : Inheritance.source rules [] none = [] := by
  have hmap : ∀ mappings : List KeyMapping, Inheritance.mapKeys mappings [] = [] := by
    intro mappings
    unfold Inheritance.mapKeys
    induction mappings with
    | nil => rfl
    | cons mapping mappings ih =>
      rw [List.foldl_cons]
      cases mapping.enabled <;> exact ih
  exact hmap _

theorem named_bare (rules : Option ProjectRules) (path : Text) (project : ResolvedProject) :
    project.named rules ⟨path, [], none⟩ = .ok project := by
  have hnone : project.namingValue? rules ⟨path, [], none⟩ = none := by
    unfold ResolvedProject.namingValue?
    cases inferring rules with
    | none => rfl
    | some rules =>
      cases project.inferred with
      | none => rfl
      | some inferred =>
        rw [Option.bind_some, Option.bind_some]
        unfold ProjectRules.namingValue?
        cases inferred.kind with
        | path | metadata | config => rfl
        | default => cases rules.naming.source with
          | header => cases rules.naming.headerKey <;> rfl
          | fileName | folderName => rfl
  rw [ResolvedProject.named, hnone]

theorem completedMetadata_bare {around : Surroundings}
    (hcontext : around.context = ⟨path, [], none⟩) (hsource : around.source = []) (isSubtask : Bool)
    (metadata : Metadata) : ∃ inferred, completedMetadata around isSubtask metadata =
      .ok (dateFromPath around.settings around.pathDate { metadata with
      project := (metadata.project.map trim).filter (!·.isEmpty)
      inferred := inferred }) := by
  obtain ⟨hwritten, -⟩ :=
    resolveProject_alone around.settings.projects ⟨path, [], none⟩ metadata.project isSubtask
  refine ⟨(resolveProject around.settings.projects
    ⟨path, [], none⟩ metadata.project isSubtask none).inferred, ?_⟩
  rw [completedMetadata, hcontext, hsource, named_bare, ← hwritten]
  refine Result.bind_eq_ok.2 ⟨_, rfl, Result.bind_eq_ok.2 ⟨_, ?_, rfl⟩⟩
  unfold Inheritance.apply
  split <;> rfl

/-- A line by itself becomes a task with the metadata of the line, and with what the path of
the note adds. -/
theorem exists_task?_of_found {found : Found} {first : Task} (hlimit : settings.lineLimit ≠ 0)
    (hends : '\n' ∉ found.line) (hparts : Line.task? found.line = some found.parts) (hindent :
      found.indent = Line.width settings.tabSize found.parts.indent)
    (hfirst : taskOf settings today path found = .ok first) (number : Int) : ∃ inferred,
      task? settings today path number found.line = .ok (some { first with
        id := Task.idOf path number
        line := number
        depth := 0
        parent := none
        children := []
        comment := none
        metadata := dateFromPath settings (pathDate? settings path) { first.metadata with
          heading := none
          project := (first.metadata.project.map trim).filter (!·.isEmpty)
          inferred := inferred } }) := by
  have hfound : Note.found settings { path := path, content := found.line, header := some [] } =
      [{ found with number := 0, heading := none, comment := none }] := by
    have hfence := Line.isFence_of_isTask (by rw [Line.isTask_eq_isSome, hparts]; rfl)
    rw [found_of_notMem hlimit hends hparts hfence, ← hindent]
  have houtline : outline settings { path := path, content := found.line, header := some [] } =
      ⟨[⟨found.indent, none, 0⟩]⟩ := by
    rw [outline, hfound]
    rfl
  obtain ⟨alone, halone, hsame⟩ : ∃ alone, taskOf settings today
      path { found with number := 0, heading := none, comment := none } = .ok alone ∧
      { first with
        id := Task.idOf path (0 : Nat), line := (0 : Nat),
        metadata := { first.metadata with heading := none }, comment := none } = alone := by
    rw [taskOf_alone, hfirst]
    exact ⟨_, rfl, rfl⟩
  obtain ⟨inferred, hmetadata⟩ := @completedMetadata_bare path
    (surroundings settings today { path := path, content := found.line, header := some [] } []
      [alone]) rfl (source_bare _) false alone.metadata
  have hchildren :
      (outline settings { path := path, content := found.line, header := some [] }).childLists =
        #[[]] := by
    rw [houtline]
    rfl
  have htasks : tasks settings today { path := path, content := found.line, header := some [] } =
      .ok [{ alone with
      depth := 0
      parent := none
      children := []
      metadata := dateFromPath settings (pathDate? settings path) { alone.metadata with
        project := (alone.metadata.project.map trim).filter (!·.isEmpty)
        inferred := inferred } }] := by
    refine tasks_eq_ok_iff.2 ⟨[], [alone], rfl, ?_, ?_⟩
    · rw [lineTasks, hfound, Result.mapM_eq_ok]
      exact .cons halone .nil
    · rw [houtline, Result.mapM_eq_ok]
      refine .cons ((completeAlone_eq ..).trans (Result.map_eq_ok.2 ⟨_, hmetadata, ?_⟩)) .nil
      rw [surroundings, hchildren]
      rfl
  refine ⟨inferred, Result.bind_eq_ok.2 ⟨_, htasks, ?_⟩⟩
  rw [← hsame]
  rfl

/-- The task has from its line what another task of the line has, and besides that only what is
marked as inherited, a place and a comment. -/
structure Restates (task again : Task) : Prop where
  content_eq : task.content = again.content
  status_eq : task.status = again.status
  category_eq : task.category = again.category
  completed_eq : task.completed = again.completed
  marker_eq : task.marker = again.marker
  indent_eq : task.indent = again.indent
  metadata : again.metadata.Keeps task.metadata

theorem keeps_completedMetadata {around : Surroundings} {isSubtask : Bool}
    {metadata result : Metadata}
    (h : completedMetadata around isSubtask metadata = .ok result) (heading : Option Heading)
    (inferred : Option InferredProject) :
    (dateFromPath around.settings around.pathDate { metadata with
      heading := heading
      project := (metadata.project.map trim).filter (!·.isEmpty)
      inferred := inferred }).Keeps result := by
  obtain ⟨inherited, hinherited, rfl⟩ := completedMetadata_eq_ok h
  have hwritten :=
    (resolveProject_alone around.settings.projects around.context metadata.project isSubtask).1
  rw [hwritten] at hinherited
  have hkeeps := Inheritance.keeps_apply hinherited
  have hline : Metadata.Keeps { metadata with
      heading := heading
      project := (metadata.project.map trim).filter (!·.isEmpty)
      inferred := inferred } inherited := by
    refine ⟨hkeeps.tags, hkeeps.project, fun field hfield => ?_, hkeeps.custom⟩
    have hagrees := hkeeps.fields field hfield
    cases field <;> exact hagrees
  exact keeps_dateFromPath hline _

/-- A task says what its line says, whatever stands around the line. -/
theorem task_of_line {tasks : List Task} (h : note.tasks settings today = .ok tasks) {task : Task}
    (htask : task ∈ tasks) (number : Int) :
    ∃ again, task? settings today note.path number task.lineText = .ok (some again) ∧
      Restates task again := by
  obtain ⟨header, firsts, hheader, hfirsts, hall⟩ := forall₂_completeAlone_tasks h
  obtain ⟨⟨⟨found, node⟩, place⟩, hentry, first, hfirst, hdone, -⟩ :=
    Result.exists_left_of_mem hall htask
  have hfound : found ∈ note.found settings := by
    rw [← map_found_places]
    exact List.mem_map_of_mem hentry
  -- a line is found only while the limit is not reached
  have hlimit : settings.lineLimit ≠ 0 := by
    intro hzero
    rw [Note.found, taskLines, hzero] at hfound
    cases hlines : (lines note.content).zipIdx.drop note.firstLine with
    | nil => simp [hlines, find] at hfound
    | cons entry rest => simp [hlines, find] at hfound
  obtain ⟨hparts, hindent⟩ := task?_of_mem_find hfound
  obtain ⟨inferred, hagain⟩ :=
    exists_task?_of_found hlimit (notMem_of_mem_lines (line_mem_lines hfound)) hparts hindent hfirst
      number
  rw [completeAlone_eq] at hdone
  obtain ⟨metadata, hmetadata, rfl⟩ := Result.map_eq_ok.1 hdone
  have hline : first.lineText = found.line := lineText_of_taskOf hfirst
  rw [← hline] at hagain
  exact ⟨_, hagain, rfl, rfl, rfl, rfl, rfl, rfl, keeps_completedMetadata hmetadata none inferred⟩

/-- The heading, the header and the task above give the second task a date, a project and a key; its
line says the rest. -/
theorem task_of_line_below :
    let settings : Settings :=
      { readsHeadings := true,
        projects := some { naming := { enabled := true }, header := { subtasksInherit := true } } }
    let note : Note := {
      path := "n.md".toList
      content := "# Top\n- [x] a\n  - [ ] b #t [n:: 1] [priority:: 2]".toList
      header := some [(.str "due".toList, .str "2024-01-01".toList),
        (.str "m".toList, .str "x".toList), (.str "n".toList, .str "2".toList)] }
    ∃ tasks, note.tasks settings ⟨2024, 3, 13, rfl⟩ = .ok tasks ∧ ∃ task ∈ tasks,
      task.metadata.inherited.length = 2 ∧
      ∃ again, task? settings ⟨2024, 3, 13, rfl⟩ note.path 7
          "  - [ ] b #t [n:: 1] [priority:: 2]".toList = .ok (some again) ∧
          Restates task again := by
  intro settings note
  have hlines :
      ((note.tasks settings ⟨2024, 3, 13, rfl⟩).map
        (·.map fun task => (task.lineText, task.metadata.inherited.length))).toOption =
      some [("- [x] a".toList, 3), ("  - [ ] b #t [n:: 1] [priority:: 2]".toList, 2)] := by
        decide +kernel
  obtain ⟨tasks, htasks, hlines⟩ := Result.exists_of_map hlines
  obtain ⟨task, htask, hshape⟩ :=
    List.mem_map.1 (hlines ▸ List.mem_cons_of_mem _ List.mem_cons_self)
  obtain ⟨again, hagain, hrestates⟩ := task_of_line htasks htask 7
  rw [(Prod.mk.inj hshape).1] at hagain
  exact ⟨tasks, htasks, task, htask, (Prod.mk.inj hshape).2, again, hagain, hrestates⟩

end Note
end Checklist
