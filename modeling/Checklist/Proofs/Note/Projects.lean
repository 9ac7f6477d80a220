import Checklist.Proofs.Inheritance
import Checklist.Proofs.Markup.Winners
import Checklist.Proofs.Note.Completion
import Checklist.Proofs.Note.Tasks
import Checklist.Proofs.Project.Inference

/-! # The projects of the tasks of a note

Tasks are completed from the top because a subtask may take over the project of its parent. Main
statements: every task is completed as it would be without the tasks above it
(`completeAll_eq_mapM`), so its project is that of its line, or else depends on nothing but the note
and whether the task has a parent (`projects_of_tasks`). -/

namespace Checklist.Note
set_option autoImplicit false
open Text

variable {settings : Settings} {today : Date} {around : Surroundings}

/-! ## Without the tasks above -/

/-- A task of a line, completed at the node with a number as if no other tasks stood above it. -/
def completeAlone (around : Surroundings) (entry : (Task × Outline.Node) × Nat) :
    Except Failure Task :=
  (complete around entry.1.2 entry.2 none entry.1.1).map Prod.fst

theorem named_eq_map {rules : Option ProjectRules} {context : ProjectContext}
    {project other : ResolvedProject} (h : project.inferred = other.inferred) :
    project.named rules context = (other.named rules context).map fun _ => project := by
  have hvalue : project.namingValue? rules context = other.namingValue? rules context := by
    rw [ResolvedProject.namingValue?, ResolvedProject.namingValue?, h]
  rw [ResolvedProject.named, ResolvedProject.named, hvalue]
  cases other.namingValue? rules context with
  | none => rfl
  | some value =>
    dsimp only
    cases value.written <;> rfl

/-- What a task may take over from the task above it: only subtasks have a parent, whose project is
one of the note. -/
def IsAbove (around : Surroundings) (node : Outline.Node) (parent : Option ResolvedProject) :
    Prop :=
  ∀ project ∈ parent, node.parent?.isSome = true ∧
    project.IsOfNote around.settings.projects around.context

theorem resolveProject_of_isAbove {node : Outline.Node} {parent : Option ResolvedProject}
    (h : IsAbove around node parent) (written : Option Text) :
    let project :=
      resolveProject around.settings.projects around.context written node.parent?.isSome parent
    let alone :=
      resolveProject around.settings.projects around.context written node.parent?.isSome none
    project.written = alone.written ∧ project.inferred = alone.inferred := by
  cases parent with
  | none => exact ⟨rfl, rfl⟩
  | some parent =>
    obtain ⟨hsubtask, hparent⟩ := h parent rfl
    rw [hsubtask]
    exact resolveProject_of_parent hparent written

theorem isOfNote_resolveProject {node : Outline.Node} {parent : Option ResolvedProject}
    (h : IsAbove around node parent) (written : Option Text) :
    (resolveProject around.settings.projects around.context written node.parent?.isSome
      parent).IsOfNote around.settings.projects around.context := by
  have halone :=
    (resolveProject_alone around.settings.projects around.context written node.parent?.isSome).2
  rw [ResolvedProject.IsOfNote, (resolveProject_of_isAbove h written).2, halone]
  cases (written.map trim).filter fun name => !name.isEmpty with
  | some name => exact .inl rfl
  | none => exact .inr ⟨_, rfl⟩

theorem map_complete {node : Outline.Node} {number : Nat} {parent : Option ResolvedProject}
    (h : IsAbove around node parent) (task : Task) :
    (complete around node number parent task).map Prod.fst =
      completeAlone around ((task, node), number) := by
  obtain ⟨hwritten, hinferred⟩ := resolveProject_of_isAbove h task.metadata.project
  unfold completeAlone complete
  dsimp only
  rw [named_eq_map hinferred]
  cases halone : ResolvedProject.named _ _
      (resolveProject around.settings.projects around.context
        task.metadata.project node.parent?.isSome none) with
  | error cause => rfl
  | ok project =>
    obtain rfl := named_eq_ok halone
    simp only [Except.map, bind, Except.bind, hwritten, hinferred]
    cases Inheritance.apply around.settings.projects around.today
      around.source node.parent?.isSome _ <;> rfl

/-- From the top, each task is completed as it would be without the tasks above it. -/
theorem completeAll_eq_mapM {projects : Array ResolvedProject}
    (h : ∀ project ∈ projects, project.IsOfNote around.settings.projects around.context)
    (pairs : List (Task × Outline.Node)) : completeAll around projects pairs =
      (pairs.zipIdx projects.size).mapM (completeAlone around) := by
  induction pairs generalizing projects with
  | nil => rfl
  | cons pair rest ih =>
    obtain ⟨task, node⟩ := pair
    have habove : IsAbove around node (node.parent?.bind fun parent => projects[parent]?) := by
      intro project hproject
      obtain ⟨parent, hparent, hfound⟩ := Option.bind_eq_some_iff.1 hproject
      exact ⟨by rw [hparent]; rfl, h project (Array.mem_of_getElem? hfound)⟩
    rw [completeAll, List.zipIdx_cons, List.mapM_cons, ← map_complete habove]
    cases hcomplete : complete around node projects.size
        (node.parent?.bind fun parent => projects[parent]?) task with
    | error cause => rfl
    | ok result =>
      -- the project that is pushed is again one of the note
      have hnext : ∀ project ∈ projects.push result.2,
          project.IsOfNote around.settings.projects around.context := by
        intro project hproject
        rcases Array.mem_push.1 hproject with hproject | rfl
        · exact h project hproject
        · rw [project_of_complete hcomplete]
          exact isOfNote_resolveProject habove _
      show (completeAll around (projects.push result.2) rest).bind _ = _
      rw [ih hnext, Array.size_push]
      rfl

/-! ## The tasks of a note -/

/-- The tasks of a note are those of its lines, each completed without regard to the others. -/
theorem tasks_eq_ok_iff {note : Note} {tasks : List Task} : note.tasks settings today = .ok tasks ↔
    ∃ header firsts, note.headerOf = .ok header ∧
    note.lineTasks settings today = .ok firsts ∧
      ((firsts.zip (note.outline settings).nodes).zipIdx).mapM
        (completeAlone (note.surroundings settings today header firsts)) = .ok tasks := by
  have hnone : ∀ {around : Surroundings}, ∀ project ∈ (#[] : Array ResolvedProject),
      project.IsOfNote around.settings.projects around.context :=
    fun project hproject => absurd hproject (Array.not_mem_empty _)
  rw [Note.tasks, Result.bind_eq_ok]
  constructor
  · rintro ⟨header, hheader, h⟩
    obtain ⟨firsts, hfirsts, h⟩ := Result.bind_eq_ok.1 h
    have hdone := Result.mapError_eq_ok.1 h
    rw [completeAll_eq_mapM hnone] at hdone
    exact ⟨header, firsts, hheader, Result.mapError_eq_ok.1 hfirsts, hdone⟩
  · rintro ⟨header, firsts, hheader, hfirsts, hdone⟩
    refine ⟨header, hheader,
      Result.bind_eq_ok.2 ⟨firsts, Result.mapError_eq_ok.2 hfirsts, Result.mapError_eq_ok.2 ?_⟩⟩
    rw [completeAll_eq_mapM hnone]
    exact hdone

/-! ## Written projects -/

/-- The project that a line gives: what stands for it, without the blanks around it, unless
nothing is left. -/
def writtenProject? (extraction : Markup.Extraction) : Option Text :=
  ((extraction.fields.lookup .project).map trim).filter (!·.isEmpty)

theorem project_of_setField {metadata result : Metadata} {field : Field} {raw : Text}
    (h : setField today metadata field raw = .ok result) :
    result.project = if field = .project then
      ((some (trim raw)).filter (!·.isEmpty)).or metadata.project else metadata.project := by
  cases field with
  | date kind | priority | recurrence =>
    obtain ⟨found, -, h⟩ := Result.bind_eq_ok.1 h
    cases found with
    | none | some _ =>
      cases h
      rfl
  | project =>
    cases h
    by_cases hempty : trim raw = [] <;> simp [hempty, Option.filter]
  | context | area | tags =>
    cases h
    rfl

theorem project_of_foldlM {fields : List (Field × Text)} (hfields : (fields.map (·.1)).Nodup)
    {metadata result : Metadata}
    (h : fields.foldlM (fun metadata (field, raw) => setField today metadata field raw) metadata =
      .ok result) :
    result.project =
      (((fields.lookup .project).map trim).filter (!·.isEmpty)).or metadata.project := by
  induction fields generalizing metadata with
  | nil =>
    cases h
    rfl
  | cons entry fields ih =>
    obtain ⟨field, raw⟩ := entry
    rw [List.map_cons, List.nodup_cons] at hfields
    rw [List.foldlM_cons] at h
    obtain ⟨next, hnext, h⟩ := Result.bind_eq_ok.1 h
    rw [ih hfields.2 h, project_of_setField hnext]
    by_cases hproject : field = .project
    · subst hproject
      have hnone : fields.lookup .project = none := by
        refine List.lookup_eq_none_iff.2 fun other hother => bne_iff_ne.2 fun hsame => ?_
        exact hfields.1 (List.mem_map.2 ⟨other, hother, hsame.symm⟩)
      rw [hnone, List.lookup_cons_self]
      rfl
    · rw [if_neg hproject, List.lookup_cons, beq_false_of_ne (Ne.symm hproject)]

theorem project_of_lineMetadata {content : Text} {extraction : Markup.Extraction}
    (hextraction : Markup.extract settings today content = .ok extraction)
    {heading : Option Heading} {metadata : Metadata}
    (h : lineMetadata today heading extraction = .ok metadata) :
    metadata.project = writtenProject? extraction := by
  have hfields : (extraction.fields.map (·.1)).Nodup := by
    obtain ⟨consumed, text, tokens, -, -, -, rfl⟩ := Markup.extract_eq_ok_iff.1 hextraction
    exact Markup.nodup_fieldValues tokens
  rw [project_of_foldlM hfields h]
  exact Option.or_none

/-! ## Projects -/

/-- The metadata of a task with its project, what it inherits, and the date of the path, as if no
other tasks stood above it. -/
def completedMetadata (around : Surroundings) (isSubtask : Bool) (metadata : Metadata) :
    Except Failure Metadata := do
  let project
    ← (resolveProject around.settings.projects around.context metadata.project isSubtask none).named
    around.settings.projects around.context
  let metadata ← Inheritance.apply around.settings.projects around.today around.source isSubtask
    { metadata with project := project.written, inferred := project.inferred }
  return dateFromPath around.settings around.pathDate metadata

theorem completedMetadata_eq_ok {isSubtask : Bool} {metadata result : Metadata}
    (h : completedMetadata around isSubtask metadata = .ok result) :
    let alone :=
      resolveProject around.settings.projects around.context metadata.project isSubtask none
    ∃ inherited, Inheritance.apply around.settings.projects around.today around.source isSubtask
        { metadata with project := alone.written, inferred := alone.inferred } = .ok inherited ∧
      result = dateFromPath around.settings around.pathDate inherited := by
  obtain ⟨project, hproject, h⟩ := Result.bind_eq_ok.1 h
  obtain ⟨inherited, hinherited, h⟩ := Result.bind_eq_ok.1 h
  cases h
  obtain rfl := named_eq_ok hproject
  exact ⟨inherited, hinherited, rfl⟩

/-- Only its metadata can keep a task from being completed, and the outline gives it the rest. -/
theorem completeAlone_eq (around : Surroundings) (first : Task) (node : Outline.Node)
    (number : Nat) : completeAlone around ((first, node), number) =
    (completedMetadata around node.parent?.isSome first.metadata).map fun metadata => { first with
      depth := node.depth
      parent := node.parent?.bind fun parent => around.ids[parent]?
      children := ((around.children[number]?).getD []).filterMap fun child => around.ids[child]?
      metadata := metadata } := by
  unfold completeAlone complete completedMetadata
  dsimp only
  cases ResolvedProject.named _ _
      (resolveProject around.settings.projects around.context
        first.metadata.project node.parent?.isSome none) with
  | error cause => rfl
  | ok project =>
    simp only [Except.map, bind, Except.bind]
    cases Inheritance.apply around.settings.projects around.today
      around.source node.parent?.isSome _ <;> rfl

/-- A task that is completed alone has its place in the outline, its project, and what
it inherits. -/
theorem completeAlone_eq_ok {first task : Task} {node : Outline.Node} {number : Nat}
    (h : completeAlone around ((first, node), number) = .ok task) :
    let alone := resolveProject around.settings.projects around.context
      first.metadata.project node.parent?.isSome none
    ∃ metadata,
        Inheritance.apply around.settings.projects around.today around.source node.parent?.isSome
        { first.metadata with project := alone.written, inferred := alone.inferred } = .ok metadata ∧
      task = { first with
        depth := node.depth
        parent := node.parent?.bind fun parent => around.ids[parent]?
        children := ((around.children[number]?).getD []).filterMap fun child => around.ids[child]?
        metadata := dateFromPath around.settings around.pathDate metadata } := by
  rw [completeAlone_eq] at h
  obtain ⟨result, hresult, rfl⟩ := Result.map_eq_ok.1 h
  obtain ⟨metadata, hmetadata, rfl⟩ := completedMetadata_eq_ok hresult
  exact ⟨metadata, hmetadata, rfl⟩

/-- Where lines have become tasks and these have been completed, each line is paired with what
became of it. -/
theorem forall₂_of_completed {path : Text} {founds : List Found} {firsts tasks : List Task}
    {nodes : List Outline.Node} {start : Nat} (hlength : nodes.length = firsts.length)
    (hfirsts : List.Forall₂ (fun found first => taskOf settings today path found = .ok first) founds
      firsts)
    (htasks : List.Forall₂ (fun entry task => completeAlone around entry = .ok task)
      ((firsts.zip nodes).zipIdx start) tasks) :
    List.Forall₂ (fun entry task => ∃ first, taskOf settings today path entry.1.1 = .ok first ∧
      completeAlone around ((first, entry.1.2), entry.2) = .ok task)
      ((founds.zip nodes).zipIdx start) tasks := by
  induction hfirsts generalizing nodes start tasks with
  | nil =>
    rw [List.zip_nil_left] at htasks ⊢
    cases htasks
    exact .nil
  | @cons found first founds firsts hfirst _ ih =>
    cases nodes with
    | nil => simp at hlength
    | cons node nodes =>
      rw [List.zip_cons_cons, List.zipIdx_cons] at htasks ⊢
      cases htasks with
      | cons htask hrest => exact .cons ⟨first, hfirst, htask⟩ (ih (by simpa using hlength) hrest)

theorem isSome_parent {note : Note} {entry : (Found × Outline.Node) × Nat}
    (h : entry ∈ note.places settings) {ids : Array Text}
    (hids : ids.size = (note.found settings).length) :
    (entry.1.2.parent?.bind fun parent => ids[parent]?).isSome = entry.1.2.parent?.isSome := by
  have hentry : (note.outline settings).nodes[entry.2]? = some entry.1.2 := by
    have hmem := List.mem_map_of_mem h (f := fun entry => (entry.1.2, entry.2))
    rw [map_node_places] at hmem
    exact List.mem_zipIdx_iff_getElem?.1 hmem
  cases hparent : entry.1.2.parent? with
  | none => rfl
  | some parent =>
    have habove : parent < entry.2 :=
      Outline.parent?_lt (by rw [Outline.parent?, ← outline, hentry]; exact hparent)
    have hbound : entry.2 < (note.found settings).length := by
      rw [← length_nodes_outline]
      exact (List.getElem?_eq_some_iff.1 hentry).1
    rw [Option.bind_some, Array.getElem?_eq_getElem (by omega)]
    rfl

/-- Each task line of a note becomes a task on its own, and that task is completed on its own. -/
theorem forall₂_completeAlone_tasks {note : Note} {tasks : List Task}
    (h : note.tasks settings today = .ok tasks) :
    ∃ header firsts, note.headerOf = .ok header ∧ note.lineTasks settings today = .ok firsts ∧
      List.Forall₂ (fun entry task => ∃ first, taskOf settings today note.path entry.1.1 = .ok first ∧
          completeAlone (note.surroundings settings today header firsts)
            ((first, entry.1.2), entry.2) = .ok task ∧
          task.parent.isSome = entry.1.2.parent?.isSome) (note.places settings) tasks := by
  obtain ⟨header, firsts, hheader, hfirsts, htasks⟩ := tasks_eq_ok_iff.1 h
  have hlines := Result.mapM_eq_ok.1 hfirsts
  have hall := forall₂_of_completed (by rw [length_nodes_outline, hlines.length_eq])
    hlines (Result.mapM_eq_ok.1 htasks)
  have hids : (note.surroundings settings today header firsts).ids.size =
      (note.found settings).length := by
    simp [surroundings, hlines.length_eq]
  refine ⟨header, firsts, hheader, hfirsts, ?_⟩
  have hplaces :=
      (List.forall₂_and_left (p := (· ∈ note.places settings)) _ _).2 ⟨fun _ hentry => hentry, hall⟩
  refine hplaces.imp fun entry task ⟨hentry, first, hfirst, htask⟩ => ⟨first, hfirst, htask, ?_⟩
  obtain ⟨metadata, -, rfl⟩ := completeAlone_eq_ok htask
  exact isSome_parent hentry hids

/-- The task has the project of its line, or else the one that is inferred for a task of the note at
such a place. -/
def HasProject (rules : Option ProjectRules) (context : ProjectContext)
    (extraction : Markup.Extraction) (task : Task) : Prop :=
  match writtenProject? extraction with
  | some name => task.metadata.project = some name ∧ task.metadata.inferred = none
  | none =>
    task.metadata.project = none ∧
    task.metadata.inferred = (resolveProject rules context none task.parent.isSome none).inferred

theorem hasProject_of_completeAlone {path : Text} {found : Found} {first task : Task}
    {node : Outline.Node} {number : Nat} (hfirst : taskOf settings today path found = .ok first)
    (h : completeAlone around ((first, node), number) = .ok task)
    (hparent : task.parent.isSome = node.parent?.isSome) :
    ∃ extraction, Markup.extract settings today found.parts.content = .ok extraction ∧
      HasProject around.settings.projects around.context extraction task := by
  obtain ⟨extraction, lineMetadata, hextraction, hline, rfl⟩ := taskOf_eq_ok_iff.1 hfirst
  obtain ⟨metadata, hmetadata, rfl⟩ := completeAlone_eq_ok h
  have hwritten : ((writtenProject? extraction).map trim).filter (fun name => !name.isEmpty) =
      writtenProject? extraction := by
    unfold writtenProject?
    cases extraction.fields.lookup .project with
    | none => rfl
    | some raw => by_cases hempty : trim raw = [] <;> simp [Option.filter, hempty, trim_trim]
  have halone := resolveProject_alone around.settings.projects around.context
    (writtenProject? extraction) node.parent?.isSome
  rw [hwritten] at halone
  obtain ⟨hproject, hinferred⟩ := Inheritance.project_of_apply hmetadata
  dsimp only at hproject hinferred halone
  rw [project_of_lineMetadata hextraction hline, halone.1] at hproject
  rw [project_of_lineMetadata hextraction hline, halone.2] at hinferred
  refine ⟨extraction, hextraction, ?_⟩
  unfold HasProject
  dsimp only at hparent ⊢
  rw [hparent]
  cases hname : writtenProject? extraction with
  | some name => exact ⟨hproject.trans hname, by rw [hname] at hinferred; exact hinferred⟩
  | none => exact ⟨hproject.trans hname, by rw [hname] at hinferred; exact hinferred⟩

/-- Every task has the project of its line, or else the one that the sources name for a task without
a parent task to take it from; so tasks whose projects are inferred have the same one if both or
neither have a parent. -/
theorem projects_of_tasks {note : Note} {tasks : List Task}
    (h : note.tasks settings today = .ok tasks) :
    ∃ header, note.headerOf = .ok header ∧
    List.Forall₂ (fun found task => ∃ extraction,
      Markup.extract settings today found.parts.content = .ok extraction ∧
      HasProject settings.projects ⟨note.path, header, note.file⟩ extraction task)
      (note.found settings) tasks ∧
    ∀ task ∈ tasks, ∀ other ∈ tasks, task.metadata.project = none → other.metadata.project = none →
      task.parent.isSome = other.parent.isSome →
      task.metadata.inferred = other.metadata.inferred := by
  obtain ⟨header, firsts, hheader, -, hall⟩ := forall₂_completeAlone_tasks h
  have hprojects : List.Forall₂ (fun entry task => ∃ extraction,
      Markup.extract settings today entry.1.1.parts.content = .ok extraction ∧
      HasProject settings.projects ⟨note.path, header, note.file⟩ extraction task)
      (note.places settings) tasks :=
    hall.imp fun _ _ ⟨_, hfirst, htask, hparent⟩ => hasProject_of_completeAlone hfirst htask hparent
  have hinferred : ∀ task ∈ tasks, task.metadata.project = none →
      task.metadata.inferred =
          (resolveProject settings.projects ⟨note.path, header, note.file⟩
            none task.parent.isSome none).inferred := by
    intro task htask hnone
    obtain ⟨entry, -, extraction, -, hproject⟩ := Result.exists_left_of_mem hprojects htask
    unfold HasProject at hproject
    split at hproject
    · rw [hnone] at hproject
      cases hproject.1
    · exact hproject.2
  refine ⟨header, hheader, ?_, fun task htask other hother hnone hnone' hplace => ?_⟩
  · rw [← map_found_places]
    exact List.forall₂_map_left_iff.2 hprojects
  · rw [hinferred task htask hnone, hinferred other hother hnone', hplace]

/-- The header names the project of the first task only, a line that of its parent, and the path of
the note that of the third. -/
theorem projects_of_tasks_nested :
    let settings : Settings := { projects := some { naming := { enabled := true } } }
    let note : Note := {
      path := "n.md".toList
      content := "- [ ] a\n  - [ ] b #project/X\n    - [ ] c".toList
      header := some [(.str "project".toList, .str "Alpha".toList)] }
    ∃ tasks, note.tasks settings ⟨2024, 3, 13, rfl⟩ = .ok tasks ∧
      tasks.map (fun task => task.metadata.effectiveProject) =
        [some "Alpha".toList, some "X".toList, some "n".toList] ∧
      ∃ header, note.headerOf = .ok header ∧
        List.Forall₂ (fun found task => ∃ extraction,
          Markup.extract settings ⟨2024, 3, 13, rfl⟩ found.parts.content = .ok extraction ∧
          HasProject settings.projects ⟨note.path, header, note.file⟩ extraction task)
          (note.found settings) tasks := by
  intro settings note
  have hnames :
      ((note.tasks settings ⟨2024, 3, 13, rfl⟩).map
        (·.map fun task => task.metadata.effectiveProject)).toOption =
      some [some "Alpha".toList, some "X".toList, some "n".toList] := by decide +kernel
  obtain ⟨tasks, htasks, hnames⟩ := Result.exists_of_map hnames
  obtain ⟨header, hheader, hprojects, -⟩ := projects_of_tasks htasks
  exact ⟨tasks, htasks, hnames, header, hheader, hprojects⟩

end Checklist.Note
