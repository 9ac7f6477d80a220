import Checklist.Proofs.Markup.Reading
import Checklist.Proofs.Note.Completion

/-! # When a note has tasks

Reading a note fails for a value in it that cannot be taken as what it stands for. Main statement: a
note has tasks exactly if its header, its task lines and what the tasks inherit are readable
(`tasks_isOk_iff`). -/

namespace Checklist
set_option autoImplicit false
open Text

/-! ## Lines -/

namespace Note

theorem lineMetadata_isOk_iff {today : Date} {heading : Option Heading}
    {extraction : Markup.Extraction} :
    (∃ metadata, lineMetadata today heading extraction = .ok metadata) ↔
      ∀ entry ∈ extraction.fields, (Value.str entry.2).Suits today entry.1 := by
  have hfield : ∀ (metadata : Metadata) (entry : Field × Text),
      (∃ result, setField today metadata entry.1 entry.2 = .ok result) ↔
          (Value.str entry.2).Suits today entry.1 :=
    fun metadata entry => setField_isOk_iff
  exact Result.foldlM_isOk_iff_forall hfield

theorem taskOf_isOk_iff {settings : Settings} {today : Date} {path : Text} {found : Found} :
    (∃ task, taskOf settings today path found = .ok task) ↔
      Markup.IsReadable settings today found.parts.content ∧
      ∀ extraction, Markup.extract settings today found.parts.content = .ok extraction →
        ∀ entry ∈ extraction.fields, (Value.str entry.2).Suits today entry.1 := by
  rw [taskOf, Result.bind_isOk_iff, ← Markup.extract_isOk_iff]
  constructor
  · rintro ⟨extraction, hextraction, hrest⟩
    refine ⟨⟨extraction, hextraction⟩, fun extraction' hextraction' => ?_⟩
    obtain rfl := Except.ok.inj (hextraction.symm.trans hextraction')
    rw [Result.bind_isOk_iff] at hrest
    obtain ⟨metadata, hmetadata, -⟩ := hrest
    exact lineMetadata_isOk_iff.1 ⟨metadata, hmetadata⟩
  · rintro ⟨⟨extraction, hextraction⟩, hfields⟩
    obtain ⟨metadata, hmetadata⟩ := lineMetadata_isOk_iff.2 (hfields extraction hextraction)
    exact ⟨extraction, hextraction, Result.bind_isOk_iff.2 ⟨metadata, hmetadata, _, rfl⟩⟩

end Note

/-! ## Inheritance -/

namespace Inheritance

/-- The task with the given metadata can inherit: the keys that come its way can be written, and the
value of a key for a field that the task does not have by then suits that field. -/
def IsReadable (rules : Option ProjectRules) (today : Date) (source : Entries) (isSubtask : Bool)
    (metadata : Metadata) : Prop :=
  reaches rules isSubtask = true →
    ∀ before key value after reached, source = before ++ (key, value) :: after →
      apply rules today before isSubtask metadata = .ok reached → value.isNull = false →
        key.isWritable = true ∧
          ∀ field, isOwn rules key.display = false → Field.ofKey? key.display = some field →
            reached.has field = false →
            value.Suits today field

theorem inherit_isOk_iff {rules : Option ProjectRules} {today : Date}
    {metadata : Metadata} {key value : Value} :
    (∃ result, inherit rules today metadata key value = .ok result) ↔ (value.isNull = false →
      key.isWritable = true ∧
        ∀ field, isOwn rules key.display = false → Field.ofKey? key.display = some field →
          metadata.has field = false →
          value.Suits today field) := by
  unfold inherit
  by_cases hnull : value.isNull = true
  · simp [hnull]
  · have hsome : value.isNull = false := by simpa using hnull
    rw [if_neg hnull, Value.bind_written_isOk_iff]
    simp only [hsome, forall_const]
    refine and_congr_right fun _ => ?_
    by_cases hown : isOwn rules key.display = true
    · simp [hown, pure, Except.pure]
    · have hnot : isOwn rules key.display = false := by simpa using hown
      cases hfield : Field.ofKey? key.display with
      | none =>
        refine iff_of_true ?_ (by simp)
        by_cases hcustom : metadata.custom.has key =
          true <;> simp [hown, hcustom, pure, Except.pure]
      | some field =>
        by_cases hhas : metadata.has field = true
        · simp [hown, hhas, pure, Except.pure]
        · have hlacks : metadata.has field = false := by simpa using hhas
          simp only [hnot, hlacks, Option.some.injEq, forall_const, forall_eq']
          exact inheritField_isOk_iff

theorem apply_isOk_iff {rules : Option ProjectRules} {today : Date} {source : Entries}
    {isSubtask : Bool} {metadata : Metadata} :
    (∃ result, apply rules today source isSubtask metadata = .ok result) ↔
      IsReadable rules today source isSubtask metadata := by
  unfold IsReadable
  by_cases hreaches : reaches rules isSubtask = true
  · simp only [apply, hreaches, if_true, forall_const]
    rw [Result.foldlM_isOk_iff]
    constructor
    · intro h before key value after reached hsplit hbefore
      exact inherit_isOk_iff.1 (h before (key, value) after reached hsplit hbefore)
    · intro h before entry after reached hsplit hbefore
      exact inherit_isOk_iff.2 (h before entry.1 entry.2 after reached hsplit hbefore)
  · simp [apply, hreaches]

end Inheritance

/-! ## Tasks in their note -/

namespace Note

theorem named_isOk_iff {rules : Option ProjectRules} {context : ProjectContext}
    {project : ResolvedProject} :
    (∃ result, project.named rules context = .ok result) ↔
      ∀ value, project.namingValue? rules context = some value → value.isWritable = true := by
  unfold ResolvedProject.named
  cases project.namingValue? rules context with
  | none => simp
  | some value => simpa using Value.map_written_isOk_iff

theorem named_eq_ok {rules : Option ProjectRules} {context : ProjectContext}
    {project result : ResolvedProject}
    (h : project.named rules context = .ok result) : result = project := by
  unfold ResolvedProject.named at h
  split at h
  · obtain ⟨-, -, h⟩ := Result.map_eq_ok.1 h
    exact h.symm
  · exact (Except.ok.inj h).symm

/-- A task of a line, its place in the outline, and the project that is found for it. -/
structure Placement where
  task : Task
  node : Outline.Node
  project : ResolvedProject

/-- The tasks with their projects, found from the top. -/
def placements (around : Surroundings) (projects : Array ResolvedProject) :
    List (Task × Outline.Node) → List Placement
  | [] => []
  | (task, node) :: rest =>
    let project := resolveProject around.settings.projects around.context
      task.metadata.project node.parent?.isSome
      (node.parent?.bind fun parent => projects[parent]?)
    ⟨task, node, project⟩ :: placements around (projects.push project) rest

/-- The task can be completed: a value that its project is named after can be written, and it
can inherit. -/
structure Placement.IsReadable (around : Surroundings) (placed : Placement) : Prop where
  named : ∀ value, placed.project.namingValue? around.settings.projects around.context =
    some value → value.isWritable = true
  inherits : Inheritance.IsReadable around.settings.projects around.today
    around.source placed.node.parent?.isSome
    { placed.task.metadata with project := placed.project.written, inferred := placed.project.inferred }

theorem complete_isOk_iff {around : Surroundings} {node : Outline.Node} {number : Nat}
    {parent : Option ResolvedProject} {task : Task} :
    (∃ result, complete around node number parent task = .ok result) ↔
      Placement.IsReadable around ⟨task, node,
      resolveProject around.settings.projects around.context task.metadata.project
        node.parent?.isSome parent⟩ := by
  constructor
  · rintro ⟨result, hresult⟩
    obtain ⟨project, metadata, hproject, hmetadata, -⟩ := complete_eq_ok_iff.1 hresult
    obtain rfl := named_eq_ok hproject
    exact ⟨named_isOk_iff.1 ⟨_, hproject⟩, Inheritance.apply_isOk_iff.1 ⟨metadata, hmetadata⟩⟩
  · rintro ⟨hnamed, hinherits⟩
    obtain ⟨project, hproject⟩ := named_isOk_iff.2 hnamed
    obtain rfl := named_eq_ok hproject
    obtain ⟨metadata, hmetadata⟩ := Inheritance.apply_isOk_iff.2 hinherits
    exact ⟨_, complete_eq_ok_iff.2 ⟨_, metadata, hproject, hmetadata, rfl⟩⟩

theorem project_of_complete {around : Surroundings} {node : Outline.Node} {number : Nat}
    {parent : Option ResolvedProject} {task : Task}
    {result : Task × ResolvedProject} (h : complete around node number parent task = .ok result) :
    result.2 = resolveProject around.settings.projects around.context task.metadata.project
      node.parent?.isSome parent := by
  obtain ⟨project, metadata, hproject, -, rfl⟩ := complete_eq_ok_iff.1 h
  exact named_eq_ok hproject

theorem completeAll_isOk_iff {around : Surroundings} {projects : Array ResolvedProject}
    {pairs : List (Task × Outline.Node)} :
    (∃ done, completeAll around projects pairs = .ok done) ↔
      ∀ placed ∈ placements around projects pairs, placed.IsReadable around := by
  induction pairs generalizing projects with
  | nil => exact iff_of_true ⟨[], rfl⟩ fun placed hplaced => nomatch hplaced
  | cons pair rest ih =>
    obtain ⟨task, node⟩ := pair
    rw [completeAll, Result.bind_isOk_iff, placements, List.forall_mem_cons, ← ih,
      ← @complete_isOk_iff around node projects.size _ task]
    constructor
    · rintro ⟨result, hresult, hrest⟩
      rw [Result.bind_isOk_iff] at hrest
      obtain ⟨done, hdone, -⟩ := hrest
      rw [project_of_complete hresult] at hdone
      exact ⟨⟨result, hresult⟩, ⟨done, hdone⟩⟩
    · rintro ⟨⟨result, hresult⟩, ⟨done, hdone⟩⟩
      rw [← project_of_complete hresult] at hdone
      exact ⟨result, hresult, Result.bind_isOk_iff.2 ⟨done, hdone, _, rfl⟩⟩

/-! ## Notes -/

/-- Nothing in the note stands for something that does not exist. -/
structure IsReadable (settings : Settings) (today : Date) (note : Note) : Prop where
  /-- No value in the header stands under a tag that it does not fit. -/
  header : ∀ cause, note.header = none → Header.read Header.standardLoader note.content ≠
    .error (.unreadable cause)
  /-- The values that marks ask for suit their fields, and placeholders have their spans. -/
  lines : ∀ found ∈ note.found settings, Markup.IsReadable settings today found.parts.content
  /-- The values of the tokens that count suit their fields. -/
  fields : ∀ found ∈ note.found settings, ∀ extraction,
    Markup.extract settings today found.parts.content = .ok extraction →
    ∀ entry ∈ extraction.fields, (Value.str entry.2).Suits today entry.1
  /-- What names the projects can be written, and what the tasks inherit suits its fields. -/
  tasks : ∀ header tasks, note.headerOf = .ok header → note.lineTasks settings today = .ok tasks →
    ∀ placed ∈ placements (note.surroundings settings today header tasks) #[]
      (tasks.zip (note.outline settings).nodes),
      placed.IsReadable (note.surroundings settings today header tasks)

theorem headerOf_isOk_iff {note : Note} :
    (∃ header, note.headerOf = .ok header) ↔ ∀ cause, note.header = none →
      Header.read Header.standardLoader note.content ≠ .error (.unreadable cause) := by
  unfold headerOf
  cases hgiven : note.header with
  | some header => simp
  | none =>
    cases hend : Header.endLine? note.content with
    | none =>
      have hread : Header.read Header.standardLoader note.content =
          .ok [] := by simp [Header.read, Header.has, hend]
      simp [hread]
    | some last =>
      cases hread : Header.read Header.standardLoader note.content with
      | ok header => simp
      | error cause => cases cause <;> simp

theorem lineTasks_isOk_iff {settings : Settings} {today : Date} {note : Note} :
    (∃ tasks, note.lineTasks settings today = .ok tasks) ↔
      (∀ found ∈ note.found settings, Markup.IsReadable settings today found.parts.content) ∧
        ∀ found ∈ note.found settings, ∀ extraction,
          Markup.extract settings today found.parts.content = .ok extraction →
          ∀ entry ∈ extraction.fields, (Value.str entry.2).Suits today entry.1 := by
  rw [lineTasks, Result.mapM_isOk_iff]
  simp only [taskOf_isOk_iff]
  constructor
  · intro h
    exact ⟨fun found hfound => (h found hfound).1, fun found hfound => (h found hfound).2⟩
  · rintro ⟨hlines, hfields⟩ found hfound
    exact ⟨hlines found hfound, hfields found hfound⟩

/-- A note has tasks exactly if nothing in it stands for something that does not exist. -/
theorem tasks_isOk_iff {settings : Settings} {today : Date} {note : Note} :
    (∃ tasks, note.tasks settings today = .ok tasks) ↔ note.IsReadable settings today := by
  rw [Note.tasks, Result.bind_isOk_iff]
  constructor
  · rintro ⟨header, hheader, hrest⟩
    rw [Result.bind_isOk_iff] at hrest
    obtain ⟨tasks, htasks, hdone⟩ := hrest
    have htasks := Result.mapError_eq_ok.1 htasks
    obtain ⟨hlines, hfields⟩ := lineTasks_isOk_iff.1 ⟨tasks, htasks⟩
    refine ⟨headerOf_isOk_iff.1 ⟨header, hheader⟩, hlines, hfields,
      fun header' tasks' hheader' htasks' => ?_⟩
    obtain rfl := Except.ok.inj (hheader.symm.trans hheader')
    obtain rfl := Except.ok.inj (htasks.symm.trans htasks')
    exact completeAll_isOk_iff.1 (Result.mapError_isOk_iff.1 hdone)
  · intro h
    obtain ⟨header, hheader⟩ := headerOf_isOk_iff.2 h.header
    obtain ⟨tasks, htasks⟩ := lineTasks_isOk_iff.2 ⟨h.lines, h.fields⟩
    have hdone := completeAll_isOk_iff.2 (h.tasks header tasks hheader htasks)
    refine ⟨header, hheader, Result.bind_isOk_iff.2 ⟨tasks, Result.mapError_eq_ok.2 htasks, ?_⟩⟩
    exact Result.mapError_isOk_iff.2 hdone

/-- A digit that is no decimal digit keeps a note from having tasks. -/
theorem no_tasks_with_superscript_priority :
    ¬∃ tasks, Note.tasks {} ⟨2024, 3, 13, rfl⟩
      { path := [], content := "- [ ] x [priority:: ²]".toList } = .ok tasks := by
  have hfails :
      (Note.tasks {}
        ⟨2024, 3, 13, rfl⟩
          { path := [], content := "- [ ] x [priority:: ²]".toList }).toOption.isNone = true := by
    decide +kernel
  rintro ⟨tasks, htasks⟩
  rw [htasks] at hfails
  cases hfails

end Note
end Checklist
