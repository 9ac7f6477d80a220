import Checklist.Note.Parse
import Checklist.Proofs.Except
import Checklist.Proofs.Outline

/-! # Tasks at their places

Completing the tasks of a note gives each its place in the outline and the rest of its metadata, and
leaves the rest as the line says. Main statement: `forall₂_isPlaced_tasks`. -/

namespace Checklist.Note
set_option autoImplicit false

/-- The task is that of a line of the note at a path, and has the place of a node of the outline
with a number, where the tasks are known by the given ids. -/
structure IsPlaced (path : Text) (ids : Array Text) (children : Array (List Nat)) (found : Found)
    (node : Outline.Node) (number : Nat) (task : Task) : Prop where
  path_eq : task.path = path
  line_eq : task.line = found.number
  id_eq : task.id = Task.idOf path found.number
  lineText_eq : task.lineText = found.line
  indent_eq : task.indent = found.indent
  depth_eq : task.depth = node.depth
  parent_eq : task.parent = node.parent?.bind fun parent => ids[parent]?
  children_eq : task.children = ((children[number]?).getD []).filterMap fun child => ids[child]?

variable {settings : Settings} {today : Date} {path : Text} {around : Surroundings}

theorem taskOf_eq_ok_iff {found : Found} {task : Task} :
    taskOf settings today path found = .ok task ↔
    ∃ extraction metadata, Markup.extract settings today found.parts.content = .ok extraction ∧
      lineMetadata today found.heading extraction = .ok metadata ∧
      { id := Task.idOf path found.number
        path := path
        line := found.number
        content := extraction.content
        status := [found.parts.status]
        category := settings.marks.category found.parts.status
        lineText := found.line
        indent := found.indent
        marker := found.parts.marker
        metadata := metadata
        comment := found.comment } = task :=
  Result.both_eq_ok

theorem complete_eq_ok_iff {node : Outline.Node} {number : Nat} {parent : Option ResolvedProject}
    {task : Task} {result : Task × ResolvedProject} :
    complete around node number parent task = .ok result ↔ ∃ project metadata,
      (resolveProject around.settings.projects around.context task.metadata.project
        node.parent?.isSome parent).named
        around.settings.projects around.context = .ok project ∧
      Inheritance.apply around.settings.projects around.today around.source node.parent?.isSome
        { task.metadata with project := project.written, inferred := project.inferred } = .ok metadata ∧
      ({ task with
        depth := node.depth
        parent := node.parent?.bind fun parent => around.ids[parent]?
        children := ((around.children[number]?).getD []).filterMap fun child => around.ids[child]?
        metadata := dateFromPath around.settings around.pathDate metadata }, project) = result :=
  Result.both_eq_ok

theorem id_of_taskOf {found : Found} {task : Task}
    (h : taskOf settings today path found = .ok task) : Task.idOf path found.number = task.id := by
  obtain ⟨extraction, metadata, -, -, rfl⟩ := taskOf_eq_ok_iff.1 h
  rfl

theorem isPlaced_complete {found : Found} {node : Outline.Node} {number : Nat}
    {parent : Option ResolvedProject} {task : Task} {result : Task × ResolvedProject}
    (htask : taskOf settings today path found = .ok task)
    (h : complete around node number parent task = .ok result) :
    IsPlaced path around.ids around.children found node number result.1 := by
  obtain ⟨extraction, said, -, -, rfl⟩ := taskOf_eq_ok_iff.1 htask
  obtain ⟨project, metadata, -, -, rfl⟩ := complete_eq_ok_iff.1 h
  exact ⟨rfl, rfl, rfl, rfl, rfl, rfl, rfl, rfl⟩

theorem forall₂_isPlaced_completeAll {projects : Array ResolvedProject} {founds : List Found}
    {tasks done : List Task} {nodes : List Outline.Node} (hlength : nodes.length = tasks.length)
    (htasks : List.Forall₂ (fun found task => taskOf settings today path found = .ok task) founds
      tasks)
    (h : completeAll around projects (tasks.zip nodes) = .ok done) :
    List.Forall₂ (fun entry task =>
      IsPlaced path around.ids around.children entry.1.1 entry.1.2 entry.2 task)
      ((founds.zip nodes).zipIdx projects.size) done := by
  induction htasks generalizing nodes projects done with
  | nil =>
    rw [List.zip_nil_left] at h ⊢
    cases h
    exact .nil
  | cons htask _ ih =>
    cases nodes with
    | nil => simp at hlength
    | cons node nodes =>
      obtain ⟨⟨task, project⟩, hcomplete, h⟩ := Result.bind_eq_ok.1 h
      obtain ⟨rest, hrest, h⟩ := Result.bind_eq_ok.1 h
      cases h
      refine .cons (isPlaced_complete htask hcomplete) ?_
      have hrest := ih (by simpa using hlength) hrest
      rwa [Array.size_push] at hrest

/-- The task lines of a note with their nodes in the outline, and their numbers. -/
def places (settings : Settings) (note : Note) : List ((Found × Outline.Node) × Nat) :=
  ((note.found settings).zip (note.outline settings).nodes).zipIdx

theorem length_nodes_outline (settings : Settings) (note : Note) :
    (note.outline settings).nodes.length = (note.found settings).length := by
  rw [outline, Outline.length_nodes_ofIndents, List.length_map]

theorem map_found_places (settings : Settings) (note : Note) :
    (note.places settings).map (fun entry => entry.1.1) = note.found settings := by
  have hnumbers : (note.places settings).map Prod.fst =
      (note.found settings).zip (note.outline settings).nodes := List.zipIdx_map_fst _ _
  rw [← List.map_fst_zip (Nat.le_of_eq (length_nodes_outline settings note).symm),
    ← hnumbers, List.map_map]
  rfl

theorem map_node_places (settings : Settings) (note : Note) :
    (note.places settings).map (fun entry => (entry.1.2, entry.2)) =
      (note.outline settings).nodes.zipIdx := by
  have hnodes := List.map_snd_zip (Nat.le_of_eq (length_nodes_outline settings note))
  conv_rhs => rw [← hnodes, List.zipIdx_map]
  rfl

/-- Each task line of a note becomes one task, which has the place of its node. -/
theorem forall₂_isPlaced_tasks {note : Note} {tasks : List Task}
    (h : note.tasks settings today = .ok tasks) :
    List.Forall₂ (fun entry task => IsPlaced note.path (tasks.map Task.id).toArray
      (note.outline settings).childLists entry.1.1 entry.1.2 entry.2 task)
      (note.places settings) tasks := by
  obtain ⟨header, -, h⟩ := Result.bind_eq_ok.1 h
  obtain ⟨firsts, hfirsts, h⟩ := Result.bind_eq_ok.1 h
  have hall := Result.mapM_eq_ok.1 (Result.mapError_eq_ok.1 hfirsts)
  have hplaced : List.Forall₂ _ (note.places settings) tasks :=
    forall₂_isPlaced_completeAll (by rw [length_nodes_outline, hall.length_eq])
      hall (Result.mapError_eq_ok.1 h)
  have hfirst := Result.map_eq_map (fun _ _ hfound => id_of_taskOf hfound) hall
  have hdone := Result.map_eq_map (fun _ _ hplace => hplace.id_eq.symm) hplaced
  have hids : firsts.map Task.id = tasks.map Task.id := by
    rw [← hfirst, ← hdone, ← map_found_places, List.map_map]
    exact List.map_congr_left fun entry _ => rfl
  rw [← hids]
  exact hplaced

end Checklist.Note
