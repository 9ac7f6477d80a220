import Checklist.Proofs.Note.Identity

/-! # The hierarchy of the tasks of a note

Tasks name each other by their ids. Main statements: the parent of a task is the nearest earlier
task that is indented less, and the children of a task are those that name it, in order
(`isHierarchy_tasks`); from child to parent a root is reached in as many steps as the depth says
(`IsHierarchy.climb?_iff`). -/

namespace Checklist
set_option autoImplicit false
open Text

namespace Note

/-! ## Hierarchies -/

/-- The nearest task that is indented less, of those that stand above. -/
def nearestTask? (above : List Task) (indent : Nat) : Option Task :=
  above.reverse.find? fun other => other.indent < indent

/-- The task that a task names as its parent. -/
def parentIn? (tasks : List Task) (task : Task) : Option Task :=
  task.parent.bind fun id => tasks.find? fun other => other.id == id

/-- The task that is reached in a number of steps from child to parent. -/
def climb? (tasks : List Task) : Nat → Task → Option Task
  | 0, task => some task
  | steps + 1, task => (parentIn? tasks task).bind (climb? tasks steps)

/-- The links between tasks say what their indents say. -/
structure IsHierarchy (tasks : List Task) : Prop where
  nodup_ids : (tasks.map Task.id).Nodup
  parent_eq : ∀ above task below, tasks = above ++ task :: below →
    task.parent = (nearestTask? above task.indent).map Task.id
  parent_eq_none_iff : ∀ above task below, tasks = above ++ task :: below →
    (task.parent = none ↔ ∀ other ∈ above, task.indent ≤ other.indent)
  depth_eq : ∀ above task below, tasks = above ++ task :: below →
    task.depth = ((nearestTask? above task.indent).map (·.depth + 1)).getD 0
  children_eq : ∀ task ∈ tasks, task.children =
    (tasks.filter fun other => other.parent == some task.id).map Task.id

theorem find?_id {tasks : List Task} (h : (tasks.map Task.id).Nodup) {task : Task}
    (htask : task ∈ tasks) :
    (tasks.find? fun other => other.id == task.id) = some task := by
  induction tasks with
  | nil => cases htask
  | cons other tasks ih =>
    rw [List.map_cons, List.nodup_cons] at h
    rcases List.mem_cons.1 htask with rfl | htask
    · exact List.find?_cons_of_pos (by simp)
    · have hne : other.id ≠ task.id := fun hid => h.1 (hid ▸ List.mem_map_of_mem htask)
      rw [List.find?_cons_of_neg (by simpa using hne), ih h.2 htask]

/-- A root is reached in as many steps as the depth says, and in no other number of steps. -/
theorem exists_climb?_iff {tasks : List Task} (h : IsHierarchy tasks) {above below : List Task}
    {task : Task} (hsplit : tasks = above ++ task :: below) :
    ∃ depth : Nat, task.depth = depth ∧ ∀ steps,
      (∃ root, climb? tasks steps task = some root ∧ root.parent = none) ↔ steps = depth := by
  induction hn : above.length using Nat.strong_induction_on generalizing above task below with
  | _ n ih =>
    have hparent := h.parent_eq above task below hsplit
    have hdepth := h.depth_eq above task below hsplit
    cases hnearest : nearestTask? above task.indent with
    | none =>
      rw [hnearest] at hparent hdepth
      refine ⟨0, hdepth, fun steps => ?_⟩
      cases steps with
      | zero => simpa [climb?] using hparent
      | succ steps => simp [climb?, parentIn?, hparent]
    | some parent =>
      rw [hnearest] at hparent hdepth
      have hmem : parent ∈ above := List.mem_reverse.1 (List.mem_of_find?_eq_some hnearest)
      obtain ⟨before, between, rfl⟩ := List.append_of_mem hmem
      have hhigher : tasks = before ++ parent :: (between ++ task :: below) := by rw [hsplit]; simp
      obtain ⟨depth, hparentDepth, hclimb⟩ := ih before.length (by simp at hn; omega) hhigher rfl
      have hfound : parentIn? tasks task = some parent := by
        rw [parentIn?, hparent, Option.map_some, Option.bind_some,
          find?_id h.nodup_ids (by rw [hhigher]; simp)]
      refine ⟨depth + 1, by simpa [hparentDepth] using hdepth, fun steps => ?_⟩
      cases steps with
      | zero => simp [climb?, hparent]
      | succ steps =>
        rw [climb?, hfound, Option.bind_some, hclimb steps]
        omega

theorem IsHierarchy.climb?_iff {tasks : List Task} (h : IsHierarchy tasks) {task : Task}
    (htask : task ∈ tasks) (steps : Nat) :
    (∃ root, climb? tasks steps task = some root ∧ root.parent = none) ↔
      (steps : Int) = task.depth := by
  obtain ⟨above, below, hsplit⟩ := List.append_of_mem htask
  obtain ⟨depth, hdepth, hclimb⟩ := exists_climb?_iff h hsplit
  rw [hclimb steps, hdepth]
  omega

/-! ## From nodes to tasks -/

/-- The task has the links of a node, where tasks are known by the given ids. -/
structure Follows (ids : List Text) (node : Outline.Node) (task : Task) : Prop where
  indent_eq : node.indent = task.indent
  depth_eq : task.depth = node.depth
  parent_eq : task.parent = node.parent?.bind fun parent => ids[parent]?

/-- The task with a number has the links of its node, and its children have the numbers that a
table gives. -/
structure IsLinked (ids : List Text) (children : Array (List Nat)) (entry : Outline.Node × Nat)
    (task : Task) : Prop where
  follows : Follows ids entry.1 task
  id_eq : ids[entry.2]? = some task.id
  children_eq : task.children = ((children[entry.2]?).getD []).filterMap fun child => ids[child]?

theorem map_nearest? {ids : List Text} {nodes : List Outline.Node} {tasks : List Task}
    (h : List.Forall₂ (Follows ids) nodes tasks)
    (hids : (tasks.map Task.id).reverse <+: ids) (indent : Nat) :
    (Outline.nearest? nodes indent).map (fun entry => (ids[entry.1]?, (entry.2.depth : Int))) =
      (tasks.find? fun other => other.indent < indent).map fun other =>
        (some other.id, other.depth) := by
  induction h with
  | nil => rfl
  | @cons node task nodes tasks hlinks hrest ih =>
    rw [List.map_cons, List.reverse_cons] at hids
    have hless : node.indent < indent ↔
        task.indent < indent := by rw [hlinks.indent_eq, Int.ofNat_lt]
    by_cases hnear : task.indent < indent
    · have hid : ids[nodes.length]? = some task.id := by
        obtain ⟨more, rfl⟩ := hids
        rw [List.append_assoc, List.getElem?_append_right (by simp [hrest.length_eq])]
        simp [hrest.length_eq]
      rw [Outline.nearest?, if_pos (hless.2 hnear), List.find?_cons_of_pos (by simpa using hnear),
        Option.map_some, Option.map_some, hid, hlinks.depth_eq]
    · rw [Outline.nearest?, if_neg (fun hlt => hnear (hless.1 hlt)),
        List.find?_cons_of_neg (by simpa using hnear)]
      exact ih (List.IsPrefix.trans (List.prefix_append _ _) hids)

theorem links_of_forall₂ {nodes : List Outline.Node} {tasks : List Task}
    (h : List.Forall₂ (Follows (tasks.map Task.id)) nodes tasks)
    (hhang : Outline.AllHang nodes.reverse) {above below : List Task} {task : Task}
    (hsplit : tasks = above ++ task :: below) :
    task.parent = (nearestTask? above task.indent).map Task.id ∧
      task.depth = ((nearestTask? above task.indent).map (·.depth + 1)).getD 0 := by
  have hreverse := List.forall₂_reverse_iff.2 h
  have htasks : tasks.reverse = below.reverse ++ task :: above.reverse := by rw [hsplit]; simp
  have hids : (above.reverse.map Task.id).reverse <+: tasks.map Task.id := by
    rw [hsplit, List.map_append, List.map_reverse, List.reverse_reverse]
    exact List.prefix_append _ _
  rw [htasks] at hreverse
  obtain ⟨node, earlier, hfollows, hearlier, hnodes⟩ :=
    List.forall₂_cons_right_iff.1 (List.forall₂_drop_append _ _ _ hreverse)
  rw [← List.take_append_drop below.reverse.length nodes.reverse, hnodes] at hhang
  obtain ⟨hparent, hdepth⟩ := hhang.hangs
  have hnearest := map_nearest? hearlier hids task.indent
  rw [hfollows.indent_eq] at hparent hdepth
  rw [hfollows.parent_eq, hfollows.depth_eq, hparent, hdepth, nearestTask?]
  cases hfound : Outline.nearest? earlier task.indent with
  | none =>
    rw [hfound, Option.map_none, eq_comm, Option.map_eq_none_iff] at hnearest
    rw [hnearest]
    exact ⟨rfl, rfl⟩
  | some entry =>
    rw [hfound, Option.map_some, eq_comm, Option.map_eq_some_iff] at hnearest
    obtain ⟨parent, hparent, hsame⟩ := hnearest
    rw [Prod.mk.injEq] at hsame
    rw [hparent]
    exact ⟨hsame.1.symm, by simp [hsame.2]⟩

theorem filterMap_children {ids : List Text} (hnodup : ids.Nodup) {children : Array (List Nat)}
    {number : Nat} {id : Text} (hnumber : ids[number]? = some id)
    {numbered : List (Outline.Node × Nat)} {tasks : List Task}
    (h : List.Forall₂ (IsLinked ids children) numbered tasks) :
    (numbered.filterMap fun entry => if entry.1.parent? == some number then ids[entry.2]? else none) =
      (tasks.filter fun other => other.parent == some id).map Task.id := by
  induction h with
  | nil => rfl
  | @cons entry task numbered tasks hentry _ ih =>
    obtain ⟨hfollows, hid, -⟩ := hentry
    have hsame : entry.1.parent? = some number ↔ task.parent = some id := by
      rw [hfollows.parent_eq]
      constructor
      · intro hparent
        rw [hparent, Option.bind_some, hnumber]
      · intro hparent
        obtain ⟨other, hother, hotherId⟩ := Option.bind_eq_some_iff.1 hparent
        obtain ⟨hlt, -⟩ := List.getElem?_eq_some_iff.1 hotherId
        rw [hother, (List.getElem?_inj hlt hnodup).1 (hotherId.trans hnumber.symm)]
    by_cases hparent : entry.1.parent? = some number
    · rw [List.filterMap_cons, if_pos (by simpa using hparent), hid, ih,
        List.filter_cons_of_pos (by simpa using hsame.1 hparent), List.map_cons]
    · rw [List.filterMap_cons, if_neg (by simpa using hparent), ih,
        List.filter_cons_of_neg (by simpa using fun h => hparent (hsame.2 h))]

/-! ## The tasks of a note -/

variable {settings : Settings} {today : Date} {note : Note} {tasks : List Task}

theorem indent_of_mem_places {entry : (Found × Outline.Node) × Nat}
    (h : entry ∈ note.places settings) : entry.1.2.indent = entry.1.1.indent := by
  have hindents : (note.outline settings).nodes.map Outline.Node.indent =
      (note.found settings).map fun line => (line.indent : Int) :=
    Outline.map_indent_ofIndents _
  obtain ⟨⟨found, node⟩, number⟩ := entry
  obtain ⟨hfound, hnode⟩ := List.getElem?_zip_eq_some.1 (List.mem_zipIdx_iff_getElem?.1 h)
  have hsame := congrArg (·[number]?) hindents
  simpa [hfound, hnode] using hsame

theorem forall₂_isLinked (h : note.tasks settings today = .ok tasks) :
    List.Forall₂ (IsLinked (tasks.map Task.id) (note.outline settings).childLists)
      (note.outline settings).nodes.zipIdx tasks := by
  have hplaced := forall₂_isPlaced_tasks h
  rw [← map_node_places, List.forall₂_map_left_iff]
  refine List.forall₂_iff_zip.2 ⟨hplaced.length_eq, fun {entry task} hpair => ?_⟩
  have hplace := List.forall₂_zip hplaced hpair
  obtain ⟨number, hentry, htask⟩ : ∃ number, (note.places settings)[number]? = some entry ∧
      tasks[number]? = some task := by
    obtain ⟨number, hnumber⟩ := List.mem_iff_getElem?.1 hpair
    exact ⟨number, List.getElem?_zip_eq_some.1 hnumber⟩
  have hnumber : entry.2 = number := by
    rw [places, List.getElem?_zipIdx, Option.map_eq_some_iff] at hentry
    obtain ⟨pair, -, rfl⟩ := hentry
    exact Nat.zero_add number
  refine ⟨⟨?_, hplace.depth_eq, ?_⟩, ?_, ?_⟩
  · rw [indent_of_mem_places (List.mem_of_getElem? hentry), hplace.indent_eq]
  · rw [hplace.parent_eq]
    simp
  · rw [hnumber, List.getElem?_map, htask, Option.map_some]
  · rw [hplace.children_eq]
    simp

theorem children_of_mem_tasks (h : note.tasks settings today = .ok tasks) {task : Task}
    (htask : task ∈ tasks) :
    task.children = (tasks.filter fun other => other.parent == some task.id).map Task.id := by
  have hlinked := forall₂_isLinked h
  obtain ⟨entry, hentry, hlinks⟩ := Result.exists_left_of_mem hlinked htask
  have hnumber : entry.2 <
      (note.outline settings).size := by simpa [Outline.size] using (List.mem_zipIdx hentry).2.1
  rw [hlinks.children_eq, Outline.getElem?_childLists _ hnumber, Option.getD_some, Outline.children,
    List.filterMap_filterMap,
    ← filterMap_children (labelled_tasks h).nodup_ids hlinks.id_eq hlinked]
  refine List.filterMap_congr fun other _ => ?_
  by_cases hchild : other.1.parent? = some entry.2 <;> simp [hchild]

/-- The tasks of a note form a hierarchy, and every task has as many tasks above it as its
depth says. -/
theorem isHierarchy_tasks (h : note.tasks settings today = .ok tasks) :
    IsHierarchy tasks ∧ ∀ task ∈ tasks, ∀ steps : Nat,
      (∃ root, climb? tasks steps task = some root ∧ root.parent = none) ↔
        (steps : Int) = task.depth := by
  have hnodes : List.Forall₂ (Follows (tasks.map Task.id)) (note.outline settings).nodes tasks := by
    rw [← List.zipIdx_map_fst 0 (note.outline settings).nodes, List.forall₂_map_left_iff]
    exact (forall₂_isLinked h).imp fun _ _ hlinks => hlinks.follows
  have hlinks : ∀ above task below, tasks = above ++ task :: below → _ :=
    fun _ _ _ hsplit => links_of_forall₂ hnodes (Outline.hangs_ofIndents _) hsplit
  have hroot : ∀ above task below, tasks = above ++ task :: below →
      (task.parent = none ↔ ∀ other ∈ above, task.indent ≤ other.indent) := by
    intro above task below hsplit
    rw [(hlinks above task below hsplit).1, Option.map_eq_none_iff, nearestTask?, List.find?_eq_none]
    simp
  have hhierarchy : IsHierarchy tasks := {
    nodup_ids := (labelled_tasks h).nodup_ids
    parent_eq := fun above task below hsplit => (hlinks above task below hsplit).1
    parent_eq_none_iff := hroot
    depth_eq := fun above task below hsplit => (hlinks above task below hsplit).2
    children_eq := fun _ htask => children_of_mem_tasks h htask }
  exact ⟨hhierarchy, fun _ htask => hhierarchy.climb?_iff htask⟩

/-- The second task is indented more than the third, which is no child of it. -/
theorem isHierarchy_tasks_outdented : ∃ tasks, Note.tasks {} ⟨2024, 3, 13, rfl⟩
      { path := "a.md".toList,
        content := "- [ ] a\n    - [ ] b\n  - [ ] c\n   - [ ] d".toList } = .ok tasks ∧
    tasks.map Task.depth = [0, 1, 1, 2] ∧ IsHierarchy tasks := by
  have hdepths :
      ((Note.tasks {} ⟨2024, 3, 13, rfl⟩
        { path := "a.md".toList,
          content := "- [ ] a\n    - [ ] b\n  - [ ] c\n   - [ ] d".toList }).map
      (·.map Task.depth)).toOption = some [0, 1, 1, 2] := by decide +kernel
  cases htasks : Note.tasks {} ⟨2024, 3, 13, rfl⟩
      { path := "a.md".toList,
        content := "- [ ] a\n    - [ ] b\n  - [ ] c\n   - [ ] d".toList } with
  | error cause =>
    rw [htasks] at hdepths
    cases hdepths
  | ok tasks =>
    rw [htasks] at hdepths
    exact ⟨tasks, rfl, Option.some.inj hdepths, (isHierarchy_tasks htasks).1⟩

end Note
end Checklist
