import Checklist.Proofs.Note.Hierarchy
import Checklist.Proofs.Note.Projects

/-! # Notes that grow at their end

What is written below a note leaves the tasks above as they are. Main statements: the task lines
found above are found again, where the comment of the last one may go on (`continues_find`), and the
tasks of the note come first and stay as they are but for children that are added and for that
comment (`isGrown_tasks`). -/

namespace Checklist
set_option autoImplicit false
open Text

namespace Note

/-! ## Comments -/

/-- The comment is the same, or it has a text that goes on, or it starts. -/
def Extends (comment longer : Option Text) : Prop :=
  ∀ text, comment = some text → ∃ more, longer = some (text ++ more)

theorem Extends.refl (comment : Option Text) : Extends comment comment :=
  fun text htext => ⟨[], by rw [htext, List.append_nil]⟩

theorem extends_commentText (comment more : List Text) :
    Extends (commentText comment) (commentText (comment ++ more)) := by
  intro text htext
  cases comment with
  | nil => simp [commentText] at htext
  | cons line comment =>
    obtain rfl : join ['\n'] ((line :: comment).map trim) =
      text := by simpa [commentText] using htext
    cases more with
    | nil => exact ⟨[], by simp [commentText]⟩
    | cons next more =>
      refine ⟨['\n'] ++ join ['\n'] ((next :: more).map trim), ?_⟩
      have hjoin :=
        join_append ['\n'] ((line :: comment).map trim)
          ((next :: more).map trim) (by simp) (by simp)
      rw [commentText, List.map_append, hjoin, List.append_assoc]
      rfl

/-- The comment ends above what is added, or all lines that stand above it are comment. -/
theorem commentLines_append (settings : Settings) (indent : Nat) (above below : List Text) :
    commentLines settings indent (above ++ below) = commentLines settings indent above ∨
      commentLines settings indent above = above ∧ ∃ more,
        commentLines settings indent (above ++ below) = above ++ more := by
  unfold commentLines
  by_cases hreads : settings.readsComments = true
  · rw [if_pos hreads, if_pos hreads]
    by_cases hall : ∀ line ∈ above, isComment settings indent line = true
    · exact .inr ⟨List.takeWhile_eq_self_iff.2 hall, _, List.takeWhile_append_of_pos hall⟩
    · have hstops : (above.takeWhile (isComment settings indent)).length ≠ above.length :=
        fun hlength =>
          hall (List.takeWhile_eq_self_iff.1 ((List.takeWhile_prefix _).eq_of_length hlength))
      exact .inl (by rw [List.takeWhile_append, if_neg hstops])
  · exact .inl (by rw [if_neg hreads, if_neg hreads])

/-! ## Task lines -/

/-- The longer list starts with the same lines, of which the last may have more of a comment. -/
def Continues (founds longer : List Found) : Prop :=
  ∀ number found, founds[number]? = some found → ∃ comment,
    longer[number]? = some { found with comment } ∧
    Extends found.comment comment ∧ (number + 1 < founds.length → comment = found.comment)

theorem continues_nil (longer : List Found) : Continues [] longer :=
  fun number found h => by cases h

theorem continues_last {found : Found} {comment : Option Text} (h : Extends found.comment comment)
    (later : List Found) :
    Continues [found] ({ found with comment } :: later) := by
  intro number other hother
  cases number with
  | zero =>
    cases hother
    exact ⟨comment, rfl, h, fun hlt => absurd hlt (Nat.lt_irrefl _)⟩
  | succ number => cases hother

theorem Continues.cons {founds longer : List Found} (h : Continues founds longer) (found : Found) :
    Continues (found :: founds) (found :: longer) := by
  intro number other hother
  cases number with
  | zero =>
    cases hother
    exact ⟨found.comment, rfl, .refl _, fun _ => rfl⟩
  | succ number =>
    obtain ⟨comment, hlonger, hextends, hlast⟩ := h number other hother
    exact ⟨comment, hlonger, hextends, fun hlt => hlast (Nat.lt_of_succ_lt_succ hlt)⟩

theorem find_of_skip (settings : Settings) {reading : Reading} {numbered : List (Text × Nat)}
    (h : numbered.length ≤ reading.skip) :
    find settings reading numbered = [] := by
  induction numbered generalizing reading with
  | nil => rfl
  | cons entry rest ih =>
    obtain ⟨heading, fenced, left, skip⟩ := reading
    cases skip with
    | zero => simp at h
    | succ skip =>
      rw [find]
      exact ih (Nat.le_of_succ_le_succ h)

/-- Heading, fence and limit are known where the lines above end, so what is added below changes
none of the lines found. -/
theorem continues_find (settings : Settings) (reading : Reading) (above below : List (Text × Nat)) :
    Continues (find settings reading above) (find settings reading (above ++ below)) := by
  induction above generalizing reading with
  | nil => exact continues_nil _
  | cons entry rest ih =>
    obtain ⟨line, number⟩ := entry
    obtain ⟨heading, fenced, left, skip⟩ := reading
    rw [List.cons_append]
    cases skip with
    | succ skip => exact ih ⟨heading, fenced, left, skip⟩
    | zero =>
      cases left with
      | zero => exact continues_nil _
      | succ left =>
        rw [find, find]
        dsimp only
        by_cases hfence : Line.isFence line = true
        · rw [if_pos hfence, if_pos hfence]
          exact ih _
        rw [if_neg hfence, if_neg hfence]
        cases fenced with
        | true => exact ih _
        | false =>
          rw [if_neg Bool.false_ne_true, if_neg Bool.false_ne_true]
          cases (if settings.readsHeadings then Line.heading? line else none) with
          | some heading => exact ih _
          | none =>
            cases Line.task? line with
            | none => exact ih _
            | some parts =>
              dsimp only
              rw [List.map_append]
              rcases commentLines_append settings (Line.width settings.tabSize parts.indent)
                  (rest.map (·.1)) (below.map (·.1)) with
                hsame | ⟨hall, more, hmore⟩
              · rw [hsame]
                exact (ih _).cons _
              · -- nothing but comment stands below the line, so it is the last one
                rw [hall, hmore, @find_of_skip settings _ rest (by simp)]
                exact @continues_last ⟨number, line, parts, _, heading, _⟩
                  _ (extends_commentText _ more) _

/-! ## Notes -/

def append (note : Note) (more : Text) : Note :=
  { note with content := note.content ++ '\n' :: more }

variable {settings : Settings} {today : Date} {note : Note} {more : Text}

theorem continues_found (hreturn : note.content.getLast? ≠ some '\r')
    (hend : Header.endLine? (note.append more).content = Header.endLine? note.content) :
    Continues (note.found settings) ((note.append more).found settings) := by
  have hfirst : (note.append more).firstLine = note.firstLine := by rw [firstLine, hend, firstLine]
  rw [found, found, hfirst, taskLines, taskLines, append, lines_append_cons hreturn,
    List.zipIdx_append, List.drop_append]
  exact continues_find _ _ _ _

theorem Continues.nodes_prefix {founds longer : List Found} (h : Continues founds longer) :
    (Outline.ofIndents (founds.map fun line => (line.indent : Int))).nodes <+:
      (Outline.ofIndents (longer.map fun line => (line.indent : Int))).nodes := by
  refine Outline.nodes_ofIndents_prefix (List.prefix_iff_getElem?.2 fun number hlt => ?_)
  rw [List.length_map] at hlt
  obtain ⟨comment, hlonger, -⟩ := h number founds[number] (List.getElem?_eq_getElem hlt)
  rw [List.getElem?_map, hlonger, List.getElem_map]
  rfl

/-! ## Tasks -/

theorem taskOf_comment (settings : Settings) (today : Date) (path : Text) (found : Found)
    (comment : Option Text) :
    taskOf settings today path { found with comment } = (taskOf settings today path found).map
      fun task => { task with comment } := by
  unfold taskOf
  dsimp only
  cases Markup.extract settings today found.parts.content with
  | error cause => rfl
  | ok extraction =>
    simp only [bind, Except.bind]
    cases lineMetadata today found.heading extraction <;> rfl

theorem comment_of_taskOf {path : Text} {found : Found} {task : Task}
    (h : taskOf settings today path found = .ok task) :
    task.comment = found.comment := by
  obtain ⟨extraction, metadata, -, -, rfl⟩ := taskOf_eq_ok_iff.1 h
  rfl

/-- The tasks are those of a note that the longer note starts with: they come first and are the same
in every field, but they may have more children after their own, and the last one may have a
comment, or more of it. -/
def IsGrown (tasks longer : List Task) : Prop :=
  ∀ number task, tasks[number]? = some task → ∃ children comment,
    longer[number]? = some { task with children := task.children ++ children, comment := comment } ∧
      Extends task.comment comment ∧ (number + 1 < tasks.length → comment = task.comment)

/-- The links of a task that other tasks are counted by. -/
def links (task : Task) : Text × Option Text :=
  (task.id, task.parent)

theorem links_prefix {tasks longer : List Task}
    (h : ∀ (number : Nat) (task : Task), tasks[number]? = some task → ∃ children comment,
      longer[number]? = some { task with children := children, comment := comment }) :
    tasks.map links <+: longer.map links := by
  refine List.prefix_iff_getElem?.2 fun number hlt => ?_
  rw [List.length_map] at hlt
  obtain ⟨children, comment, hlonger⟩ := h number tasks[number] (List.getElem?_eq_getElem hlt)
  rw [List.getElem?_map, hlonger, List.getElem_map]
  rfl

theorem children_prefix {tasks longer : List Task} (h : tasks.map links <+: longer.map links)
    (id : Text) :
    (tasks.filter fun other => other.parent == some id).map Task.id <+:
      (longer.filter fun other => other.parent == some id).map Task.id := by
  have hlinks : ∀ tasks : List Task,
      (tasks.filter fun other => other.parent == some id).map Task.id =
      ((tasks.map links).filter fun entry => entry.2 == some id).map Prod.fst := by
    intro tasks
    rw [List.filter_map, List.map_map]
    rfl
  rw [hlinks, hlinks]
  exact (h.filter _).map _

theorem getElem?_numbered {tasks : List Task} {nodes : List Outline.Node} {number : Nat}
    {task : Task} {node : Outline.Node}
    (htask : tasks[number]? = some task) (hnode : nodes[number]? = some node) :
    (tasks.zip nodes).zipIdx[number]? = some ((task, node), number) := by
  rw [List.getElem?_zipIdx, (List.getElem?_zip_eq_some (z := (task, node))).2 ⟨htask, hnode⟩,
    Option.map_some, Nat.zero_add]

theorem lineTasks_append
    (hfounds : Continues (note.found settings) ((note.append more).found settings))
    {longer : List Task} (h : (note.append more).lineTasks settings today = .ok longer) :
    ∃ firsts, note.lineTasks settings today = .ok firsts ∧ IsGrown firsts longer := by
  have hlonger := Result.mapM_eq_ok.1 h
  -- a task of the longer note is that of the same line with another comment
  have hline : ∀ number found, (note.found settings)[number]? = some found → ∃ first comment,
      taskOf settings today note.path found = .ok first ∧
      longer[number]? = some { first with comment } ∧ Extends found.comment comment ∧
          (number + 1 < (note.found settings).length → comment = found.comment) := by
    intro number found hfound
    obtain ⟨comment, hfound', hextends, hlast⟩ := hfounds number found hfound
    obtain ⟨task, htask, htaskOf⟩ := Result.exists_right_of_getElem? hlonger hfound'
    rw [taskOf_comment] at htaskOf
    obtain ⟨first, hfirst, rfl⟩ := Result.map_eq_ok.1 htaskOf
    exact ⟨first, comment, hfirst, htask, hextends, hlast⟩
  obtain ⟨firsts, hfirsts⟩ : ∃ firsts, note.lineTasks settings today = .ok firsts := by
    refine Result.mapM_isOk_iff.2 fun found hfound => ?_
    obtain ⟨number, hnumber⟩ := List.mem_iff_getElem?.1 hfound
    obtain ⟨first, -, hfirst, -⟩ := hline number found hnumber
    exact ⟨first, hfirst⟩
  refine ⟨firsts, hfirsts, fun number first hfirst => ?_⟩
  obtain ⟨found, hfound, htask⟩ :=
    Result.exists_left_of_getElem? (Result.mapM_eq_ok.1 hfirsts) hfirst
  obtain ⟨first', comment, htask', hfirst', hextends, hlast⟩ := hline number found hfound
  obtain rfl : first = first' := Except.ok.inj (htask.symm.trans htask')
  have hcomment : first.comment = found.comment := comment_of_taskOf htask
  rw [hcomment, (Result.mapM_eq_ok.1 hfirsts).length_eq.symm]
  exact ⟨[], comment, by rw [hfirst', List.append_nil], hextends, hlast⟩

/-- Of what surrounds a task, only its parent's id and the ids of its children depend on the
other tasks. -/
theorem completeAlone_of_longer {around : Surroundings} {ids : Array Text}
    {table : Array (List Nat)} {first longer : Task} {children : List Text}
    {comment : Option Text} {node : Outline.Node} {number : Nat}
    (hparent : (node.parent?.bind fun parent => ids[parent]?) = node.parent?.bind fun parent =>
      around.ids[parent]?)
    (h : completeAlone { around with ids := ids, children := table }
      (({ first with children := children, comment := comment }, node), number) = .ok longer) :
    ∃ task, completeAlone around ((first, node), number) = .ok task ∧ task.comment = first.comment ∧
        longer = { task with children := longer.children, comment := comment } := by
  rw [completeAlone_eq] at h
  obtain ⟨metadata, hmetadata, rfl⟩ := Result.map_eq_ok.1 h
  refine ⟨_, (completeAlone_eq ..).trans (Result.map_eq_ok.2 ⟨metadata, hmetadata, rfl⟩), rfl, ?_⟩
  rw [← hparent]

theorem completeAlone_append {header : Entries} {firsts firsts' longer : List Task}
    (hgrown : IsGrown firsts firsts')
    (hnodes : (note.outline settings).nodes <+: ((note.append more).outline settings).nodes)
    (hlonger : ((firsts'.zip ((note.append more).outline settings).nodes).zipIdx).mapM
      (completeAlone ((note.append more).surroundings settings today header firsts')) = .ok longer)
    {number : Nat} {first : Task} {node : Outline.Node} (hfirst : firsts[number]? = some first)
    (hnode : (note.outline settings).nodes[number]? = some node) :
    ∃ task children comment, completeAlone (note.surroundings settings today header firsts)
      ((first, node), number) = .ok task ∧
      longer[number]? = some { task with children := children, comment := comment } ∧
        Extends task.comment comment ∧
        (number + 1 < firsts.length → comment = task.comment) := by
  have hids : ∀ number, number < firsts.length → (firsts'.map Task.id).toArray[number]? =
      (firsts.map Task.id).toArray[number]? := by
    intro number hlt
    obtain ⟨children, comment, hfirst', -⟩ :=
      hgrown number firsts[number] (List.getElem?_eq_getElem hlt)
    rw [List.getElem?_toArray, List.getElem?_toArray, List.getElem?_map, List.getElem?_map, hfirst',
      List.getElem?_eq_getElem hlt]
    rfl
  -- a parent stands above, so its id is the same in both notes
  have hparent : (node.parent?.bind fun parent => (firsts'.map Task.id).toArray[parent]?) =
      node.parent?.bind fun parent => (firsts.map Task.id).toArray[parent]? := by
    refine Option.bind_congr fun parent hparent => hids parent ?_
    have habove : parent < number :=
      Outline.parent?_lt (by rw [Outline.parent?, ← outline, hnode]; exact hparent)
    exact habove.trans (List.getElem?_eq_some_iff.1 hfirst).1
  obtain ⟨children, comment, hfirst', hextends, hlast⟩ := hgrown number first hfirst
  have hnode' : ((note.append more).outline settings).nodes[number]? = some node := by
    obtain ⟨later, hlater⟩ := hnodes
    rw [← hlater, List.getElem?_append_left (List.getElem?_eq_some_iff.1 hnode).1, hnode]
  obtain ⟨task', htask', hdone'⟩ :=
    Result.exists_right_of_getElem? (Result.mapM_eq_ok.1 hlonger) (getElem?_numbered hfirst' hnode')
  obtain ⟨task, htask, hcomment, hsame⟩ :=
    @completeAlone_of_longer (note.surroundings settings today header firsts) _ _ _ _ _ _ _ _
      hparent hdone'
  rw [← hcomment] at hextends hlast
  exact ⟨task, task'.children, comment, htask, by rw [htask', ← hsame], hextends, hlast⟩

theorem exists_tasks_append {header : Entries} (hheader : note.header = some header)
    (hreturn : note.content.getLast? ≠ some '\r')
    (hend : Header.endLine? (note.append more).content = Header.endLine? note.content)
    {longer : List Task} (h : (note.append more).tasks settings today = .ok longer) :
    ∃ tasks, note.tasks settings today = .ok tasks ∧
      ∀ number task, tasks[number]? = some task → ∃ children comment,
        longer[number]? = some { task with children := children, comment := comment } ∧
        Extends task.comment comment ∧ (number + 1 < tasks.length → comment = task.comment) := by
  have hfounds := @continues_found settings _ _ hreturn hend
  obtain ⟨header', firsts', hheader', hfirsts', hlonger⟩ := tasks_eq_ok_iff.1 h
  obtain rfl : header = header' := by simpa [headerOf, append, hheader] using hheader'
  obtain ⟨firsts, hfirsts, hgrown⟩ := lineTasks_append hfounds hfirsts'
  have hcomplete := fun number first node =>
    @completeAlone_append _ today _ _ header _ _ _ hgrown
      hfounds.nodes_prefix hlonger number first node
  -- every task of the note can be completed, as it is in the longer one
  obtain ⟨tasks, htasks⟩ : ∃ tasks, ((firsts.zip (note.outline settings).nodes).zipIdx).mapM
      (completeAlone (note.surroundings settings today header firsts)) = .ok tasks := by
    refine Result.mapM_isOk_iff.2 fun entry hentry => ?_
    obtain ⟨hfirst, hnode⟩ := List.getElem?_zip_eq_some.1 (List.mem_zipIdx_iff_getElem?.1 hentry)
    obtain ⟨task, -, -, htask, -⟩ := hcomplete _ _ _ hfirst hnode
    exact ⟨task, htask⟩
  have hlength : firsts.length = tasks.length := by
    rw [← (Result.mapM_eq_ok.1 htasks).length_eq, List.length_zipIdx, List.length_zip,
      length_nodes_outline, (Result.mapM_eq_ok.1 hfirsts).length_eq, Nat.min_self]
  refine ⟨tasks, tasks_eq_ok_iff.2 ⟨header, firsts, by rw [headerOf, hheader], hfirsts, htasks⟩,
    fun number task htask => ?_⟩
  obtain ⟨entry, hentry, hdone⟩ := Result.exists_left_of_getElem? (Result.mapM_eq_ok.1 htasks) htask
  obtain ⟨hfirst, hnode, hnumber⟩ : firsts[number]? = some entry.1.1 ∧
      (note.outline settings).nodes[number]? = some entry.1.2 ∧ entry.2 = number := by
    rw [List.getElem?_zipIdx, Option.map_eq_some_iff] at hentry
    obtain ⟨pair, hpair, rfl⟩ := hentry
    obtain ⟨hfirst, hnode⟩ := List.getElem?_zip_eq_some.1 hpair
    exact ⟨hfirst, hnode, Nat.zero_add number⟩
  obtain ⟨task', children, comment, hdone', hlonger', hextends, hlast⟩ :=
    hcomplete number _ _ hfirst hnode
  obtain rfl : task = task' := by
    rw [← hnumber] at hdone'
    exact Except.ok.inj (hdone.symm.trans hdone')
  exact ⟨children, comment, hlonger', hextends, fun hlt => hlast (hlength ▸ hlt)⟩

/-- Of the note with more lines below, the first tasks are those of the note. -/
theorem isGrown_tasks {header : Entries} (hheader : note.header = some header)
    (hreturn : note.content.getLast? ≠ some '\r')
    (hend : Header.endLine? (note.append more).content = Header.endLine? note.content)
    {longer : List Task} (h : (note.append more).tasks settings today = .ok longer) :
    ∃ tasks, note.tasks settings today = .ok tasks ∧ IsGrown tasks longer := by
  obtain ⟨tasks, hnote, hlonger⟩ := exists_tasks_append hheader hreturn hend h
  have hlinks : tasks.map links <+: longer.map links := links_prefix fun number task htask =>
    let ⟨children, comment, hsame, _⟩ := hlonger number task htask
    ⟨children, comment, hsame⟩
  refine ⟨tasks, hnote, fun number task htask => ?_⟩
  obtain ⟨children, comment, hsame, hextends, hlast⟩ := hlonger number task htask
  -- the children of a task are those that name it, so they stand in the order of the tasks
  have hchildren : task.children <+: children := by
    have hlist' : children = _ := children_of_mem_tasks h (List.mem_of_getElem? hsame)
    rw [children_of_mem_tasks hnote (List.mem_of_getElem? htask), hlist']
    exact children_prefix hlinks _
  obtain ⟨later, rfl⟩ := hchildren
  exact ⟨later, comment, hsame, hextends, hlast⟩

/-- The first task gets a further child, and the comment of the second one goes on. -/
theorem isGrown_tasks_commented :
    let settings : Settings := { readsComments := true }
    let note : Note :=
        { path := "n.md".toList, content := "- [ ] a\n  - [ ] b\n    one".toList,
          header := some [] }
    ∃ tasks longer, note.tasks settings ⟨2024, 3, 13, rfl⟩ = .ok tasks ∧
      (note.append "    two\n  - [ ] c".toList).tasks settings ⟨2024, 3, 13, rfl⟩ = .ok longer ∧
      longer.map (fun task => (task.content, task.children.length, task.comment)) =
        [("a".toList, 2, none), ("b".toList, 0, some "one\ntwo".toList), ("c".toList, 0, none)] ∧
            IsGrown tasks longer := by
  intro settings note
  have hlonger : (((note.append "    two\n  - [ ] c".toList).tasks settings ⟨2024, 3, 13, rfl⟩).map
      (·.map fun task => (task.content, task.children.length, task.comment))).toOption =
      some [("a".toList, 2, none), ("b".toList, 0, some "one\ntwo".toList),
        ("c".toList, 0, none)] := by decide +kernel
  obtain ⟨longer, hlonger, hshape⟩ := Result.exists_of_map hlonger
  obtain ⟨tasks, htasks, hgrown⟩ :=
    @isGrown_tasks _ _ _ _ [] rfl (by decide) (by decide +kernel) _ hlonger
  exact ⟨tasks, longer, htasks, hlonger, hshape, hgrown⟩

end Note
end Checklist
