import Checklist.Proofs.Line
import Checklist.Proofs.Note.Identity
import Checklist.Proofs.Note.Lines
import Checklist.Proofs.Note.Tasks
import Checklist.Proofs.Task.OfLine

/-! # Tasks by their own lines

Under the standard settings nothing but its own line makes a task what it is. Main statements: a
task that is read from a text is what one line of the text says (`exists_isReadFrom`), and a text of
one task line is read as the task that it says (`exists_task?`). -/

namespace Checklist
set_option autoImplicit false
open Text

/-- The task is what a line says that has the given parts, and whose content says what the
extraction says. -/
structure Task.IsReadFrom (today : Date) (parts : TaskLine) (extraction : Markup.Extraction)
    (task : Task) : Prop where
  line : Line.task? task.lineText = some parts
  ends : '\n' ∉ task.lineText
  extract : Markup.extract .standard today parts.content = .ok extraction
  metadata : Note.lineMetadata today none extraction = .ok task.metadata
  content : task.content = extraction.content
  status : task.status = [parts.status]
  marker : task.marker = parts.marker
  indent : task.indent = Line.width 4 parts.indent

theorem Task.IsReadFrom.isOfLine {today : Date} {parts : TaskLine} {extraction : Markup.Extraction}
    {task : Task} (h : task.IsReadFrom today parts extraction) : task.metadata.IsOfLine :=
  Note.isOfLine_of_lineMetadata ⟨rfl, rfl⟩ h.extract
    (Line.notMem_content (Line.isWellFormed_of_task? h.line h.ends).1) h.metadata

namespace Note

variable {today : Date} {path : Text} {number : Int}

/-! ## Lines of a note -/

theorem task?_of_mem_find {settings : Settings} {reading : Reading} {numbered : List (Text × Nat)}
    {found : Found} (h : found ∈ find settings reading numbered) :
    Line.task? found.line = some found.parts ∧
      found.indent = Line.width settings.tabSize found.parts.indent := by
  induction numbered generalizing reading with
  | nil => simp [find] at h
  | cons entry rest ih =>
    obtain ⟨line, number⟩ := entry
    unfold find at h
    split at h
    · exact ih h
    · cases h
    · dsimp only at h
      split at h
      · exact ih h
      · split at h
        · exact ih h
        · split at h
          · exact ih h
          · exact ih h
          · rename_i parts _ hparts
            rcases List.mem_cons.1 h with rfl | h
            · exact ⟨hparts, rfl⟩
            · exact ih h

theorem heading_of_mem_find {settings : Settings} (hheadings : settings.readsHeadings = false)
    {reading : Reading} (hreading : reading.heading = none)
    {numbered : List (Text × Nat)} {found : Found} (h : found ∈ find settings reading numbered) :
    found.heading = none := by
  induction numbered generalizing reading with
  | nil => simp [find] at h
  | cons entry rest ih =>
    obtain ⟨line, number⟩ := entry
    unfold find at h
    split at h
    · exact ih (by exact hreading) h
    · cases h
    · dsimp only at h
      split at h
      · exact ih (by exact hreading) h
      · split at h
        · exact ih (by exact hreading) h
        · split at h
          · rename_i hheading
            simp [hheadings] at hheading
          · exact ih (by exact hreading) h
          · rcases List.mem_cons.1 h with rfl | h
            · exact hreading
            · exact ih (by exact hreading) h

theorem line_mem_lines {settings : Settings} {note : Note} {found : Found}
    (h : found ∈ note.found settings) : found.line ∈ lines note.content := by
  have hnumbered := (sublist_find settings _ _).mem (List.mem_map.2 ⟨found, h, rfl⟩)
  exact List.fst_mem_of_mem_zipIdx (List.mem_of_mem_drop hnumbered)

theorem endLine?_of_notMem {s : Text} (h : '\n' ∉ s) : Header.endLine? s = none := by
  have hlines : Header.noteLines s = [Header.withoutMark s] :=
    splitAt_of_notMem fun hmem => h ((List.dropWhile_sublist _).mem hmem)
  unfold Header.endLine?
  rw [hlines]
  simp

theorem found_of_notMem {settings : Settings} (hlimit : settings.lineLimit ≠ 0) {line : Text}
    {parts : TaskLine} (hends : '\n' ∉ line)
    (hparts : Line.task? line = some parts) (hfence : Line.isFence line = false) :
    Note.found settings { path := path, content := line, header := some [] } =
      [⟨0, line, parts, Line.width settings.tabSize parts.indent, none, none⟩] := by
  have hfirst : Note.firstLine { path := path, content := line, header := some [] } = 0 := by
    rw [firstLine, endLine?_of_notMem hends]
  have htask : Line.isTask line = true := by
    rw [Line.isTask_eq_isSome, hparts]
    rfl
  have hheading : (if settings.readsHeadings then Line.heading? line else none) = none := by
    rw [Line.heading?_of_isTask htask, ite_self]
  have hcomment : commentLines settings (Line.width settings.tabSize parts.indent) [] = [] :=
    List.prefix_nil.1 (isPrefix_commentLines settings _ [])
  obtain ⟨limit, hlimit⟩ := Nat.exists_eq_succ_of_ne_zero hlimit
  rw [Note.found, hfirst, taskLines, lines_of_notMem hends, hlimit]
  simp [find, hfence, hparts, hheading, hcomment, commentText]

/-! ## Nothing is added to a task -/

theorem resolveProject_standard {written : Option Text}
    (h : ∀ name, written = some name → IsName name) (isSubtask : Bool) :
    ∃ how, resolveProject Settings.standard.projects ⟨path, [], none⟩ written isSubtask none =
      ⟨written, none, how⟩ := by
  cases written with
  | none => exact ⟨.nothing, by cases isSubtask <;> rfl⟩
  | some name =>
    obtain ⟨htrimmed, -⟩ := h name rfl
    have hempty : name.isEmpty = false := by simpa using htrimmed.ne_nil
    have hfilter : (some name).filter (fun name : Text => !name.isEmpty) =
        some name := by simp [Option.filter, hempty]
    refine ⟨.written, ?_⟩
    rw [resolveProject, Option.map_some, htrimmed.trim_eq, hfilter]

/-- What surrounds the tasks of a note without a header under the standard settings. -/
structure Surroundings.IsStandard (around : Surroundings) : Prop where
  settings : around.settings = .standard
  context : ∃ path, around.context = ⟨path, [], none⟩
  source : around.source = []
  pathDate : around.pathDate = none

theorem complete_standard {around : Surroundings} (haround : around.IsStandard)
    (node : Outline.Node) (number : Nat) {task : Task} (h : task.metadata.IsOfLine) : ∃ project,
      complete around node number none task = .ok ({ task with
      depth := node.depth
      parent := node.parent?.bind fun parent => around.ids[parent]?
      children := ((around.children[number]?).getD
      []).filterMap fun child => around.ids[child]? }, project) := by
  obtain ⟨path, hcontext⟩ := haround.context
  obtain ⟨how, hproject⟩ :=
    @resolveProject_standard path task.metadata.project h.project node.parent?.isSome
  have hnamed : (⟨task.metadata.project, none, how⟩ : ResolvedProject).named
      Settings.standard.projects ⟨path, [], none⟩ =
      .ok ⟨task.metadata.project, none, how⟩ := rfl
  have hmetadata : { task.metadata with project := task.metadata.project, inferred := none } =
      task.metadata := by
    rw [← h.inferred]
  have hinherit : Inheritance.apply Settings.standard.projects around.today [] node.parent?.isSome
      { task.metadata with project := task.metadata.project, inferred := none } =
          .ok task.metadata := by
    rw [hmetadata]
    unfold Inheritance.apply
    split <;> rfl
  have hdate : dateFromPath .standard none task.metadata = task.metadata := by
    show { task.metadata
      with dates := task.metadata.dates.set (task.metadata.dates.due.or none) .due } = task.metadata
    rw [Option.or_none]
    rfl
  refine ⟨⟨task.metadata.project, none, how⟩, ?_⟩
  unfold complete
  simp only [haround.settings, hcontext, haround.source, haround.pathDate, hproject]
  refine Result.bind_eq_ok.2 ⟨_, hnamed, Result.bind_eq_ok.2 ⟨_, hinherit, ?_⟩⟩
  rw [hdate]
  rfl

theorem isStandard_surroundings (tasks : List Task) (s : Text) :
    (surroundings .standard today { path := path, content := s, header := some [] }
      [] tasks).IsStandard :=
  ⟨rfl, ⟨path, rfl⟩, rfl, rfl⟩

/-! ## Tasks are read from lines -/

theorem isReadFrom_taskOf {found : Found} {task : Task} (hends : '\n' ∉ found.line)
    (hparts : Line.task? found.line = some found.parts)
    (hindent : found.indent = Line.width 4 found.parts.indent) (hheading : found.heading = none)
    (h : taskOf .standard today path found = .ok task) :
    task.lineText = found.line ∧ ∃ extraction, task.IsReadFrom today found.parts extraction := by
  obtain ⟨extraction, metadata, hextract, hmetadata, rfl⟩ := taskOf_eq_ok_iff.1 h
  rw [hheading] at hmetadata
  exact ⟨rfl, extraction, hparts, hends, hextract, hmetadata, rfl, rfl, rfl, hindent⟩

theorem isReadFrom_complete {around : Surroundings} (haround : around.IsStandard)
    (node : Outline.Node) (number : Nat) {task : Task} {parts : TaskLine}
    {extraction : Markup.Extraction} (h : task.IsReadFrom today parts extraction) : ∃ result,
      complete around node number none task = .ok result ∧
      result.1.lineText = task.lineText ∧ result.1.IsReadFrom today parts extraction := by
  obtain ⟨project, hcomplete⟩ := complete_standard haround node number h.isOfLine
  exact ⟨_, hcomplete, rfl, h.line, h.ends, h.extract, h.metadata, h.content,
    h.status, h.marker, h.indent⟩

theorem completeAll_cons (around : Surroundings) (task : Task) (node : Outline.Node)
    (rest : List (Task × Outline.Node)) :
    completeAll around #[] ((task, node) :: rest) = do
      let (first, project) ← complete around node 0 none task
      return first :: (← completeAll around #[project] rest) := by
  have hparent : (node.parent?.bind fun parent => (#[] : Array ResolvedProject)[parent]?) = none := by
    cases node.parent? <;> simp
  rw [completeAll, hparent]
  rfl

/-- A task that is read from a text is what one of its lines says. -/
theorem exists_isReadFrom {s : Text}
    {task : Task} (h : task? .standard today path number s = .ok (some task)) :
    task.lineText ∈ lines s ∧ ∃ parts extraction, task.IsReadFrom today parts extraction := by
  obtain ⟨done, hdone, h⟩ := Result.bind_eq_ok.1 h
  obtain ⟨header, hheader, hdone⟩ := Result.bind_eq_ok.1 hdone
  cases hheader
  obtain ⟨tasks, htasks, hdone⟩ := Result.bind_eq_ok.1 hdone
  replace htasks := Result.mapM_eq_ok.1 (Result.mapError_eq_ok.1 htasks)
  replace hdone := Result.mapError_eq_ok.1 hdone
  have haround := @isStandard_surroundings today path tasks s
  cases hpairs :
      tasks.zip (outline .standard { path := path, content := s, header := some [] }).nodes with
  | nil =>
    rw [hpairs] at hdone
    cases hdone
    cases h
  | cons pair rest =>
    obtain ⟨first, node⟩ := pair
    have hmem : first ∈ tasks := (List.of_mem_zip (hpairs ▸ List.mem_cons_self)).1
    obtain ⟨found, hfound, htaskOf⟩ := Result.exists_left_of_mem htasks hmem
    obtain ⟨hparts, hindent⟩ := task?_of_mem_find hfound
    have hheading := heading_of_mem_find rfl rfl hfound
    have hline : found.line ∈ lines s := line_mem_lines hfound
    obtain ⟨hsame, extraction, hread⟩ :=
      isReadFrom_taskOf (notMem_of_mem_lines hline) hparts hindent hheading htaskOf
    obtain ⟨result, hcomplete, hresult, hreadResult⟩ := isReadFrom_complete haround node 0 hread
    rw [hpairs, completeAll_cons, hcomplete] at hdone
    obtain ⟨_, hfirst, hdone⟩ := Result.bind_eq_ok.1 hdone
    cases hfirst
    obtain ⟨others, -, hdone⟩ := Result.bind_eq_ok.1 hdone
    cases hdone
    cases h
    refine ⟨?_, found.parts, extraction, hreadResult.line, hreadResult.ends, hreadResult.extract,
      hreadResult.metadata, hreadResult.content,
      hreadResult.status, hreadResult.marker, hreadResult.indent⟩
    show result.1.lineText ∈ lines s
    rwa [hresult, hsame]

theorem exists_isReadFrom_of_found {s : Text} {found : Found} {extraction : Markup.Extraction}
    {metadata : Metadata}
    (hfound : Note.found .standard { path := path, content := s, header := some [] } = [found])
    (hends : '\n' ∉ found.line) (hheading : found.heading = none)
      (hextract : Markup.extract .standard today found.parts.content = .ok extraction)
    (hmetadata : lineMetadata today none extraction = .ok metadata) :
    ∃ task, task? .standard today path number s = .ok (some task) ∧
        task.IsReadFrom today found.parts extraction := by
  obtain ⟨hparts, hindent⟩ :=
    task?_of_mem_find (hfound.symm ▸ List.mem_singleton_self found : found ∈ Note.found .standard _)
  obtain ⟨task, htask⟩ : ∃ task, taskOf .standard today path found = .ok task :=
    ⟨_, Result.bind_eq_ok.2 ⟨_, hextract, Result.bind_eq_ok.2 ⟨_, by rwa [hheading], rfl⟩⟩⟩
  obtain ⟨-, read, hread⟩ := isReadFrom_taskOf hends hparts hindent hheading htask
  obtain rfl := Except.ok.inj (hextract.symm.trans hread.extract)
  have htasks : lineTasks .standard today { path := path, content := s, header := some [] } =
      .ok [task] := by
    rw [lineTasks, hfound, Result.mapM_eq_ok]
    exact .cons htask .nil
  obtain ⟨node, hnodes⟩ : ∃ node,
      (outline .standard { path := path, content := s, header := some [] }).nodes = [node] := by
    rw [outline, hfound]
    exact ⟨_, rfl⟩
  obtain ⟨result, hcomplete, -, hreadResult⟩ :=
    isReadFrom_complete (@isStandard_surroundings today path [task] s) node 0 hread
  have hdone : tasks .standard today { path := path, content := s, header := some [] } =
      .ok [result.1] := by
    refine Result.bind_eq_ok.2 ⟨[], rfl,
      Result.bind_eq_ok.2 ⟨[task], Result.mapError_eq_ok.2 htasks, Result.mapError_eq_ok.2 ?_⟩⟩
    rw [hnodes, List.zip_cons_cons, completeAll_cons, hcomplete]
    rfl
  exact ⟨_, Result.bind_eq_ok.2 ⟨_, hdone, rfl⟩, hreadResult.line, hreadResult.ends,
    hreadResult.extract, hreadResult.metadata,
    hreadResult.content, hreadResult.status, hreadResult.marker, hreadResult.indent⟩

/-- A task line by itself is read as the task that it says. -/
theorem exists_task? {line : Text} {parts : TaskLine} {extraction : Markup.Extraction}
    {metadata : Metadata} (hends : '\n' ∉ line)
    (hparts : Line.task? line = some parts) (hfence : Line.isFence line = false)
    (hextract : Markup.extract .standard today parts.content = .ok extraction)
    (hmetadata : lineMetadata today none extraction = .ok metadata) :
    ∃ task, task? .standard today path number line = .ok (some task) := by
  obtain ⟨task, htask, -⟩ := @exists_isReadFrom_of_found today path number _ _ _ _
    (found_of_notMem (by decide) hends hparts hfence) hends rfl hextract hmetadata
  exact ⟨task, htask⟩

end Note
end Checklist
