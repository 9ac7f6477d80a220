import Checklist.Proofs.Note.Locality
import Checklist.Proofs.Task.Authored
import Checklist.Proofs.Task.Rendered
import Checklist.Proofs.Task.RoundTrip

/-! # Lines keep to what their authors wrote

A task of a note has values from its line, from the header and the project file, and from the path
of the note. Only the date from the path is taken for a value of the line
(`authoredMetadata_completed`). Main statements: a task that the path gives no date is written as
its line by itself is, and nothing is read in the written line that was not there before
(`render_of_line`); a date from the path is written (`path_date_is_written`). -/

namespace Checklist
set_option autoImplicit false
open Text

variable {settings : Settings} {today : Date} {note : Note} {task : Task}

/-! ## What is authored on a completed task -/

theorem Metadata.IsOfLine.hasPlainKeys {metadata : Metadata} (h : metadata.IsOfLine) :
    metadata.HasPlainKeys := by
  obtain ⟨entries, hentries, -, hcustom⟩ := h.custom
  have hname : ∀ field ∈ Field.all, Markup.inlineSlot .standard field.name =
      .field field := by decide +kernel
  constructor <;> rw [hentries] <;> intro entry hentry <;> obtain ⟨said, hsaid, rfl⟩ :=
    List.mem_map.1 hentry
  case name =>
    intro field
    refine Bool.eq_false_iff.2 fun hsame => ?_
    have hword : field.name = said.1 := Value.str.inj (Value.eq_str_of_sameKey hsame)
    have hslot := (hcustom said hsaid).slot
    rw [← hword, hname field (List.mem_of_find?_eq_some (Field.ofName?_name field))] at hslot
    cases hslot
  case found => exact .inl (Value.sameKey_str_self _)

theorem Metadata.IsOfLine.project_eq {metadata : Metadata} (h : metadata.IsOfLine) :
    (metadata.project.map trim).filter (!·.isEmpty) = metadata.project := by
  cases hproject : metadata.project with
  | none => rfl
  | some name =>
    obtain ⟨htrimmed, -⟩ := h.project name hproject
    rw [Option.map_some, htrimmed.trim_eq]
    exact Option.filter_eq_some_iff.2 ⟨rfl, by simpa using htrimmed.ne_nil⟩

namespace Note

theorem lineLimit_ne_zero {found : Found} (h : found ∈ note.found settings) :
    settings.lineLimit ≠ 0 := by
  intro hzero
  rw [Note.found, taskLines, hzero] at h
  cases hlines : (lines note.content).zipIdx.drop note.firstLine with
  | nil => simp [hlines, find] at h
  | cons entry rest => simp [hlines, find] at h

theorem authoredMetadata_dateFromPath (timestamp : Option Int) (metadata : Metadata) :
    (dateFromPath settings timestamp metadata).authoredMetadata =
    if metadata.inherits (.str (Field.date settings.pathDate).name) then metadata.authoredMetadata
    else dateFromPath settings timestamp metadata.authoredMetadata := by
  have hother : ∀ field, field ≠ .date settings.pathDate →
      metadata.authoredMetadata.Agrees
        (dateFromPath settings timestamp metadata).authoredMetadata field := by
    intro field hne
    refine Metadata.agrees_authoredMetadata rfl ?_
    cases field with
    | date kind => exact Dates.get_set_of_ne _ _ fun heq => hne (congrArg Field.date heq)
    | _ => rfl
  have hdate :
      (dateFromPath settings timestamp metadata).authoredMetadata.dates.get settings.pathDate =
      if metadata.inherits (.str (Field.date settings.pathDate).name) then
          none else (metadata.dates.get settings.pathDate).or timestamp := by
    rw [Metadata.get_authoredMetadata, dateFromPath, Dates.get_set]
    rfl
  split
  · rename_i hinherits
    refine Metadata.eq_of_agrees (fun field => ?_) rfl
    by_cases hfield : field = .date settings.pathDate
    · subst hfield
      show Dates.get _ _ = Dates.get _ _
      rw [hdate, Metadata.get_authoredMetadata, Metadata.authored, if_pos hinherits, if_pos hinherits]
    · exact hother field hfield
  · rename_i hinherits
    refine Metadata.eq_of_agrees (fun field => ?_) rfl
    by_cases hfield : field = .date settings.pathDate
    · subst hfield
      show Dates.get _ _ = Dates.get _ _
      rw [hdate, dateFromPath, Dates.get_set, Metadata.get_authoredMetadata, Metadata.authored,
        if_neg hinherits, if_neg hinherits]
    · refine Metadata.Agrees.trans ?_ (hother field hfield)
      cases field with
      | date kind =>
        exact (Dates.get_set_of_ne _ _ fun heq => hfield (congrArg Field.date heq)).symm
      | _ => rfl

/-- Besides what its line says only the date from the path of the note is authored on a completed
task, and that where no date was inherited. -/
theorem authoredMetadata_completed {around : Surroundings} {isSubtask : Bool}
    {said result : Metadata} (hsaid : said.IsOfLine) {heading : Option Heading}
    (h : completedMetadata around isSubtask { said with heading } = .ok result) :
    result.authoredMetadata =
      if result.inherits (.str (Field.date around.settings.pathDate).name) then said
        else dateFromPath around.settings around.pathDate said := by
  obtain ⟨inherited, hinherited, rfl⟩ := completedMetadata_eq_ok h
  rw [(resolveProject_alone around.settings.projects around.context _ isSubtask).1] at hinherited
  have hkeys := hsaid.hasPlainKeys
  have hauthored := Inheritance.authoredMetadata_apply hinherited ⟨hkeys.name, hkeys.found⟩
  have hline : inherited.authoredMetadata = said := by
    rw [hauthored, hsaid.project_eq]
    exact Metadata.authoredMetadata_eq_self hsaid.inherited hsaid.heading hsaid.inferred
  rw [authoredMetadata_dateFromPath, hline]
  rfl

end Note

/-! ## Lines of tasks -/

/-- What the line of a task says under settings: its parts, the extraction of its content, and the
metadata that this gives. -/
structure Task.HasLine (settings : Settings) (today : Date) (task : Task) (parts : TaskLine)
    (extraction : Markup.Extraction) (said : Metadata) : Prop where
  line : Line.task? task.lineText = some parts
  ends : '\n' ∉ task.lineText
  extract : Markup.extract settings today parts.content = .ok extraction
  metadata : Note.lineMetadata today none extraction = .ok said
  content : task.content = extraction.content
  status : task.status = [parts.status]
  marker : task.marker = parts.marker

variable {parts : TaskLine} {extraction : Markup.Extraction} {said : Metadata}

theorem Task.HasLine.isOfLine (h : task.HasLine settings today parts extraction said)
    (hmarks : Markup.KeepsMarks settings) : said.IsOfLine :=
  Note.isOfLine_of_lineMetadata hmarks h.extract
    (Line.notMem_content (Line.isWellFormed_of_task? h.line h.ends).1) h.metadata

namespace Note

theorem exists_hasLine {tasks : List Task} (h : note.tasks settings today = .ok tasks)
    (htask : task ∈ tasks) :
    ∃ parts extraction said, task.HasLine settings today parts extraction said ∧
      task.lineText ∈ lines note.content ∧ settings.lineLimit ≠ 0 ∧
      ∃ around isSubtask heading, around.settings = settings ∧
        around.pathDate = pathDate? settings note.path ∧
        completedMetadata around isSubtask { said with heading } = .ok task.metadata := by
  obtain ⟨header, firsts, hheader, hfirsts, hall⟩ := forall₂_completeAlone_tasks h
  obtain ⟨⟨⟨found, node⟩, place⟩, hentry, first, hfirst, hdone, -⟩ :=
    Result.exists_left_of_mem hall htask
  have hfound : found ∈ note.found settings := by
    rw [← map_found_places]
    exact List.mem_map_of_mem hentry
  have hmem : found.line ∈ lines note.content := line_mem_lines hfound
  obtain ⟨extraction, metadata, hextract, hmetadata, rfl⟩ := taskOf_eq_ok_iff.1 hfirst
  rw [lineMetadata_heading] at hmetadata
  obtain ⟨said, hsaid, rfl⟩ := Result.map_eq_ok.1 hmetadata
  rw [completeAlone_eq] at hdone
  obtain ⟨metadata, hcompleted, rfl⟩ := Result.map_eq_ok.1 hdone
  exact ⟨found.parts, extraction, said,
    ⟨(task?_of_mem_find hfound).1, notMem_of_mem_lines hmem, hextract, hsaid, rfl, rfl, rfl⟩, hmem,
    lineLimit_ne_zero hfound, note.surroundings settings today header firsts, node.parent?.isSome,
    found.heading, rfl, rfl, hcompleted⟩

theorem dateFromPath_eq_self {timestamp : Option Int} {metadata : Metadata}
    (h : timestamp = none ∨ metadata.has (.date settings.pathDate) = true) :
    dateFromPath settings timestamp metadata = metadata := by
  have hsame : (metadata.dates.get settings.pathDate).or timestamp =
      metadata.dates.get settings.pathDate := by
    rcases h with rfl | hhas
    · exact Option.or_none
    · exact Option.or_of_isSome hhas
  rw [dateFromPath, hsame]
  cases settings.pathDate <;> rfl

/-- The line of a task by itself, without a path, is read as a task with the metadata
that it says. -/
theorem exists_alone (h : task.HasLine settings today parts extraction said)
    (hmarks : Markup.KeepsMarks settings) (hlimit : settings.lineLimit ≠ 0)
    (number : Int) : ∃ alone, task? settings today [] number task.lineText = .ok (some alone) ∧
      alone.HasLine settings today parts extraction said ∧
      alone.lineText = task.lineText ∧ ∃ inferred, alone.metadata = { said with inferred } := by
  let found : Found :=
    ⟨0, task.lineText, parts, Line.width settings.tabSize parts.indent, none, none⟩
  obtain ⟨first, hfirst, hsame⟩ : ∃ first, taskOf settings today [] found = .ok first ∧
      first.metadata = said ∧ first.lineText = task.lineText ∧
      first.content = extraction.content ∧ first.status = [parts.status] ∧
          first.marker = parts.marker :=
    ⟨_, Result.bind_eq_ok.2 ⟨_, h.extract, Result.bind_eq_ok.2 ⟨_, h.metadata, rfl⟩⟩,
      rfl, rfl, rfl, rfl, rfl⟩
  obtain ⟨hmetadata, hline, hcontent, hstatus, hmarker⟩ := hsame
  obtain ⟨inferred, halone⟩ := exists_task?_of_found hlimit h.ends h.line rfl hfirst number
  have hsaid := h.isOfLine hmarks
  refine ⟨_, halone, ⟨?_, ?_, h.extract, h.metadata, hcontent, hstatus, hmarker⟩, hline, inferred, ?_⟩
  · show Line.task? first.lineText = some parts
    rw [hline, h.line]
  · show '\n' ∉ first.lineText
    rw [hline]
    exact h.ends
  · show dateFromPath settings (pathDate? settings []) _ = _
    have hpath : pathDate? settings [] = none := by simp [pathDate?]
    rw [hpath, dateFromPath_eq_self (.inl rfl), hmetadata, hsaid.project_eq, ← hsaid.heading]

theorem exists_hasLine_of_task? {line : Text} {number : Int} (hmarks : Markup.KeepsMarks settings)
    (hends : '\n' ∉ line) (h : task? settings today [] number line = .ok (some task)) :
    ∃ parts extraction said, task.HasLine settings today parts extraction said ∧
      task.lineText = line ∧ ∃ inferred, task.metadata = { said with inferred } := by
  obtain ⟨tasks, htasks, hfirst⟩ := Result.bind_eq_ok.1 h
  cases tasks with
  | nil => cases hfirst
  | cons first rest =>
    obtain ⟨parts, extraction, said, hsaid, hmem, hlimit, -⟩ :=
      exists_hasLine htasks List.mem_cons_self
    rw [lines_of_notMem hends, List.mem_singleton] at hmem
    obtain ⟨alone, halone, haloneSaid, haloneLine, hmetadata⟩ :=
      exists_alone hsaid hmarks hlimit number
    rw [hmem, h] at halone
    cases halone
    exact ⟨parts, extraction, said, haloneSaid, haloneLine.trans hmem, hmetadata⟩

/-! ## What is written -/

theorem render_eq_of_authored {style : Task.Style}
    (h : task.HasLine settings today parts extraction said) (hmarks : Markup.KeepsMarks settings)
    (hauthored : task.metadata.authoredMetadata = said) :
    task.render style =
      .ok (Line.render
        { parts with content := Markup.line extraction.content (Task.items style said) }) := by
  obtain ⟨-, rest, hsplit⟩ := Line.isWellFormed_of_task? h.line h.ends
  have hlead : task.lead = parts.indent := by rw [Task.lead, hsplit]
  have hpieces : Task.pieces task.metadata style =
      .ok ((Task.items style said).map Markup.Item.text) := by
    rw [← Task.pieces_authoredMetadata, hauthored]
    exact Task.pieces_eq (h.isOfLine hmarks)
  unfold Task.render
  refine Result.bind_eq_ok.2 ⟨_, hpieces, ?_⟩
  rw [hlead, h.marker, h.status, h.content]
  simp [Line.render, Markup.line, pure, Except.pure]

theorem task?_render_items {style : Task.Style}
    (h : task.HasLine settings today parts extraction said) (hmarks : Markup.KeepsMarks settings) :
    let written : TaskLine :=
      { parts with content := Markup.line extraction.content (Task.items style said) }
    Line.task? (Line.render written) = some written ∧ '\n' ∉ Line.render written := by
  intro written
  obtain ⟨hcontent, hends⟩ := Markup.isTrimmed_content h.extract
  obtain ⟨hbody, hbodyEnds⟩ := @Task.isTrimmed_line _ (Task.items style said) hcontent hends
    (Task.isName_items (h.isOfLine hmarks))
  have hwellFormed := (Line.isWellFormed_of_task? h.line h.ends).1.withContent hbody hbodyEnds
  exact ⟨Line.task?_render hwellFormed, hwellFormed.line⟩

/-- The path of the note adds no date to the task: it gives none, or the task has inherited one, or
its line says one. -/
def IsUndatedByPath (settings : Settings) (today : Date) (note : Note) (task : Task) : Prop :=
  pathDate? settings note.path = none ∨
    task.metadata.inherits (.str (Field.date settings.pathDate).name) = true ∨
    ∃ alone, task? settings today [] 0 task.lineText = .ok (some alone) ∧
      alone.metadata.has (.date settings.pathDate) = true

/-- Where the path adds no date, nothing but what its line says is authored on a task of a note. -/
theorem exists_authored (hmarks : Markup.KeepsMarks settings) {tasks : List Task}
    (h : note.tasks settings today = .ok tasks) (htask : task ∈ tasks)
    (hpath : IsUndatedByPath settings today note task) :
    ∃ parts extraction, settings.lineLimit ≠ 0 ∧
      task.HasLine settings today parts extraction task.metadata.authoredMetadata := by
  obtain ⟨parts, extraction, said, hline, -, hlimit, around, isSubtask, heading, rfl, hdate,
    hcompleted⟩ := exists_hasLine h htask
  have hauthored : task.metadata.authoredMetadata = said := by
    rw [authoredMetadata_completed (hline.isOfLine hmarks) hcompleted]
    split
    · rfl
    · rename_i hinherits
      refine dateFromPath_eq_self ?_
      rw [hdate]
      refine hpath.imp_right fun hpath => ?_
      -- the line says the date, since the task has not inherited it
      obtain ⟨other, hother, hhas⟩ := hpath.resolve_left hinherits
      obtain ⟨alone, halone, -, -, _, hsame⟩ := exists_alone hline hmarks hlimit 0
      rw [halone] at hother
      cases hother
      rwa [hsame] at hhas
  exact ⟨parts, extraction, hlimit, hauthored ▸ hline⟩

theorem says_of_render_items {style : Task.Style} {number : Int} {inferred : Option InferredProject}
    {again : Task}
    (h : task.HasLine settings today parts extraction said) (hmarks : Markup.KeepsMarks settings)
    (hmetadata : task.metadata = { said with inferred })
    (hlegible : task.IsLegibleUnder settings today style)
    (hagain : task? settings today [] number
        (Line.render { parts with
          content := Markup.line extraction.content (Task.items style said) }) = .ok (some again)) :
      (∀ field, again.metadata.has field = true → task.metadata.has field = true) ∧
        ∀ key, again.metadata.custom.has key = true → task.metadata.custom.has key = true := by
  have hsaid := h.isOfLine hmarks
  obtain ⟨hparts, hends⟩ := @task?_render_items _ _ _ _ _ _ style h hmarks
  obtain ⟨againParts, againExtraction, againSaid, hagainLine, hagainText, againInferred,
    hagainMetadata⟩ := exists_hasLine_of_task? hmarks hends hagain
  have hagainParts := hagainLine.line
  rw [hagainText, hparts] at hagainParts
  cases hagainParts
  -- what the written line says stands in one of the items, and these are what the first line said
  have hisLine := hlegible.isLineUnder hmetadata hsaid
  rw [h.content] at hisLine
  rw [hmetadata, hagainMetadata]
  constructor
  · intro field hhas
    obtain ⟨item, hmem, hslot⟩ :=
      hisLine.exists_item hmarks hagainLine.extract (fills_of_has hagainLine.metadata hhas)
    exact Task.has_of_mem_items hmem hslot
  · intro key hhas
    obtain ⟨entry, hentry, hsame⟩ := List.any_eq_true.1 hhas
    obtain ⟨word, hword, hfills⟩ := fills_of_mem_custom hagainLine.metadata hentry
    obtain ⟨item, hmem, hslot⟩ := hisLine.exists_item hmarks hagainLine.extract hfills
    obtain ⟨found, hfound, hfoundWord⟩ := Task.exists_custom_of_mem_items hsaid hmem hslot
    refine List.any_eq_true.2 ⟨found, hfound, ?_⟩
    rw [hfoundWord, ← hword]
    exact hsame

/-- A task of a note is written as its line by itself is, so nothing from the header, the project
file or the path gets into the line, if the path adds no date to it. What is read in a line that is
written legibly was on the line before. -/
theorem render_of_line (hmarks : Markup.KeepsMarks settings) {tasks : List Task}
    (h : note.tasks settings today = .ok tasks) (htask : task ∈ tasks)
    (hpath : IsUndatedByPath settings today note task) (style : Task.Style) (number : Int) :
    ∃ alone line, task? settings today [] number task.lineText = .ok (some alone) ∧
      task.render style = .ok line ∧ alone.render style = .ok line ∧
      (alone.IsLegibleUnder settings today style → ∀ again,
        task? settings today [] number line = .ok (some again) →
        (∀ field, again.metadata.has field = true → alone.metadata.has field = true) ∧
        ∀ key, again.metadata.custom.has key = true → alone.metadata.custom.has key = true) := by
  obtain ⟨parts, extraction, hlimit, hline⟩ := exists_authored hmarks h htask hpath
  have hsaid := hline.isOfLine hmarks
  obtain ⟨alone, halone, haloneLine, -, inferred, hmetadata⟩ :=
    exists_alone hline hmarks hlimit number
  have hauthored : alone.metadata.authoredMetadata = task.metadata.authoredMetadata := by
    rw [hmetadata]
    exact Metadata.authoredMetadata_eq_self hsaid.inherited hsaid.heading hsaid.inferred
  refine ⟨alone, _, halone, render_eq_of_authored hline hmarks rfl,
    render_eq_of_authored haloneLine hmarks hauthored, ?_⟩
  exact fun hlegible again hagain =>
    says_of_render_items haloneLine hmarks hmetadata hlegible hagain

/-- The header gives the task a date and a key, and its path would give it a day that the line
says itself. -/
theorem render_of_line_dated :
    let settings : Settings :=
      { datesFromPaths := true, pathFolder := "Daily".toList, pathDate := .scheduled }
    let today : Date := ⟨2024, 3, 13, rfl⟩
    let note : Note := {
      path := "Daily/2024-03-13.md".toList
      content := "- [ ] b #t ⏳ 2024-03-14".toList
      header := some [(.str "due".toList, .str "2024-01-01".toList),
        (.str "m".toList, .str "x".toList)] }
    ∃ tasks, note.tasks settings today = .ok tasks ∧ ∃ task ∈ tasks,
      task.metadata.inherited.length = 2 ∧ IsUndatedByPath settings today note task ∧
      ∃ (alone : Task) (line : Text) (again : Task), task.render .emoji = .ok line ∧
        alone.render .emoji = .ok line ∧ alone.IsLegibleUnder settings today .emoji ∧
        task? settings today [] 0 line = .ok (some again) ∧
          (∀ field, again.metadata.has field = true → alone.metadata.has field = true) ∧
        ∀ key, again.metadata.custom.has key = true → alone.metadata.custom.has key = true := by
  intro settings today note
  have hlines :
      ((note.tasks settings today).map
        (·.map fun task => (task.lineText, task.metadata.inherited.length))).toOption =
      some [("- [ ] b #t ⏳ 2024-03-14".toList, 2)] := by decide +kernel
  have hread : ((task? settings today [] 0 "- [ ] b #t ⏳ 2024-03-14".toList).map (·.map fun alone =>
      (alone.content, alone.metadata.tags, alone.metadata.dates))).toOption =
      some (some ("b".toList, ["t".toList], { scheduled := some 1710374400000 })) := by decide +kernel
  have hnone : ((task? settings today [] 0 "- [ ] b #t ⏳ 2024-03-14".toList).map (·.map fun alone =>
      (alone.metadata.context, alone.metadata.recurrence.isNone))).toOption =
      some (some (none, true)) := by decide +kernel
  have hwrite : ((task? settings today [] 0 "- [ ] b #t ⏳ 2024-03-14".toList).map (·.map fun alone =>
      (Task.items .emoji alone.metadata, (alone.render .emoji).toOption))).toOption =
      some (some ([Task.tagItem "t".toList,
        Task.dateItem .emoji .scheduled "scheduled".toList 1710374400000],
        some "- [ ] b #t ⏳ 2024-03-14".toList)) := by decide +kernel
  obtain ⟨tasks, htasks, hlines⟩ := Result.exists_of_map hlines
  obtain ⟨task, htask, hshape⟩ := List.mem_map.1 (hlines ▸ List.mem_cons_self)
  obtain ⟨found, hfound, hread⟩ := Result.exists_of_map hread
  obtain ⟨alone, rfl, halone⟩ := Option.map_eq_some_iff.1 hread
  rw [hfound] at hnone hwrite
  simp only [Prod.mk.injEq] at halone hshape
  obtain ⟨hcontent, htags, hdates⟩ := halone
  obtain ⟨hcontext, hrecurrence⟩ := Prod.mk.inj (Option.some.inj (Option.some.inj hnone))
  obtain ⟨hitems, hrender⟩ := Prod.mk.inj (Option.some.inj (Option.some.inj hwrite))
  rw [Option.isNone_iff_eq_none] at hrecurrence
  have hline : task? settings today [] 0 task.lineText =
      .ok (some alone) := by rw [hshape.1, hfound]
  have hhas : alone.metadata.has (.date .scheduled) = true := by rw [Metadata.has, hdates]; rfl
  have hpath : IsUndatedByPath settings today note task := .inr (.inr ⟨alone, hline, hhas⟩)
  obtain ⟨other, line, hother, hwritten, hwrittenAlone, hrest⟩ :=
    render_of_line ⟨rfl, rfl⟩ htasks htask hpath .emoji 0
  obtain rfl : alone = other := by
    rw [hline] at hother
    cases hother
    rfl
  have hsame : line = "- [ ] b #t ⏳ 2024-03-14".toList := by
    rw [hwrittenAlone] at hrender
    exact Option.some.inj hrender
  have hlegible : alone.IsLegibleUnder settings today .emoji := by
    constructor
    case settled =>
      rw [hcontent, hitems]
      exact ⟨400, by decide +kernel, by decide +kernel⟩
    case writable =>
      refine ⟨?_, ?_, by simp [hcontext], by simp [hrecurrence], ?_⟩
      · intro tag htag
        rw [htags] at htag
        obtain rfl := List.mem_singleton.1 htag
        constructor <;> decide +kernel
      · intro field timestamp moment hdate hmoment
        have hyear : (Moment.ofTimestamp 1710374400000).toOption.map (·.date.year) =
            some 2024 := by decide +kernel
        rw [hdates] at hdate
        cases field with
        | scheduled =>
          cases hdate
          rw [hmoment] at hyear
          have hyear : moment.date.year = 2024 := Option.some.inj hyear
          omega
        | due | start | completed | created => cases hdate
      · have hkinds : ∀ item ∈ Task.items .emoji alone.metadata, item.kind ≠ .dataview := by
          rw [hitems]
          decide
        exact fun item hitem hkind => absurd hkind (hkinds item hitem)
    case unread =>
      have hall : Markup.kinds settings = [.dataview, .emoji, .tag, .context] := by decide
      intro kind _ item _ hnone
      rw [hall] at hnone
      cases hkind : item.kind <;> simp [hkind] at hnone
    case apart => simp [hrecurrence]
    case pieces =>
      rw [hcontent, hitems]
      decide +kernel
  refine ⟨tasks, htasks, task, htask, hshape.2, hpath, alone, line, alone, hwritten,
    hwrittenAlone, hlegible, ?_⟩
  have hagain : task? settings today [] 0 line = .ok (some alone) := by rw [hsame, hfound]
  exact ⟨hagain, hrest hlegible alone hagain⟩

/-- A day from the path is written into the line, which then says a date that it did not
say before. -/
theorem path_date_is_written :
    let settings : Settings :=
      { datesFromPaths := true, pathFolder := "Daily".toList, pathDate := .scheduled }
    let today : Date := ⟨2024, 3, 13, rfl⟩
    let note : Note := { path := "Daily/2024-03-13.md".toList, content := "- [ ] a".toList }
    ∃ task alone, note.tasks settings today = .ok [task] ∧
      task? settings today [] 0 task.lineText = .ok (some alone) ∧
      alone.metadata.has (.date .scheduled) = false ∧ ∀ style, ∃ line again,
        task.render style = .ok line ∧
        task? settings today [] 0 line = .ok (some again) ∧
            again.metadata.has (.date .scheduled) = true := by
  intro settings today note
  have hnote :
      ((note.tasks settings today).map
        (·.map fun task =>
          (task.lineText, (task.render .emoji).toOption,
            (task.render .dataview).toOption))).toOption =
      some [("- [ ] a".toList, some "- [ ] a ⏳ 2024-03-13".toList,
        some "- [ ] a [scheduled::2024-03-13]".toList)] := by decide +kernel
  have hread : ∀ line has,
      (line, has) ∈ [("- [ ] a".toList, false), ("- [ ] a ⏳ 2024-03-13".toList, true),
      ("- [ ] a [scheduled::2024-03-13]".toList, true)] → ∃ task,
      task? settings today [] 0 line = .ok (some task) ∧
        task.metadata.has (.date .scheduled) = has := by
    intro line has hmem
    have hmap :
        ((task? settings today [] 0 line).map
          (·.map fun task => task.metadata.has (.date .scheduled))).toOption = some (some has) := by
      simp only [List.mem_cons, List.not_mem_nil, or_false, Prod.mk.injEq] at hmem
      rcases hmem with ⟨rfl, rfl⟩ | ⟨rfl, rfl⟩ | ⟨rfl, rfl⟩ <;> decide +kernel
    obtain ⟨found, hfound, hmap⟩ := Result.exists_of_map hmap
    obtain ⟨task, rfl, hhas⟩ := Option.map_eq_some_iff.1 hmap
    exact ⟨task, hfound, hhas⟩
  obtain ⟨tasks, htasks, hnote⟩ := Result.exists_of_map hnote
  obtain ⟨task, rest, rfl, hshape, hrest⟩ := List.map_eq_cons_iff.1 hnote
  obtain rfl := List.map_eq_nil_iff.1 hrest
  simp only [Prod.mk.injEq] at hshape
  obtain ⟨hline, hemoji, hdataview⟩ := hshape
  have hwritten : ∀ {style : Task.Style} {line : Text}, (task.render style).toOption = some line →
      task.render style = .ok line := by
    intro style line h
    cases hrender : task.render style with
    | error cause => rw [hrender] at h; cases h
    | ok found => rw [hrender] at h; cases h; rfl
  obtain ⟨alone, halone, hlacks⟩ := hread "- [ ] a".toList false (by simp)
  rw [← hline] at halone
  refine ⟨task, alone, htasks, halone, hlacks, fun style => ?_⟩
  cases style with
  | emoji =>
    obtain ⟨again, hagain, hhas⟩ := hread "- [ ] a ⏳ 2024-03-13".toList true (by simp)
    exact ⟨_, again, hwritten hemoji, hagain, hhas⟩
  | dataview =>
    obtain ⟨again, hagain, hhas⟩ := hread "- [ ] a [scheduled::2024-03-13]".toList true (by simp)
    exact ⟨_, again, hwritten hdataview, hagain, hhas⟩

end Note
end Checklist
