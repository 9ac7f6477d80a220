import Checklist.Proofs.Note.SingleLine

/-! # Tasks are read as they are written

Main statements: a task that was read from a line and is legible in a style is read again from the
line that it is written as (`roundTrip`), and a tag that comes from an inline field need not be
(`no_roundTrip_of_tag_with_blank`). -/

namespace Checklist.Task
set_option autoImplicit false
open Text

/-- Both say the same and look the same; ids, paths and lines may differ. -/
structure IsAgain (task again : Task) : Prop where
  content : again.content = task.content
  status : again.status = task.status
  marker : again.marker = task.marker
  indent : again.indent = task.indent
  metadata : again.metadata = task.metadata

/-- The task is written as a line, and that line is read as the task again. -/
def RoundTrips (today : Date) (style : Style) (task : Task) : Prop :=
  ∃ line, task.render style = .ok line ∧
    ∀ path number, ∃ again, Note.task? .standard today path number line = .ok (some again) ∧
      task.IsAgain again

variable {today : Date} {style : Style} {parts : TaskLine} {extraction : Markup.Extraction}
  {task : Task}

theorem isTrimmed_line {content : Text} {items : List Markup.Item}
    (hcontent : content = [] ∨ IsTrimmed content) (hline : '\n' ∉ content)
    (hitems : ∀ item ∈ items, IsName item.text) :
    (Markup.line content items = [] ∨ IsTrimmed (Markup.line content items)) ∧
      '\n' ∉ Markup.line content items := by
  have hparts : ∀ part ∈ (if content.isEmpty then [] else [content]) ++ items.map Markup.Item.text,
      IsName part := by
    intro part hpart
    rcases List.mem_append.1 hpart with hpart | hpart
    · split at hpart
      · cases hpart
      · rename_i hne
        obtain rfl := List.mem_singleton.1 hpart
        exact ⟨hcontent.resolve_left (by simpa using hne), hline⟩
    · obtain ⟨item, hitem, rfl⟩ := List.mem_map.1 hpart
      exact hitems item hitem
  refine ⟨?_, notMem_join (by decide) fun part hpart => (hparts part hpart).2⟩
  by_cases hempty : (if content.isEmpty then [] else [content]) ++ items.map Markup.Item.text = []
  · left
    rw [Markup.line, hempty]
    rfl
  · exact .inr (isTrimmed_join hempty fun part hpart => (hparts part hpart).1)

theorem render_eq (h : task.IsReadFrom today parts extraction) :
    task.render style =
      .ok (Line.render
        { parts with content := Markup.line task.content (items style task.metadata) }) := by
  obtain ⟨-, rest, hsplit⟩ := Line.isWellFormed_of_task? h.line h.ends
  have hlead : task.lead = parts.indent := by rw [lead, hsplit]
  unfold Task.render
  refine Result.bind_eq_ok.2 ⟨_, pieces_eq h.isOfLine, ?_⟩
  rw [hlead, h.marker, h.status]
  simp [Line.render, Markup.line, pure, Except.pure]

/-- A task that was read from a line is read again from the line that it is written as in a style,
if it is legible there. -/
theorem roundTrip {path line : Text} {number : Int}
    (h : Note.task? .standard today path number line = .ok (some task))
    (hlegible : task.IsLegible today style) : task.RoundTrips today style := by
  obtain ⟨-, parts, extraction, hread⟩ := Note.exists_isReadFrom h
  have hisLine := hlegible.isLine hread.isOfLine
  obtain ⟨said, hextract, hsays⟩ := Markup.exists_extraction hisLine
  have hmetadata : Note.lineMetadata today none said = .ok task.metadata :=
    lineMetadata_of_says hread.isOfLine hlegible.writable.years hsays
  obtain ⟨hcontent, hends⟩ := Markup.isTrimmed_content hread.extract
  rw [← hread.content] at hcontent hends
  obtain ⟨hbody, hbodyEnds⟩ := @isTrimmed_line task.content (items style task.metadata) hcontent
    hends (isName_items hread.isOfLine)
  -- the line that is written has the parts of the first one, and another content
  have hwellFormed :=
    (Line.isWellFormed_of_task? hread.line hread.ends).1.withContent hbody hbodyEnds
  have hparts := Line.task?_render hwellFormed
  refine ⟨_, render_eq hread, fun path number => ?_⟩
  have hfence := Line.isFence_of_isTask (by rw [Line.isTask_eq_isSome, hparts]; rfl)
  obtain ⟨again, hagain⟩ :=
    @Note.exists_task? today path number _ _ _ _ hwellFormed.line hparts hfence hextract hmetadata
  obtain ⟨hlines, againParts, againExtraction, hreadAgain⟩ := Note.exists_isReadFrom hagain
  rw [lines_of_notMem hwellFormed.line, List.mem_singleton] at hlines
  have hsameParts := hreadAgain.line
  rw [hlines, hparts, Option.some.injEq] at hsameParts
  subst hsameParts
  obtain rfl := Except.ok.inj (hextract.symm.trans hreadAgain.extract)
  exact ⟨again, hagain, by rw [hreadAgain.content, hsays.content],
    by rw [hreadAgain.status, hread.status],
    by rw [hreadAgain.marker, hread.marker], by rw [hreadAgain.indent, hread.indent],
    Except.ok.inj (hreadAgain.metadata.symm.trans hmetadata)⟩

theorem exists_milk :
    ∃ task, Note.task? .standard ⟨2024, 3, 13, rfl⟩ [] 0
      "- [ ] Buy milk #home 📅 2024-01-15 🔺".toList = .ok (some task) ∧
    task.content = "Buy milk".toList ∧ task.metadata =
      { dates := { due := some 1705276800000 }, priority := some 5, tags := ["home".toList] } := by
  have hread : ((Note.task? .standard ⟨2024, 3, 13, rfl⟩ [] 0
      "- [ ] Buy milk #home 📅 2024-01-15 🔺".toList).toOption.join.any fun task =>
        task.content == "Buy milk".toList && task.metadata.dates == { due := some 1705276800000 } &&
        task.metadata.priority == some 5 && task.metadata.tags == ["home".toList] &&
        [task.metadata.project, task.metadata.area, task.metadata.context] == [none, none, none] &&
        task.metadata.recurrence.isNone && task.metadata.inferred.isNone &&
        task.metadata.heading.isNone && task.metadata.custom.isEmpty &&
        task.metadata.inherited.isEmpty) = true := by decide +kernel
  obtain ⟨task, htask, hsame⟩ := (Option.any_eq_true _ _).1 hread
  simp only [Bool.and_eq_true, beq_iff_eq, List.cons.injEq, List.isEmpty_iff,
    Option.isNone_iff_eq_none, and_true] at hsame
  obtain ⟨⟨⟨⟨⟨⟨⟨⟨⟨hcontent, hdates⟩, hpriority⟩, htags⟩, hproject, harea, hcontext⟩, hrecurrence⟩,
    hinferred⟩, hheading⟩, hcustom⟩, hinherited⟩ := hsame
  refine ⟨task, Result.eq_ok_of_join htask, hcontent, ?_⟩
  · generalize task.metadata = metadata at *
    cases metadata
    simp_all

theorem roundTrip_milk :
    ∃ task, Note.task? .standard ⟨2024, 3, 13, rfl⟩ [] 0
      "- [ ] Buy milk #home 📅 2024-01-15 🔺".toList = .ok (some task) ∧
    task.RoundTrips ⟨2024, 3, 13, rfl⟩ .emoji := by
  obtain ⟨task, htask, hcontent, hmetadata⟩ := exists_milk
  refine ⟨task, htask, roundTrip htask ?_⟩
  have hyear : ∀ moment, Moment.ofTimestamp 1705276800000 = .ok moment →
      1000 ≤ moment.date.year := by
    intro moment hmoment
    have hread : (Moment.ofTimestamp 1705276800000).toOption.map (·.date.year) =
        some 2024 := by decide +kernel
    rw [hmoment] at hread
    have hyear : moment.date.year = 2024 := Option.some.inj hread
    omega
  constructor
  case settled =>
    rw [hcontent, Markup.IsSettled]
    decide +kernel
  case writable =>
    rw [hmetadata]
    refine ⟨?_, ?_, by simp, by simp, ?_⟩
    · intro tag htag
      obtain rfl := List.mem_singleton.1 htag
      constructor <;> decide +kernel
    · intro field timestamp moment hdate hmoment
      cases field with
      | due =>
        cases hdate
        exact hyear moment hmoment
      | start | scheduled | completed | created => cases hdate
    · have hkinds : ∀ item ∈ items .emoji
          { dates := { due := some 1705276800000 }, priority := some 5, tags := ["home".toList] },
          item.kind ≠ .dataview := by decide +kernel
      exact fun item hitem hkind => absurd hkind (hkinds item hitem)
  case apart =>
    rw [hmetadata]
    simp
  case pieces =>
    rw [hcontent, hmetadata]
    decide +kernel
  case plain =>
    rw [hcontent, hmetadata]
    decide +kernel
  case count =>
    have hnone :
        (Markup.spans
          (Markup.pieces (Markup.line task.content (items .emoji task.metadata)))).length = 0 := by
      rw [hcontent, hmetadata]
      decide +kernel
    rw [hnone]
    exact Nat.zero_le _
  case budget =>
    intro consumed hconsumed
    rw [hcontent] at hconsumed
    have hleft :
        (Markup.consumeAll (Markup.grammars .standard ⟨2024, 3, 13, rfl⟩)
          Settings.standard.metadataLimit
        (Markup.protect "Buy milk".toList).text).toOption.map (·.left) =
        some 400 := by decide +kernel
    rw [hconsumed] at hleft
    have hleft : consumed.left = 400 := Option.some.inj hleft
    rw [hmetadata, hleft]
    decide +kernel

/-- A tag that an inline field gives may hold a blank, at which it ends when it is read behind
a hash sign. -/
theorem no_roundTrip_of_tag_with_blank :
    ∃ task, Note.task? .standard ⟨2024, 3, 13, rfl⟩ [] 0
      "- [ ] a [tags:: x y]".toList = .ok (some task) ∧
    ∀ style, ¬task.RoundTrips ⟨2024, 3, 13, rfl⟩ style := by
  have hread : ((Note.task? .standard ⟨2024, 3, 13, rfl⟩ [] 0
      "- [ ] a [tags:: x y]".toList).toOption.join.any fun task =>
        task.content == "a".toList && (task.render .emoji).toOption == some "- [ ] a #x y".toList &&
        (task.render .dataview).toOption == some "- [ ] a #x y".toList) = true := by decide +kernel
  have hagain : (Note.task? .standard ⟨2024, 3, 13, rfl⟩ [] 0
      "- [ ] a #x y".toList).toOption.join.map Task.content = some "a y".toList := by decide +kernel
  obtain ⟨task, htask, hsame⟩ := (Option.any_eq_true _ _).1 hread
  simp only [Bool.and_eq_true, beq_iff_eq] at hsame
  obtain ⟨⟨hcontent, hemoji⟩, hdataview⟩ := hsame
  refine ⟨task, Result.eq_ok_of_join htask, fun style hround => ?_⟩
  obtain ⟨line, hline, hround⟩ := hround
  obtain ⟨again, hreadAgain, hisAgain⟩ := hround [] 0
  have hwritten : line = "- [ ] a #x y".toList := by
    cases style with
    | emoji =>
      rw [hline] at hemoji
      exact Option.some.inj hemoji
    | dataview =>
      rw [hline] at hdataview
      exact Option.some.inj hdataview
  subst hwritten
  rw [hreadAgain] at hagain
  have hother : again.content = "a y".toList := Option.some.inj hagain
  rw [hisAgain.content, hcontent] at hother
  exact absurd hother (by decide)

end Checklist.Task
