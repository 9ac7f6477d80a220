import Checklist.Proofs.Note.Lines

/-! # Byte order marks before notes

The header of a note is looked for behind the byte order mark before its text, but the mark belongs
to the first line when the lines are read. Main statement: the mark changes no task of a note with a
header, and none of a note whose first line is neither a task line nor a fence nor a heading
(`tasks_withMark`). -/

namespace Checklist
set_option autoImplicit false
open Text

/-! ## Lines behind a mark -/

namespace Line

theorem trimStart_mark (line : Text) : trimStart ('\ufeff' :: line) = '\ufeff' :: line :=
  List.dropWhile_cons_of_neg (by decide)

theorem marker?_mark (s : Text) : marker? ('\ufeff' :: s) = none := by
  unfold marker?
  rw [List.takeWhile_cons_of_neg (by decide), List.dropWhile_cons_of_neg (by decide)]
  rfl

theorem isTask_mark (line : Text) : isTask ('\ufeff' :: line) = false := by
  obtain ⟨ends, hends⟩ := exists_body_append ('\ufeff' :: line)
  rw [isTask]
  cases hbody : body ('\ufeff' :: line) with
  | nil => rfl
  | cons c s =>
    rw [hbody] at hends
    obtain rfl : c = '\ufeff' := by simpa using congrArg List.head? hends
    rw [split?, List.dropWhile_cons_of_neg (by decide), marker?_mark]
    rfl

theorem isFence_mark (line : Text) : isFence ('\ufeff' :: line) = false := by
  have hno : ∀ mark : Char, mark ≠ '\ufeff' →
      [mark, mark, mark].isPrefixOf (trim ('\ufeff' :: line)) = false := by
    intro mark hmark
    by_contra hfence
    obtain ⟨rest, hrest⟩ := (List.isPrefixOf_iff_prefix.1 (by simpa using hfence)).trans
      (isPrefix_trim ('\ufeff' :: line))
    rw [trimStart_mark] at hrest
    exact hmark (by simpa using congrArg List.head? hrest)
  exact Bool.or_eq_false_iff.2 ⟨hno '\x60' (by decide), hno '~' (by decide)⟩

theorem heading?_mark (line : Text) : heading? ('\ufeff' :: line) = none := by
  unfold heading?
  rw [trimStart_mark, List.takeWhile_cons_of_neg (by decide), List.dropWhile_cons_of_neg (by decide)]
  rfl

end Line

namespace Note

/-- The line is passed over outside comments: it is no task line, no fence and no heading
that is read. -/
def isPlain (settings : Settings) (line : Text) : Bool :=
  !Line.isTask line && !Line.isFence line &&
    !(settings.readsHeadings && (Line.heading? line).isSome)

theorem isPlain_mark (settings : Settings) (line : Text) :
    isPlain settings ('\ufeff' :: line) = true := by
  simp [isPlain, Line.isTask_mark, Line.isFence_mark, Line.heading?_mark]

theorem find_of_isPlain {settings : Settings} {line : Text} (h : isPlain settings line = true)
    (heading : Option Heading) (fenced : Bool) (left number : Nat) (rest : List (Text × Nat)) :
    find settings ⟨heading, fenced, left + 1, 0⟩ ((line, number) :: rest) =
      find settings ⟨heading, fenced, left, 0⟩ rest := by
  simp only [isPlain, Bool.and_eq_true, Bool.not_eq_true'] at h
  obtain ⟨⟨htask, hfence⟩, hheading⟩ := h
  have hparts : Line.task? line = none := by
    rw [Line.isTask_eq_isSome] at htask
    exact Option.isSome_eq_false_iff.1 htask |> Option.isNone_iff_eq_none.1
  have hnone : (if settings.readsHeadings then Line.heading? line else none) = none := by
    cases hreads : settings.readsHeadings with
    | false => rfl
    | true => simpa [hreads] using hheading
  rw [find]
  simp [hfence, hparts, hnone]

theorem find_congr_isPlain {settings : Settings} {line other : Text}
    (hline : isPlain settings line = true) (hother : isPlain settings other = true)
    (reading : Reading) (number : Nat) (rest : List (Text × Nat)) :
    find settings reading ((line, number) :: rest) =
      find settings reading ((other, number) :: rest) := by
  obtain ⟨heading, fenced, left, skip⟩ := reading
  cases skip with
  | succ skip => rw [find, find]
  | zero =>
    cases left with
    | zero => rw [find, find]
    | succ left => rw [find_of_isPlain hline, find_of_isPlain hother]

/-! ## The header behind a mark -/

/-- The note with a byte order mark before its text. -/
def withMark (note : Note) : Note :=
  { note with content := '\ufeff' :: note.content }

theorem withoutMark_mark (s : Text) : Header.withoutMark ('\ufeff' :: s) = Header.withoutMark s :=
  List.dropWhile_cons_of_pos (by decide)

theorem endLine?_mark (s : Text) : Header.endLine? ('\ufeff' :: s) = Header.endLine? s := by
  rw [Header.endLine?, Header.noteLines, withoutMark_mark, ← Header.noteLines, ← Header.endLine?]

theorem read_mark (load : Yaml.Loader) (s : Text) :
    Header.read load ('\ufeff' :: s) = Header.read load s := by
  rw [Header.read, Header.has, endLine?_mark, Header.data?, withoutMark_mark, ← Header.data?,
    ← Header.has, ← Header.read]

variable {settings : Settings} {today : Date}

theorem headerOf_withMark (note : Note) : note.withMark.headerOf = note.headerOf := by
  rw [headerOf, headerOf, withMark, endLine?_mark, read_mark]

theorem firstLine_withMark (note : Note) : note.withMark.firstLine = note.firstLine := by
  rw [firstLine, firstLine, withMark, endLine?_mark]

/-! ## Tasks behind a mark -/

/-- The mark stands before the first line; a carriage return at the end of that line is none of its
characters all the same. -/
theorem exists_lines_mark (s : Text) : ∃ first rest, lines s = first :: rest ∧
    lines ('\ufeff' :: s) = ('\ufeff' :: first) :: rest := by
  obtain ⟨piece, pieces, hsplit⟩ := List.exists_cons_of_ne_nil (splitWhere_ne_nil (· == '\n') s)
  have hmark : splitAt '\n' ('\ufeff' :: s) = ('\ufeff' :: piece) :: pieces := by
    rw [splitAt, splitWhere, hsplit]
    rfl
  rw [lines, lines, hmark, splitAt, hsplit]
  cases pieces with
  | nil => exact ⟨piece, [], rfl, rfl⟩
  | cons next pieces =>
    refine ⟨_, _, rfl, ?_⟩
    cases piece with
    | nil => rfl
    | cons c piece =>
      have hinit : ('\ufeff' :: c :: piece).dropLast = '\ufeff' :: (c :: piece).dropLast := rfl
      simp only [lines.go, List.getLast?_cons_cons, hinit]
      split <;> rfl

theorem found_withMark {note : Note}
    (h : Header.has note.content = true ∨ ∀ line ∈ (lines note.content).head?,
      isPlain settings line = true) :
    note.withMark.found settings = note.found settings := by
  obtain ⟨first, rest, hlines, hmark⟩ := exists_lines_mark note.content
  rw [found, found, firstLine_withMark, taskLines, taskLines, withMark, hmark, hlines,
    List.zipIdx_cons, List.zipIdx_cons]
  cases hend : Header.endLine? note.content with
  | some last => rw [firstLine, hend, List.drop_succ_cons, List.drop_succ_cons]
  | none =>
    have hplain : isPlain settings first = true := by
      refine h.resolve_left (by simp [Header.has, hend]) first ?_
      rw [hlines]
      rfl
    rw [firstLine, hend]
    exact find_congr_isPlain (isPlain_mark settings first) hplain _ _ _

/-- A note with a byte order mark has the tasks of the note without it, in every field, if it has a
header or its first line is plain. -/
theorem tasks_withMark {note : Note}
    (h : Header.has note.content = true ∨ ∀ line ∈ (lines note.content).head?,
      isPlain settings line = true) :
    note.withMark.tasks settings today = note.tasks settings today := by
  have hfound := found_withMark h
  have htasks : note.withMark.lineTasks settings today = note.lineTasks settings today := by
    rw [lineTasks, lineTasks, hfound, withMark]
  have houtline : note.withMark.outline settings = note.outline settings := by
    rw [outline, outline, hfound]
  have haround : ∀ header tasks, note.withMark.surroundings settings today header tasks =
      note.surroundings settings today header tasks := by
    intro header tasks
    rw [surroundings, surroundings, houtline, withMark]
  rw [tasks, tasks, headerOf_withMark, htasks, houtline]
  simp only [haround]

/-- A note with a header, of which the lines in the header are no tasks. -/
def markedNote : Note where
  path := "a.md".toList
  content := "---\ndue: 2024-01-15\n---\n# Top\n- [ ] one".toList

theorem tasks_withMark_header : ∃ tasks, tasks.map Task.content = ["one".toList] ∧
    markedNote.tasks {} ⟨2024, 3, 13, rfl⟩ = .ok tasks ∧
      markedNote.withMark.tasks {} ⟨2024, 3, 13, rfl⟩ = .ok tasks := by
  have hcontent : ((markedNote.tasks {} ⟨2024, 3, 13, rfl⟩).map fun tasks =>
      tasks.map Task.content).toOption = some ["one".toList] := by
    decide +kernel
  obtain ⟨tasks, htasks, hcontent⟩ := Result.exists_of_map hcontent
  exact ⟨tasks, hcontent, htasks, by rw [tasks_withMark (.inl (by decide +kernel)), htasks]⟩

/-- A note without a header, whose first line is a task line. -/
def bareNote : Note where
  path := []
  content := "- [ ] a".toList

/-- A mark hides the task line that it stands before. -/
theorem mark_hides_task : ∃ task, task.content = "a".toList ∧
    bareNote.tasks {} ⟨2024, 3, 13, rfl⟩ = .ok [task] ∧
    bareNote.withMark.tasks {} ⟨2024, 3, 13, rfl⟩ = .ok [] := by
  have hcontent : ((bareNote.tasks {} ⟨2024, 3, 13, rfl⟩).map fun tasks =>
      tasks.map Task.content).toOption = some ["a".toList] := by
    decide +kernel
  have hnone : bareNote.withMark.found {} = [] := by decide +kernel
  obtain ⟨tasks, htasks, hcontent⟩ := Result.exists_of_map hcontent
  obtain ⟨task, rfl, htask⟩ := List.map_eq_singleton_iff.1 hcontent
  refine ⟨task, htask, htasks, ?_⟩
  rw [Note.tasks, lineTasks, hnone]
  rfl

end Note
end Checklist
