import Checklist.Proofs.Note.Lines

/-! # Code blocks

A code block begins at a line on which a run of at least three backticks or tildes comes first, and
ends at the next line that is nothing but a run of the same sign which is not shorter, or where the
lines end. The task lines that count are told by the parity of the fences above them instead. Main
statements: the two agree up to the fences that stand in a block and do not end it
(`counts_eq_xor`), so no task lies in a block and every task line outside of blocks becomes a task,
provided that above each task line such fences come in pairs (`tasks_outside_blocks`). -/

namespace Checklist
set_option autoImplicit false
open Text

/-- What begins a code block: the sign that its fences are made of, and how many of them
come first. -/
structure CodeBlock where
  sign : Char
  length : Nat
  isSign : sign = '\x60' ∨ sign = '~'
  long : 3 ≤ length

namespace CodeBlock

/-- How often a text repeats a character at its start. -/
def run (c : Char) (s : Text) : Nat :=
  (s.takeWhile (· == c)).length

def begun? (line : Text) : Option CodeBlock :=
  if h : 3 ≤ run '\x60' (trim line) then some ⟨'\x60', _, .inl rfl, h⟩
  else if h : 3 ≤ run '~' (trim line) then some ⟨'~', _, .inr rfl, h⟩
  else none

def isEndedBy (block : CodeBlock) (line : Text) : Bool :=
  (trim line).all (· == block.sign) && block.length ≤ (trim line).length

/-- The block that lies open below a line, where one may lie open above it. -/
def below : Option CodeBlock → Text → Option CodeBlock
  | none, line => begun? line
  | some block, line => if block.isEndedBy line then none else some block

/-- The line is a fence in a block, and does not end it. -/
def isStray : Option CodeBlock → Text → Bool
  | none, _ => false
  | some block, line => Line.isFence line && !block.isEndedBy line

/-- The number of fences that stand in a block without ending it. -/
def strays : Option CodeBlock → List Text → Nat
  | _, [] => 0
  | block, line :: rest => (isStray block line).toNat + strays (below block line) rest

/-! ## Fences and blocks -/

theorem isPrefixOf_replicate_iff (c : Char) (n : Nat) (s : Text) :
    (List.replicate n c).isPrefixOf s = true ↔ n ≤ run c s := by
  induction n generalizing s with
  | zero => simp
  | succ n ih =>
    rw [List.replicate_succ]
    cases s with
    | nil => simp [run]
    | cons d s =>
      by_cases hd : d = c
      · subst hd
        rw [List.isPrefixOf_cons_cons, beq_self_eq_true, Bool.true_and, ih, run, run,
          List.takeWhile_cons_of_pos (by simp), List.length_cons,
          Nat.add_le_add_iff_right]
      · simp [run, hd, Ne.symm hd]

theorem isSome_begun? (line : Text) : (begun? line).isSome = Line.isFence line := by
  have hfence : Line.isFence line =
      (decide (3 ≤ run '\x60' (trim line)) || decide (3 ≤ run '~' (trim line))) := by
    rw [Bool.eq_iff_iff, Line.isFence, Bool.or_eq_true, Bool.or_eq_true,
      decide_eq_true_iff, decide_eq_true_iff,
      ← isPrefixOf_replicate_iff, ← isPrefixOf_replicate_iff]
    rfl
  rw [hfence, begun?]
  split
  · simp [*]
  · split <;> simp [*]

theorem isFence_of_isEndedBy {block : CodeBlock} {line : Text} (h : block.isEndedBy line = true) :
    Line.isFence line = true := by
  rw [isEndedBy, Bool.and_eq_true, decide_eq_true_iff] at h
  have hrun : 3 ≤ run block.sign (trim line) := by
    rw [run, List.takeWhile_eq_self_iff.2 (List.all_eq_true.1 h.1)]
    exact Nat.le_trans block.long h.2
  have hprefix := (isPrefixOf_replicate_iff block.sign 3 (trim line)).2 hrun
  rcases block.isSign with hsign | hsign <;> rw [hsign] at hprefix <;>
    rw [Line.isFence, Bool.or_eq_true]
  · exact .inl hprefix
  · exact .inr hprefix

theorem isSome_below (block : Option CodeBlock) (line : Text) :
    (below block line).isSome = ((block.isSome ^^ Line.isFence line) ^^ isStray block line) := by
  cases block with
  | none => simp [below, isStray, isSome_begun?]
  | some block =>
    cases hend : block.isEndedBy line with
    | true => simp [below, isStray, hend, isFence_of_isEndedBy hend]
    | false => cases hfence : Line.isFence line <;> simp [below, isStray, hend, hfence]

/-- Fences that are no stray ones come in pairs, but for the one of the block that lies open. -/
theorem isSome_foldl_below (block : Option CodeBlock) (lines : List Text) :
    ((lines.foldl below block).isSome.toNat + strays block lines) % 2 =
    (block.isSome.toNat + lines.countP Line.isFence) % 2 := by
  induction lines generalizing block with
  | nil => rfl
  | cons line lines ih =>
    have hparity : ∀ (a b c : Bool) (count : Nat), (((a ^^ b) ^^ c).toNat + count) % 2 =
        (a.toNat + b.toNat + c.toNat + count) % 2 := by
      intro a b c count
      cases a <;> cases b <;> cases c <;> grind
    have hfence : (if Line.isFence line = true then 1 else 0) = (Line.isFence line).toNat := by
      cases Line.isFence line <;> rfl
    have hstep := ih (below block line)
    rw [isSome_below, hparity] at hstep
    rw [List.foldl_cons, strays, List.countP_cons, hfence]
    omega

end CodeBlock

namespace Note

/-- The lines between the header and the line with the given number. -/
def linesAbove (lines : List Text) (number : Nat) : List Text :=
  (lines.take number).drop (headerLength lines)

/-- The code block that lies open above the line with the given number. -/
def blockAbove (lines : List Text) (number : Nat) : Option CodeBlock :=
  (linesAbove lines number).foldl CodeBlock.below none

/-- The number of fences above a line that stand in a block without ending it. -/
def straysAbove (lines : List Text) (number : Nat) : Nat :=
  CodeBlock.strays none (linesAbove lines number)

/-- The task lines below the header that lie in no code block, with their numbers. -/
def outerLines (lines : List Text) : List (Text × Nat) :=
  lines.zipIdx.filter fun entry =>
    headerLength lines ≤ entry.2 && (blockAbove lines entry.2).isNone && Line.isTask entry.1

example : outerLines ["---".toList, "~~~".toList, "---".toList, "~~~~ text".toList, "~~~".toList,
    "- [ ] a".toList, "~~~~".toList, "- [ ] b".toList] =
    [("- [ ] b".toList, 7)] := by decide +kernel

/-- Among task lines below the header those count that lie outside of blocks, unless an odd number
of stray fences turns this around. -/
theorem counts_eq_xor (lines : List Text) (line : Text) (number : Nat) : counts lines line number =
    (headerLength lines ≤ number &&
      ((blockAbove lines number).isNone ^^ straysAbove lines number % 2 == 1) &&
        Line.isTask line) := by
  have hparity := CodeBlock.isSome_foldl_below none (linesAbove lines number)
  have hsome : ((blockAbove lines number).isSome.toNat + straysAbove lines number) % 2 =
      fencesAbove lines number % 2 := by
    simpa [blockAbove, straysAbove, fencesAbove, linesAbove] using hparity
  rw [counts, ← hsome]
  rcases Nat.mod_two_eq_zero_or_one (straysAbove lines number) with hstrays |
    hstrays <;> cases blockAbove lines number <;>
    simp [hstrays, Nat.add_mod]

/-- Where stray fences come in pairs above every task line, the lines that count are those
outside of blocks. -/
theorem countingLines_eq_outerLines {lines : List Text}
    (h : ∀ entry ∈ lines.zipIdx, headerLength lines ≤ entry.2 → Line.isTask entry.1 = true →
    straysAbove lines entry.2 % 2 = 0) : countingLines lines = outerLines lines := by
  refine List.filter_congr fun entry hentry => ?_
  rw [counts_eq_xor]
  by_cases hheader : headerLength lines ≤ entry.2
  · cases htask : Line.isTask entry.1 with
    | false => simp
    | true => simp [h entry hentry hheader htask]
  · simp [hheader]

/-! ## The limit -/

theorem find_prefix_of_limit (settings : Settings) (heading : Option Heading) (fenced : Bool)
    (left more skip : Nat) (numbered : List (Text × Nat)) :
    find settings ⟨heading, fenced, left, skip⟩ numbered <+: find settings
      ⟨heading, fenced, left + more, skip⟩ numbered := by
  induction numbered generalizing heading fenced left skip with
  | nil => exact List.prefix_rfl
  | cons entry rest ih =>
    obtain ⟨line, number⟩ := entry
    cases skip with
    | succ skip => exact ih heading fenced left skip
    | zero =>
      cases left with
      | zero => exact List.nil_prefix
      | succ left =>
        rw [Nat.add_right_comm, find, find]
        dsimp only
        by_cases hfence : Line.isFence line = true
        · rw [if_pos hfence, if_pos hfence]
          exact ih heading (!fenced) left 0
        rw [if_neg hfence, if_neg hfence]
        cases fenced with
        | true => exact ih heading true left 0
        | false =>
          rw [if_neg Bool.false_ne_true, if_neg Bool.false_ne_true]
          cases (if settings.readsHeadings then Line.heading? line else none) with
          | some heading => exact ih (some heading) false left 0
          | none =>
            cases Line.task? line with
            | none => exact ih heading false left 0
            | some parts => exact List.prefix_cons_inj _ |>.2 (ih heading false left _)

theorem isPrefix_map_found (settings : Settings) (note : Note) :
    (note.found settings).map (fun found => (found.line, found.number)) <+:
      countingLines (lines note.content) := by
  have hprefix :=
    find_prefix_of_limit settings none false settings.lineLimit (lines note.content).length 0
    ((lines note.content).zipIdx.drop (headerLength (lines note.content)))
  have hall := map_find settings ⟨none, false, settings.lineLimit + (lines note.content).length, 0⟩
    ((lines note.content).zipIdx.drop (headerLength (lines note.content))) (by simp; omega) (by simp)
  rw [countingLines_eq, ← hall, found, taskLines, firstLine_eq]
  exact hprefix.map _

/-! ## Tasks -/

variable {settings : Settings} {today : Date} {note : Note} {tasks : List Task}

theorem map_lineText_tasks (h : note.tasks settings today = .ok tasks) :
    tasks.map (fun task => (task.lineText, task.line)) =
    (note.found settings).map fun found => (found.line, (found.number : Int)) := by
  rw [← map_found_places, List.map_map]
  exact (Result.map_eq_map (fun _ _ hplace => Prod.ext hplace.lineText_eq.symm hplace.line_eq.symm)
    (forall₂_isPlaced_tasks h)).symm

/-- No task lies in a code block: the tasks are those of the first task lines outside of blocks, and
of all of them if no more lines than the limit stand below the header. Above each task line the
fences that stand in a block without ending it have to come in pairs. -/
theorem tasks_outside_blocks (h : note.tasks settings today = .ok tasks)
    (hstrays : ∀ entry ∈ (lines note.content).zipIdx, headerLength (lines note.content) ≤ entry.2 →
      Line.isTask entry.1 = true → straysAbove (lines note.content) entry.2 % 2 = 0) :
    tasks.map (fun task => (task.lineText, task.line)) <+:
      (outerLines (lines note.content)).map (fun entry => (entry.1, (entry.2 : Int))) ∧
    ((lines note.content).length - headerLength (lines note.content) ≤ settings.lineLimit →
      tasks.map (fun task => (task.lineText, task.line)) =
        (outerLines (lines note.content)).map fun entry => (entry.1, (entry.2 : Int))) := by
  have hnumbers : (note.found settings).map (fun found => (found.line, (found.number : Int))) =
      ((note.found settings).map fun found => (found.line, found.number)).map fun entry =>
          (entry.1, (entry.2 : Int)) := by
    rw [List.map_map]
    rfl
  rw [map_lineText_tasks h, hnumbers, ← countingLines_eq_outerLines hstrays]
  exact ⟨(isPrefix_map_found settings note).map _, fun hlimit => by rw [map_found hlimit]⟩

/-- A note with a fence in its header, a block in which two shorter fences of another sign stand,
and a block that does not end. -/
def fencedNote : Note where
  path := "a.md".toList
  content := "---\n~~~\n---\n- [ ] a\n````py\n- [ ] b\n~~~\n~~~\n````\n- [ ] c\n~~~\n- [ ] d".toList

theorem tasks_outside_blocks_fenced : ∃ tasks, fencedNote.tasks {} ⟨2024, 3, 13, rfl⟩ = .ok tasks ∧
    tasks.map (fun task => (task.lineText, task.line)) =
      [("- [ ] a".toList, 3), ("- [ ] c".toList, 9)] := by
  have hlines : ((fencedNote.tasks {} ⟨2024, 3, 13, rfl⟩).map List.length).toOption =
      some 2 := by decide +kernel
  obtain ⟨tasks, htasks, -⟩ := Result.exists_of_map hlines
  refine ⟨tasks, htasks, ?_⟩
  rw [(tasks_outside_blocks htasks (by decide +kernel)).2 (by decide +kernel)]
  decide +kernel

/-- A block between tildes that shows a fence of backticks. -/
def quotingNote : Note where
  path := []
  content := "~~~\n```\n- [ ] a\n```\n~~~".toList

/-- Behind a stray fence a line of a block is taken for a task. -/
theorem task_in_block : ∃ task, quotingNote.tasks {} ⟨2024, 3, 13, rfl⟩ = .ok [task] ∧
    (task.lineText, task.line) = ("- [ ] a".toList, 2) ∧
    (blockAbove (lines quotingNote.content) 2).isSome = true := by
  have hlines : ((quotingNote.tasks {} ⟨2024, 3, 13, rfl⟩).map fun tasks => tasks.map fun task =>
      (task.lineText, task.line)).toOption =
      some [("- [ ] a".toList, 2)] := by decide +kernel
  obtain ⟨tasks, htasks, hlines⟩ := Result.exists_of_map hlines
  obtain ⟨task, rfl, htask⟩ := List.map_eq_singleton_iff.1 hlines
  exact ⟨task, htasks, htask, by decide +kernel⟩

end Note
end Checklist
