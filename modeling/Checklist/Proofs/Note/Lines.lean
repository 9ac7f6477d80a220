import Checklist.Proofs.Line
import Checklist.Proofs.Note.Completion

/-! # The task lines that count

A task line counts if it stands below the header and no code fence is open above it. Main
statements: the lines that are read as the header's are those up to its closing rule
(`firstLine_eq`), and while the limit is not reached the task lines found are those that count, each
with its number (`map_found`). -/

namespace Checklist
set_option autoImplicit false
open Text

namespace Note

/-! ## Lines that count -/

/-- The number of lines that the header takes up, its two rules included. -/
def headerLength : List Text → Nat
  | [] => 0
  | first :: rest => if Header.isRule (Header.withoutMark first) then
      ((rest.findIdx? Header.isRule).map (· + 2)).getD 0 else 0

/-- The number of fences between the header and the line with the given number. -/
def fencesAbove (lines : List Text) (number : Nat) : Nat :=
  ((lines.take number).drop (headerLength lines)).countP Line.isFence

/-- The line with the given number is a task line below the header, and the fences above it
come in pairs. -/
def counts (lines : List Text) (line : Text) (number : Nat) : Bool :=
  headerLength lines ≤ number && fencesAbove lines number % 2 == 0 && Line.isTask line

/-- The task lines that count, with their numbers. -/
def countingLines (lines : List Text) : List (Text × Nat) :=
  lines.zipIdx.filter fun entry => counts lines entry.1 entry.2

example : countingLines ["---".toList, "- [ ] a".toList, "---".toList, "- [ ] b".toList,
    "~~~".toList, "- [ ] c".toList, "~~~".toList, "- [ ] d".toList] =
    [("- [ ] b".toList, 3), ("- [ ] d".toList, 7)] := by decide +kernel

/-! ## The header in the lines of a text

The header is looked for between line feeds, after the marks at the start of the text. Its lines are
those of the text all the same, since a rule may end with a carriage return. -/

theorem noteLines_eq (s : Text) : ∃ first rest, splitAt '\n' s = first :: rest ∧
    Header.noteLines s = Header.withoutMark first :: rest := by
  induction s with
  | nil => exact ⟨[], [], rfl, rfl⟩
  | cons c s ih =>
    obtain ⟨first, rest, hsplit, hnote⟩ := ih
    by_cases hmark : c = '\ufeff'
    · subst hmark
      refine ⟨'\ufeff' :: first, rest, ?_, hnote⟩
      rw [splitAt] at hsplit ⊢
      rw [splitWhere, hsplit]
      rfl
    · have hself : Header.withoutMark (c :: s) = c :: s :=
        List.dropWhile_cons_of_neg (by simpa using hmark)
      rw [Header.noteLines, hself]
      by_cases hfeed : c = '\n'
      · subst hfeed
        refine ⟨[], splitAt '\n' s, rfl, rfl⟩
      · have hcons : splitAt '\n' (c :: s) = (c :: first) :: rest := by
          rw [splitAt] at hsplit ⊢
          rw [splitWhere, hsplit, if_neg (by simpa using hfeed)]
        exact ⟨c :: first, rest, hcons,
          by rw [hcons, Header.withoutMark, List.dropWhile_cons_of_neg (by simpa using hmark)]⟩

/-- The piece of a text is the line, or the line and the carriage return at its end. -/
def IsPieceOf (piece line : Text) : Prop :=
  piece = line ∨ piece = line ++ ['\r']

theorem forall₂_isPieceOf (pieces : List Text) :
    List.Forall₂ IsPieceOf pieces (lines.go pieces) := by
  induction pieces with
  | nil => exact .nil
  | cons piece pieces ih =>
    cases pieces with
    | nil => exact .cons (.inl rfl) .nil
    | cons next pieces =>
      refine .cons ?_ ih
      split
      · rename_i hlast
        obtain ⟨line, rfl⟩ := List.getLast?_eq_some_iff.1 (beq_iff_eq.1 hlast)
        exact .inr (by rw [List.dropLast_concat])
      · exact .inl rfl

theorem IsPieceOf.isRule_eq {piece line : Text} (h : IsPieceOf piece line) :
    Header.isRule piece = Header.isRule line := by
  rcases h with rfl | rfl
  · rfl
  · have hend : trimEnd (line ++ ['\r']) = trimEnd line := by
      rw [trimEnd, trimEndWhere, List.reverse_append, List.reverse_singleton, List.singleton_append,
        List.dropWhile_cons_of_pos (by decide)]
      rfl
    rw [Header.isRule, hend, Header.isRule]

theorem IsPieceOf.withoutMark {piece line : Text} (h : IsPieceOf piece line) :
    IsPieceOf (Header.withoutMark piece) (Header.withoutMark line) := by
  rcases h with rfl | rfl
  · exact .inl rfl
  · refine .inr ?_
    rw [Header.withoutMark, Header.withoutMark, List.dropWhile_append]
    split
    · rename_i hempty
      rw [List.isEmpty_iff.1 hempty]
      rfl
    · rfl

theorem findIdx?_isRule_eq {pieces lines : List Text} (h : List.Forall₂ IsPieceOf pieces lines) :
    pieces.findIdx? Header.isRule = lines.findIdx? Header.isRule := by
  induction h with
  | nil => rfl
  | cons hpiece _ ih => rw [List.findIdx?_cons, List.findIdx?_cons, hpiece.isRule_eq, ih]

/-- The header is read as far as its lines reach. -/
theorem firstLine_eq (note : Note) : note.firstLine = headerLength (lines note.content) := by
  obtain ⟨first, rest, hsplit, hnote⟩ := noteLines_eq note.content
  have hpieces := forall₂_isPieceOf (splitAt '\n' note.content)
  rw [lines, firstLine, Header.endLine?, hnote]
  rw [hsplit] at hpieces ⊢
  generalize lines.go (first :: rest) = all at hpieces
  obtain ⟨line, others, hline, hothers, rfl⟩ := List.forall₂_cons_left_iff.1 hpieces
  dsimp only
  rw [headerLength, hline.withoutMark.isRule_eq, findIdx?_isRule_eq hothers]
  cases Header.isRule (Header.withoutMark line) <;> cases others.findIdx? Header.isRule <;> rfl

/-! ## Fences are counted as they are passed -/

/-- The task lines among numbered lines, all of them read, where a fence may be open at first. -/
def openLines : Bool → List (Text × Nat) → List (Text × Nat)
  | _, [] => []
  | fenced, (line, number) :: rest =>
    if Line.isFence line then openLines (!fenced) rest
    else if !fenced && Line.isTask line then (line, number) :: openLines fenced rest
    else openLines fenced rest

theorem openLines_eq (fenced : Bool) (lines : List Text) (start : Nat) :
    openLines fenced (lines.zipIdx start) =
    (lines.zipIdx start).filter fun entry =>
      (fenced.toNat + (lines.take (entry.2 - start)).countP Line.isFence) % 2 == 0 &&
        Line.isTask entry.1 := by
  induction lines generalizing fenced start with
  | nil => rfl
  | cons line lines ih =>
    -- below the first line there is one fence more above if that line is one
    have hbelow : (lines.zipIdx (start + 1)).filter (fun entry =>
          (fenced.toNat + ((line :: lines).take (entry.2 - start)).countP Line.isFence) % 2 == 0 &&
          Line.isTask entry.1) =
        openLines (fenced ^^ Line.isFence line) (lines.zipIdx (start + 1)) := by
      rw [ih]
      refine List.filter_congr fun entry hentry => ?_
      have hnumber : entry.2 - start = entry.2 - (start + 1) + 1 := by
        have := (List.mem_zipIdx hentry).1
        omega
      have hparity : ∀ count, (fenced.toNat + (count + if Line.isFence line then 1 else 0)) % 2 =
          ((fenced ^^ Line.isFence line).toNat + count) % 2 := by
        intro count
        cases fenced <;> cases Line.isFence line <;> simp <;> omega
      rw [hnumber, List.take_succ_cons, List.countP_cons, hparity]
    rw [List.zipIdx_cons, openLines, List.filter_cons, hbelow, Nat.sub_self, List.take_zero,
      List.countP_nil, Nat.add_zero]
    cases htask : Line.isTask line with
    | true =>
      have hfence := Line.isFence_of_isTask htask
      cases fenced <;> simp [hfence]
    | false => cases hfence : Line.isFence line <;> simp

/-! ## The lines found -/

theorem isComment_eq_true {settings : Settings} {indent : Nat} {line : Text}
    (h : isComment settings indent line = true) :
    Line.isFence line = false ∧ Line.isTask line = false := by
  simp only [isComment, Bool.and_eq_true, Bool.not_eq_true'] at h
  exact ⟨h.1.2, h.1.1.2⟩

theorem isPrefix_commentLines (settings : Settings) (indent : Nat) (below : List Text) :
    commentLines settings indent below <+: below := by
  unfold commentLines
  split
  · exact List.takeWhile_prefix _
  · exact List.nil_prefix

theorem isComment_of_mem_commentLines {settings : Settings} {indent : Nat}
    {below : List Text} {line : Text}
    (h : line ∈ commentLines settings indent below) : isComment settings indent line = true := by
  unfold commentLines at h
  split at h
  · exact List.mem_takeWhile_imp h
  · cases h

theorem isComment_of_mem_take {settings : Settings} {indent : Nat} {below : List (Text × Nat)}
    {entry : Text × Nat}
    (h : entry ∈ below.take (commentLines settings indent (below.map (·.1))).length) :
    isComment settings indent entry.1 = true := by
  have hmem : entry.1 ∈ commentLines settings indent (below.map (·.1)) := by
    rw [List.prefix_iff_eq_take.1 (isPrefix_commentLines settings indent (below.map (·.1))),
      ← List.map_take]
    exact List.mem_map_of_mem h
  exact isComment_of_mem_commentLines hmem

/-- While the limit is not reached every task line that no fence hides is found, and no other; lines
that belong to a comment are passed over. -/
theorem map_find (settings : Settings) (reading : Reading) (numbered : List (Text × Nat))
    (hlimit : numbered.length ≤ reading.left + reading.skip)
    (hskip : ∀ entry ∈ numbered.take reading.skip, Line.isFence entry.1 = false ∧
      Line.isTask entry.1 = false) :
    (find settings reading numbered).map (fun found => (found.line, found.number)) =
      openLines reading.fenced numbered := by
  induction numbered generalizing reading with
  | nil => rfl
  | cons entry rest ih =>
    obtain ⟨line, number⟩ := entry
    obtain ⟨heading, fenced, left, skip⟩ := reading
    rw [List.length_cons] at hlimit
    cases skip with
    | succ skip =>
      rw [List.take_succ_cons, List.forall_mem_cons] at hskip
      obtain ⟨⟨hfence, htask⟩, hskip⟩ := hskip
      rw [find, ih _ (by simp only at hlimit ⊢; omega) hskip, openLines]
      simp [hfence, htask]
    | zero =>
      cases left with
      | zero => simp at hlimit
      | succ left =>
        simp only [Nat.add_zero, Nat.add_le_add_iff_right] at hlimit
        -- with no line to skip the rest is read as it stands
        have hrest : ∀ heading fenced, (find settings ⟨heading, fenced, left, 0⟩ rest).map
            (fun found => (found.line, found.number)) =
            openLines fenced rest := fun heading fenced =>
              ih ⟨heading, fenced, left, 0⟩ hlimit (by simp)
        rw [find, openLines]
        dsimp only
        cases hfence : Line.isFence line with
        | true => exact hrest heading (!fenced)
        | false =>
          cases fenced with
          | true => exact hrest heading true
          | false =>
            simp only [Bool.false_eq_true, if_false, Bool.not_false, Bool.true_and]
            cases htask : Line.task? line with
            | none =>
              have hisTask : Line.isTask line = false := by rw [Line.isTask_eq_isSome, htask]; rfl
              rw [hisTask]
              cases (if settings.readsHeadings then Line.heading? line else none) with
              | none => exact hrest heading false
              | some heading => exact hrest (some heading) false
            | some parts =>
              have hisTask : Line.isTask line = true := by rw [Line.isTask_eq_isSome, htask]; rfl
              have hheading : (if settings.readsHeadings then Line.heading? line else none) = none := by
                rw [Line.heading?_of_isTask hisTask, ite_self]
              rw [hisTask, hheading]
              simp only [if_true, List.map_cons, List.cons.injEq, true_and]
              exact ih ⟨heading, false, left, _⟩ (Nat.le_add_right_of_le hlimit) fun entry hentry =>
                isComment_eq_true (isComment_of_mem_take hentry)

theorem headerLength_eq_zero {lines : List Text}
    (h : ∀ line ∈ lines, Header.isRule (Header.withoutMark line) = false) :
    headerLength lines = 0 := by
  cases lines with
  | nil => rfl
  | cons first rest => rw [headerLength, h first List.mem_cons_self, if_neg Bool.false_ne_true]

theorem headerLength_le (lines : List Text) : headerLength lines ≤ lines.length := by
  cases lines with
  | nil => exact Nat.le_refl 0
  | cons first rest =>
    rw [headerLength]
    split
    · cases hend : rest.findIdx? Header.isRule with
      | none => exact Nat.zero_le _
      | some last =>
        have hlt := (List.findIdx?_eq_some_iff_getElem.1 hend).1
        simp only [Option.map_some, Option.getD_some, List.length_cons]
        omega
    · exact Nat.zero_le _

theorem countingLines_eq (lines : List Text) :
    countingLines lines = openLines false (lines.zipIdx.drop (headerLength lines)) := by
  have hlength : (lines.take (headerLength lines)).length = headerLength lines := by
    rw [List.length_take, Nat.min_eq_left (headerLength_le lines)]
  have hparts : lines.zipIdx = (lines.take (headerLength lines)).zipIdx ++
      (lines.drop (headerLength lines)).zipIdx (headerLength lines) := by
    conv_lhs => rw [← List.take_append_drop (headerLength lines) lines]
    rw [List.zipIdx_append, hlength, Nat.zero_add]
  have habove : ((lines.take (headerLength lines)).zipIdx.filter fun entry =>
      counts lines entry.1 entry.2) = [] := by
    rw [List.filter_eq_nil_iff]
    intro entry hentry hcounts
    have hlt := (List.mem_zipIdx hentry).2.1
    simp only [counts, Bool.and_eq_true, decide_eq_true_eq] at hcounts
    omega
  rw [countingLines, hparts, List.filter_append, habove, List.nil_append,
    List.drop_left' (by rw [List.length_zipIdx, hlength]), openLines_eq]
  refine List.filter_congr fun entry hentry => ?_
  have hge := (List.mem_zipIdx hentry).1
  rw [counts, fencesAbove, List.drop_take, decide_eq_true hge, Bool.true_and,
    Bool.toNat_false, Nat.zero_add]

/-- The lines found are those that count, if no more lines than the limit stand below the header. -/
theorem map_found {settings : Settings} {note : Note}
    (h : (lines note.content).length - headerLength (lines note.content) ≤ settings.lineLimit) :
    (note.found settings).map (fun found => (found.line, found.number)) =
      countingLines (lines note.content) := by
  rw [found, taskLines, firstLine_eq, map_find _ _ _ (by simpa using h) (by simp), countingLines_eq]

/-- Every task line that counts becomes a task, in order, and nothing else does; the task has the
line, its number, and the id that the path and the number make up. -/
theorem tasks_countingLines {settings : Settings} {today : Date} {note : Note} {tasks : List Task}
    (hlimit : (lines note.content).length - headerLength (lines note.content) ≤ settings.lineLimit)
    (h : note.tasks settings today = .ok tasks) :
    tasks.map (fun task => (task.lineText, task.line)) =
      (countingLines (lines note.content)).map (fun entry => (entry.1, (entry.2 : Int))) ∧
    ∀ task ∈ tasks, task.path = note.path ∧ task.id = Task.idOf note.path task.line := by
  have hplaced := forall₂_isPlaced_tasks h
  constructor
  · rw [← map_found hlimit, ← map_found_places, List.map_map, List.map_map]
    exact (Result.map_eq_map (fun _ _ hplace =>
      Prod.ext hplace.lineText_eq.symm hplace.line_eq.symm) hplaced).symm
  · intro task htask
    obtain ⟨entry, -, hplace⟩ := Result.exists_left_of_mem hplaced htask
    exact ⟨hplace.path_eq, by rw [hplace.id_eq, hplace.line_eq]⟩

/-- A note with a header between rules that end with carriage returns, a comment, a heading
and fences. -/
def mixedNote : Note where
  path := "a.md".toList
  content :=
    "\ufeff---\r\n- [ ] x: 1\r\n--- \r\n- [ ] one\r\n    more\n# Top\n```\n- [ ] two\n```\n  - [x] three".toList

theorem tasks_countingLines_mixed :
    ∃ tasks, mixedNote.tasks { readsComments := true, readsHeadings := true } ⟨2024, 3, 13, rfl⟩ =
      .ok tasks ∧
    tasks.map (fun task => (task.lineText, task.line)) =
        [("- [ ] one".toList, 3), ("  - [x] three".toList, 9)] := by
  have hsome :
      (mixedNote.tasks { readsComments := true, readsHeadings := true }
        ⟨2024, 3, 13, rfl⟩).toOption.isSome = true := by decide +kernel
  cases htasks : mixedNote.tasks { readsComments := true, readsHeadings := true }
      ⟨2024, 3, 13, rfl⟩ with
  | error cause =>
    rw [htasks] at hsome
    cases hsome
  | ok tasks =>
    refine ⟨tasks, rfl, ?_⟩
    rw [(tasks_countingLines (by decide +kernel) htasks).1]
    decide +kernel

end Note
end Checklist
