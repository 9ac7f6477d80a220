import Checklist.Proofs.Note.SingleLine

/-! # Lines above a task line

The indent of a task line may hold line feeds, and then the task line stands below lines of blanks
and quote marks. Main statement: such a text has that one task line, if the limit lets so many lines
be read, and none otherwise (`found_below`). -/

namespace Checklist
set_option autoImplicit false
open Text

namespace Text

/-! ## A line below others -/

theorem exists_splitAt_append {rest : Text} (hrest : '\n' ∉ rest) (lead : Text) :
    ∃ above last, splitAt '\n' (lead ++ rest) = above ++ [last ++ rest] ∧
    above.length = lead.count '\n' ∧ ∀ piece ∈ above ++ [last], ∀ c ∈ piece, c ∈ lead := by
  induction lead with
  | nil => exact ⟨[], [], splitAt_of_notMem hrest, rfl, by simp⟩
  | cons c lead ih =>
    obtain ⟨above, last, hsplit, hlength, hmem⟩ := ih
    have htail : ∀ piece ∈ above ++ [last], ∀ d ∈ piece, d ∈ c :: lead := fun piece hpiece d hd =>
      List.mem_cons_of_mem _ (hmem piece hpiece d hd)
    rw [splitAt] at hsplit ⊢
    rw [List.cons_append, splitWhere]
    by_cases hfeed : c = '\n'
    · subst hfeed
      refine ⟨[] :: above, last, by simp [hsplit], by simp [hlength], fun piece hpiece => ?_⟩
      rcases List.mem_cons.1 hpiece with rfl | hpiece
      · simp
      · exact htail piece hpiece
    · have hlength' : above.length =
          (c :: lead).count '\n' := by rw [hlength, List.count_cons_of_ne hfeed]
      rw [if_neg (by simpa using hfeed), hsplit]
      cases above with
      | nil =>
        refine ⟨[], c :: last, rfl, hlength', fun piece hpiece d hd => ?_⟩
        obtain rfl := List.mem_singleton.1 hpiece
        exact (List.mem_cons.1 hd).elim (fun heq => heq ▸ List.mem_cons_self)
          (htail last (List.mem_singleton_self _) d)
      | cons first above =>
        refine ⟨(c :: first) :: above, last, rfl, hlength', fun piece hpiece d hd => ?_⟩
        rcases List.mem_cons.1 hpiece with rfl | hpiece
        · exact (List.mem_cons.1 hd).elim (fun heq => heq ▸ List.mem_cons_self)
            (htail first List.mem_cons_self d)
        · exact htail piece (List.mem_cons_of_mem _ hpiece) d hd

theorem exists_go_concat (above : List Text) (last : Text) : ∃ shorter :
    List Text, lines.go (above ++ [last]) = shorter ++ [last] ∧
    List.Forall₂ (fun piece line : Text => line <+: piece) above shorter := by
  induction above with
  | nil => exact ⟨[], rfl, .nil⟩
  | cons piece above ih =>
    obtain ⟨shorter, hgo, hprefix⟩ := ih
    refine ⟨(if piece.getLast? == some '\r' then piece.dropLast else piece) :: shorter, ?_,
      .cons ?_ hprefix⟩
    · rw [List.cons_append, List.cons_append, ← hgo]
      cases above <;> rfl
    · split
      · exact List.dropLast_prefix piece
      · exact List.prefix_refl piece

/-- The lines of a text that ends with a given text: those that its lead fills, and the last one. -/
theorem exists_lines_append {rest : Text} (hrest : '\n' ∉ rest) (lead : Text) :
    ∃ above last, lines (lead ++ rest) = above ++ [last ++ rest] ∧
    above.length = lead.count '\n' ∧ (∀ line ∈ above, ∀ c ∈ line, c ∈ lead) ∧
      ∀ c ∈ last, c ∈ lead := by
  obtain ⟨pieces, last, hsplit, hlength, hmem⟩ := exists_splitAt_append hrest lead
  obtain ⟨above, hgo, hprefix⟩ := exists_go_concat pieces (last ++ rest)
  refine ⟨above, last, by rw [lines, hsplit, hgo], by rw [← hprefix.length_eq, hlength],
    fun line hline c hc => ?_, hmem last (by simp)⟩
  obtain ⟨piece, hpiece, hstarts⟩ := Result.exists_left_of_mem hprefix hline
  exact hmem piece (List.mem_append_left _ hpiece) c (hstarts.subset hc)

end Text

/-! ## Lines that are passed over -/

namespace Line

/-- The line is no task line, no fence and no heading. -/
structure IsIdle (line : Text) : Prop where
  fence : isFence line = false
  heading : heading? line = none
  task : task? line = none

theorem isIdle_of_forall {line : Text} (h : ∀ c ∈ line, isIndent c = true) : IsIdle line := by
  have hno : ∀ {c : Char} {s : Text}, isIndent c = false → s ⊆ line → c ∉ s :=
    fun hc hs hmem => absurd (h _ (hs hmem)) (by simp [hc])
  constructor
  case fence =>
    have hmark : ∀ c : Char, isIndent c = false → [c, c, c].isPrefixOf (trim line) = false := by
      intro c hc
      by_contra hfence
      have hstarts :=
        List.isPrefixOf_iff_prefix.1
          (by simpa using hfence : [c, c, c].isPrefixOf (trim line) = true)
      exact hno hc (fun d hd => mem_of_mem_trim hd) (hstarts.subset List.mem_cons_self)
    exact Bool.or_eq_false_iff.2 ⟨hmark '\x60' (by decide), hmark '~' (by decide)⟩
  case heading =>
    have hlevel : (trimStart line).takeWhile (· == '#') = [] := by
      cases hstart : trimStart line with
      | nil => rfl
      | cons c rest =>
        have hsub : trimStart line ⊆ line := (trimStart_suffix line).subset
        have hsign : c ≠ '#' := by
          rintro rfl
          exact hno (by decide) hsub (hstart ▸ List.mem_cons_self)
        exact List.takeWhile_cons_of_neg (by simpa using hsign)
    unfold heading?
    rw [hlevel]
    split <;> rfl
  case task =>
    obtain ⟨ends, hends⟩ := exists_body_append line
    have hbody : (body line).dropWhile isIndent = [] := by
      rw [List.dropWhile_eq_nil_iff]
      exact fun c hc => h c (hends ▸ List.mem_append_left _ hc)
    rw [task?, split?, hbody]
    rfl

end Line

namespace Note

variable {settings : Settings} {path : Text}

theorem find_append {above : List (Text × Nat)} (h : ∀ entry ∈ above, Line.IsIdle entry.1)
    (heading : Option Heading) (left : Nat) (rest : List (Text × Nat)) :
    find settings ⟨heading, false, left, 0⟩ (above ++ rest) =
      find settings ⟨heading, false, left - above.length, 0⟩ rest := by
  induction above generalizing left with
  | nil => rfl
  | cons entry above ih =>
    obtain ⟨line, number⟩ := entry
    have hidle := h _ List.mem_cons_self
    cases left with
    | zero =>
      rw [Nat.zero_sub]
      cases rest <;> simp [find]
    | succ left =>
      have hheading : (if settings.readsHeadings then Line.heading? line else none) =
          none := by rw [hidle.heading, ite_self]
      rw [List.cons_append, find]
      simp only [hidle.fence, hheading, hidle.task, Bool.false_eq_true, if_false]
      rw [ih (fun other hother => h other (List.mem_cons_of_mem _ hother)), List.length_cons,
        Nat.add_sub_add_right]

theorem isRule_eq_false {line : Text} (h : '-' ∉ line ∨ '[' ∈ line) :
    Header.isRule (Header.withoutMark line) = false := by
  rw [← Bool.not_eq_true]
  intro hrule
  have hrule : trimEnd (Header.withoutMark line) = "---".toList := beq_iff_eq.1 hrule
  obtain ⟨ends, hends, hbody⟩ := exists_trimEnd_append (Header.withoutMark line)
  have hline := List.takeWhile_append_dropWhile (p := (· == '\ufeff')) (l := line)
  rw [← Header.withoutMark, hbody, hrule] at hline
  rcases h with hdash | hbracket
  · exact hdash (by rw [← hline]; simp)
  · rw [← hline] at hbracket
    simp only [List.mem_append] at hbracket
    rcases hbracket with hmark | hdashes | hblank
    · exact absurd (forall_mem_takeWhile _ _ _ hmark) (by decide)
    · exact absurd hdashes (by decide)
    · exact absurd (hends _ hblank) (by decide)

/-- The task line that stands below the lines that its lead fills. -/
theorem found_below {parts : TaskLine} (hparts : parts.IsWellFormed) (hindent : parts.indent = [])
    {lead : Text} (hlead : ∀ c ∈ lead, Line.isIndent c = true) :
    ∃ last, ({ parts with indent := last } : TaskLine).IsWellFormed ∧
      Note.found settings { path := path, content := lead ++ Line.render parts, header := some [] } =
        if lead.count '\n' < settings.lineLimit then
          [⟨lead.count '\n', Line.render { parts with indent := last },
           { parts with indent := last }, Line.width settings.tabSize last, none, none⟩]
        else [] := by
  obtain ⟨above, last, hlines, hlength, habove, hlast⟩ := exists_lines_append hparts.line lead
  have hline : last ++ Line.render parts = Line.render { parts with indent := last } := by
    simp [Line.render, hindent]
  have hends : '\n' ∉ last ++ Line.render parts :=
      notMem_of_mem_lines (s := lead ++ Line.render parts) (by rw [hlines]; simp)
  rw [hline] at hlines hends
  have hwell : ({ parts with indent := last } : TaskLine).IsWellFormed :=
    ⟨fun c hc => hlead c (hlast c hc), hparts.marker, hparts.content, hends⟩
  refine ⟨last, hwell, ?_⟩
  have hidle : ∀ line ∈ above, Line.IsIdle line ∧ '-' ∉ line := by
    intro line hline
    have hall : ∀ c ∈ line, Line.isIndent c = true := fun c hc => hlead c (habove line hline c hc)
    exact ⟨Line.isIdle_of_forall hall, fun hdash => absurd (hall _ hdash) (by decide)⟩
  have hfirst : Note.firstLine
      { path := path, content := lead ++ Line.render parts, header := some [] } = 0 := by
    rw [firstLine_eq, hlines]
    refine headerLength_eq_zero fun line hline => isRule_eq_false ?_
    rcases List.mem_append.1 hline with habove | hlast
    · exact .inl (hidle line habove).2
    · right
      rw [List.mem_singleton.1 hlast, Line.render]
      simp
  have htask := Line.task?_render hwell
  have hisTask : Line.isTask (Line.render { parts with indent := last }) = true := by
    rw [Line.isTask_eq_isSome, htask]
    rfl
  have hheading : (if settings.readsHeadings then
      Line.heading? (Line.render { parts with indent := last }) else none) = none := by
    rw [Line.heading?_of_isTask hisTask, ite_self]
  have hcomment : ∀ indent, commentLines settings indent [] = [] :=
    fun indent => List.prefix_nil.1 (isPrefix_commentLines settings indent [])
  rw [Note.found, hfirst, taskLines, hlines, List.drop_zero, List.zipIdx_append,
    find_append fun entry hentry => (hidle _ (List.fst_mem_of_mem_zipIdx hentry)).1,
    List.length_zipIdx, hlength, Nat.zero_add]
  by_cases hlimit : lead.count '\n' < settings.lineLimit
  · obtain ⟨left, hleft⟩ := Nat.exists_eq_succ_of_ne_zero (Nat.sub_ne_zero_of_lt hlimit)
    rw [if_pos hlimit, hleft]
    simp [find, Line.isFence_of_isTask hisTask, hheading, htask, hcomment, commentText]
  · rw [if_neg hlimit, Nat.sub_eq_zero_of_le (Nat.le_of_not_lt hlimit)]
    simp [find]

end Note
end Checklist
