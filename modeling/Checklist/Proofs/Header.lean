import Checklist.Proofs.Note.Lines

/-! # The lines that a header is read from

A header is skipped up to the line of three dashes that ends it, but its data is read up to any line
of three or more. Main statements: the data of a header are the lines between its rules, from the
first that is not blank and before the first line of dashes (`data?_eq`), so a header without longer
lines of dashes is read as the mapping that its lines make up (`read_eq_mapping`). -/

namespace Checklist.Header
set_option autoImplicit false
open Text

/-- The lines between the first line of a text and the one with the given number, without the
carriage returns at their ends. -/
def innerLines (s : Text) (last : Nat) : List Text :=
  ((lines (withoutMark s)).take last).drop 1

/-- Lines as a text, each with a line feed behind it. -/
def textOf (lines : List Text) : Text :=
  lines.flatMap fun line => line ++ ['\n']

/-- The entries of a mapping; any other value has none. -/
def mapping : Value → Entries
  | .map entries => entries
  | _ => []

/-! ## Rules -/

theorem isBound_of_prefix {blanks line : Text} (hblanks : ∀ c ∈ blanks, isBlank c = true)
    (hdashes : "---".toList <+: line)
    (hline : line <+: "---".toList ++ blanks) : isBound line = true := by
  obtain ⟨rest, rfl⟩ := hdashes
  have hrest : ∀ c ∈ rest, isBlank c = true :=
    fun c hc => hblanks c (((List.prefix_append_right_inj _).1 hline).mem hc)
  have hdrop : ("---".toList ++ rest).dropWhile (· == '-') = rest.dropWhile (· == '-') :=
    List.dropWhile_append_of_pos (by decide)
  rw [isBound, hdrop, Bool.and_eq_true]
  exact ⟨List.isPrefixOf_iff_prefix.2 (List.prefix_append _ _),
    List.all_eq_true.2 fun c hc => hrest c ((List.dropWhile_suffix _).mem hc)⟩

theorem exists_of_isRule {line : Text} (h : isRule line = true) :
    ∃ blanks, (∀ c ∈ blanks, isBlank c = true) ∧ line = "---".toList ++ blanks := by
  obtain ⟨blanks, hblanks, hline⟩ := exists_trimEnd_append line
  rw [beq_iff_eq.1 h] at hline
  exact ⟨blanks, hblanks, hline⟩

theorem exists_rules {s : Text} {last : Nat} (h : endLine? s = some last) : ∃ first rule after,
    lines (withoutMark s) = first :: innerLines s last ++ rule :: after ∧ isRule first = true ∧
      isRule rule = true := by
  have hpieces := Note.forall₂_isPieceOf (splitAt '\n' (withoutMark s))
  rw [← lines] at hpieces
  unfold endLine? at h
  unfold noteLines at h
  cases hsplit : splitAt '\n' (withoutMark s) with
  | nil => exact absurd hsplit (splitWhere_ne_nil _ _)
  | cons piece pieces =>
    rw [hsplit] at h hpieces
    obtain ⟨first, rest, hfirst, hrest, hlines⟩ := List.forall₂_cons_left_iff.1 hpieces
    simp only [hfirst.isRule_eq, Note.findIdx?_isRule_eq hrest, Option.ite_none_right_eq_some,
      Option.map_eq_some_iff] at h
    obtain ⟨hrule, number, hnumber, rfl⟩ := h
    obtain ⟨hlt, hlast, -⟩ := List.findIdx?_eq_some_iff_getElem.1 hnumber
    have hinner : innerLines s (number + 1) = rest.take number := by
      rw [innerLines, hlines, List.take_succ_cons, List.drop_succ_cons, List.drop_zero]
    refine ⟨first, rest[number], rest.drop (number + 1), ?_, hrule, hlast⟩
    rw [hlines, hinner, List.cons_append, List.cons.injEq]
    exact ⟨rfl, by rw [List.getElem_cons_drop, List.take_append_drop]⟩

/-! ## The data of a header -/

/-- Where the blanks at the end of a text are dropped, the line that begins the text stays a
line of dashes. -/
theorem exists_splitAt_trimEnd {rule : Text} (hrule : isRule rule = true) {after : List Text}
    (hends : ∀ line ∈ rule :: after, '\n' ∉ line) :
    ∃ bound others, splitAt '\n' (trimEnd (join ['\n'] (rule :: after))) = bound :: others ∧
      isBound bound = true := by
  obtain ⟨blanks, hblanks, rfl⟩ := exists_of_isRule hrule
  have hsplit := splitAt_join (List.cons_ne_nil _ _) hends
  have hdashes :=
    (List.prefix_append "---".toList blanks).trans
      (prefix_join ['\n'] ("---".toList ++ blanks) after)
  generalize join ['\n'] (("---".toList ++ blanks) :: after) = text at hsplit hdashes
  obtain ⟨others, hfirst⟩ := exists_splitAt_cons '\n' text
  obtain ⟨trimmed, htrimmed⟩ := exists_splitAt_cons '\n' (trimEnd text)
  have hline : text.takeWhile (· != '\n') = "---".toList ++ blanks :=
    (List.cons.inj (hfirst.symm.trans hsplit)).1
  refine ⟨_, trimmed, htrimmed, isBound_of_prefix hblanks ?_ ?_⟩
  · obtain ⟨rest, rfl⟩ := hdashes
    exact takeWhile_prefix_takeWhile (trimEnd_prefix_append "---".toList rest) (· != '\n')
  · obtain ⟨ends, -, hends⟩ := exists_trimEnd_append text
    rw [← hline]
    exact takeWhile_prefix_takeWhile ⟨ends, hends.symm⟩ _

/-- The data of a header are the lines between its rules, without the blank ones that come first, up
to the first line of dashes among them. -/
theorem data?_eq {s : Text} {last : Nat} (h : endLine? s = some last) :
    data? s =
      some (textOf (((innerLines s last).takeWhile (!isBound ·)).dropWhile isBlankText)) := by
  obtain ⟨first, rule, after, hlines, hfirst, hrule⟩ := exists_rules h
  have hends : ∀ line ∈ lines (withoutMark s), '\n' ∉ line :=
    fun line hline => notMem_of_mem_lines hline
  rw [hlines] at hends
  obtain ⟨blanks, hblanks, hdashes⟩ := exists_of_isRule hfirst
  obtain ⟨bound, others, hsplit, hbound⟩ := exists_splitAt_trimEnd hrule fun line hline =>
    hends line (List.mem_append_right _ hline)
  have hne : trimEnd (join ['\n'] (rule :: after)) ≠ [] := by
    intro hempty
    rw [hempty] at hsplit
    cases hsplit
    exact absurd hbound (by decide)
  have htrim : trim (join ['\n'] (lines (withoutMark s))) =
      join ['\n'] (first :: innerLines s last) ++
          '\n' :: trimEnd (join ['\n'] (rule :: after)) := by
    have hhead : ∀ c, (join ['\n'] (lines (withoutMark s))).head? = some c → isBlank c = false := by
      intro c hc
      obtain ⟨rest, hrest⟩ :=
        (List.prefix_append "---".toList blanks).trans
          (prefix_join ['\n'] _ (innerLines s last ++ rule :: after))
      rw [hlines, List.cons_append, hdashes, ← hrest] at hc
      obtain rfl : '-' = c := by simpa using hc
      decide
    rw [trim, trimStart_eq_self hhead, hlines,
      join_append _ _ _ (List.cons_ne_nil _ _) (List.cons_ne_nil _ _), trimEnd_append hne,
      List.append_assoc]
    rfl
  have hall : splitAt '\n' (trim (join ['\n'] (lines (withoutMark s)))) =
      first :: innerLines s last ++ bound :: others := by
    rw [htrim, splitAt, splitWhere_append_cons (by simp), ← splitAt, ← splitAt, hsplit,
      splitAt_join (List.cons_ne_nil _ _) fun line hline =>
        hends line (List.mem_append_left _ hline)]
  have hisBound : isBound first = true :=
    isBound_of_prefix hblanks (hdashes ▸ List.prefix_append _ _) (hdashes ▸ List.prefix_rfl)
  unfold data?
  simp only [hall]
  rw [List.cons_append, List.dropWhile_cons_of_neg (by simp [hisBound])]
  simp only [List.any_append, List.any_cons, hbound, Bool.true_or, Bool.or_true,
    if_true, Option.some.injEq]
  rw [List.takeWhile_append, List.takeWhile_cons_of_neg (by simp [hbound]), List.append_nil]
  split
  · rename_i hlength
    rw [textOf, (List.takeWhile_prefix _).eq_of_length hlength]
  · rfl

/-! ## The entries of a header -/

/-- A header is read as the mapping that the lines between its rules make up, provided that none of
these lines is one of dashes. Blank lines that come first among them are left out, which must make
no difference to what they make up. -/
theorem read_eq_mapping {load : Yaml.Loader} {s : Text} {last : Nat} {entries : Entries}
    (hend : endLine? s = some last) (hread : read load s = .ok entries)
    (hbound : ∀ line ∈ innerLines s last, isBound line = false)
    (hblank : load (textOf ((innerLines s last).dropWhile isBlankText)) =
      load (textOf (innerLines s last))) :
    ∃ value, load (textOf (innerLines s last)) = .ok value ∧ entries = mapping value := by
  have hinner : (innerLines s last).takeWhile (!isBound ·) = innerLines s last :=
    List.takeWhile_eq_self_iff.2 fun line hline => by simp [hbound line hline]
  have hhas : has s = true := by rw [has, hend, Option.isSome_some]
  rw [read, if_pos hhas, data?_eq hend, hinner] at hread
  simp only [hblank] at hread
  cases hload : load (textOf (innerLines s last)) with
  | error cause =>
    rw [hload] at hread
    cases hread
  | ok value =>
    rw [hload] at hread
    refine ⟨value, rfl, ?_⟩
    cases value with
    | map pairs =>
      dsimp only at hread
      split at hread
      · cases hread
        rfl
      · cases hread
    | _ =>
      cases hread
      rfl

/-- A text whose header holds short lines of dashes, between rules that end with blanks, and which
has longer ones below. -/
def dashedText : Text :=
  "\ufeff---\r\na: 1\r\n\r\nb: |\r\n --\r\n--- \r\n- [ ] x\r\n-----\r\n".toList

theorem read_eq_mapping_dashed : ∃ entries value, read standardLoader dashedText = .ok entries ∧
    entries.map (fun entry => entry.1.str?) = [some "a".toList, some "b".toList] ∧
    standardLoader (textOf (innerLines dashedText 5)) = .ok value ∧ entries = mapping value := by
  have hkeys : ((read standardLoader dashedText).map fun entries => entries.map fun entry =>
      entry.1.str?).toOption = some [some "a".toList, some "b".toList] := by
    decide +kernel
  obtain ⟨entries, hread, hkeys⟩ := Result.exists_of_map hkeys
  have hfirst : (innerLines dashedText 5).dropWhile isBlankText =
      innerLines dashedText 5 := by decide +kernel
  obtain ⟨value, hload, hentries⟩ :=
    read_eq_mapping (by decide +kernel : endLine? dashedText = some 5) hread
      (by decide +kernel) (by rw [hfirst])
  exact ⟨entries, value, hread, hkeys, hload, hentries⟩

def brokenText : Text :=
  "---\na: 1\n-----\nb: 2\n---\n- [ ] x".toList

/-- The data below a longer line of dashes is skipped as part of the header, but not read, although
the header as a whole is no mapping. -/
theorem skipped_and_not_read : endLine? brokenText = some 4 ∧
    (∃ entries, read standardLoader brokenText = .ok entries ∧
      entries.map (fun entry => (entry.1.str?, entry.2.integral?)) = [(some "a".toList, some 1)]) ∧
      ∀ value, standardLoader (textOf (innerLines brokenText 4)) ≠ .ok value := by
  have hentries : ((read standardLoader brokenText).map fun entries => entries.map fun entry =>
      (entry.1.str?, entry.2.integral?)).toOption =
      some [(some "a".toList, some 1)] := by decide +kernel
  have hnone : (standardLoader (textOf (innerLines brokenText 4))).toOption.isSome =
      false := by decide +kernel
  refine ⟨by decide +kernel, Result.exists_of_map hentries, fun value hload => ?_⟩
  rw [hload] at hnone
  cases hnone

end Checklist.Header
