import Checklist.Line
import Checklist.Proofs.Text
import Mathlib.Data.List.Basic

/-! # Task lines are read as they are written

Main statement: the parts of a task line are read from the line that they make up
(`task?_render`). -/

namespace Checklist
set_option autoImplicit false
open Text

namespace Line

/-! ## List markers -/

/-- A bullet, or a number with a dot or a parenthesis. -/
inductive IsMarker : Text → Prop where
  | bullet {c : Char} (hc : isBullet c = true) : IsMarker [c]
  | number {digits : Text} {c : Char} (hne : digits ≠ [])
      (hdigits : ∀ d ∈ digits, isDecimal d = true) (hc : c = '.' ∨ c = ')') :
      IsMarker (digits ++ [c])

theorem isBullet_cases {c : Char} (h : isBullet c = true) : c = '-' ∨ c = '*' ∨ c = '+' := by
  simpa [isBullet, or_assoc] using h

theorem marker?_eq_some_iff {s marker rest : Text} : marker? s = some (marker, rest) ↔
    IsMarker marker ∧ s = marker ++ rest := by
  constructor
  · intro h
    refine ⟨?_, marker?_eq_some h⟩
    unfold marker? at h
    split at h
    · simp only [Option.ite_none_right_eq_some, Option.some.injEq, Prod.mk.injEq] at h
      obtain ⟨hc, rfl, -⟩ := h
      exact .bullet hc
    · rename_i d ds c rest' htake _
      simp only [Option.ite_none_right_eq_some, Option.some.injEq, Prod.mk.injEq,
        Bool.or_eq_true, beq_iff_eq] at h
      obtain ⟨hc, rfl, -⟩ := h
      have hdigits := forall_mem_takeWhile isDecimal s
      rw [htake] at hdigits
      exact .number (by simp) hdigits hc
    · cases h
  · rintro ⟨hmarker, rfl⟩
    cases hmarker with
    | @bullet c hc =>
      have hdecimal : isDecimal c = false := by
        rcases isBullet_cases hc with rfl | rfl | rfl <;> decide
      simp [marker?, hdecimal, hc]
    | @number digits c hne hdigits hc =>
      have hdecimal : isDecimal c = false := by
        rcases hc with rfl | rfl <;> decide
      have htake := @takeWhile_append_cons _ digits rest c hdigits hdecimal
      have hdrop := @dropWhile_append_cons _ digits rest c hdigits hdecimal
      obtain ⟨d, ds, rfl⟩ := List.exists_cons_of_ne_nil hne
      rw [List.append_assoc, List.singleton_append, marker?, htake, hdrop]
      rcases hc with rfl | rfl <;> simp

/-- A list marker starts with a bullet or a digit: not with what an indent, a fence or a heading
is made of. -/
theorem IsMarker.head {marker : Text} (h : IsMarker marker) : ∃ c rest, marker = c :: rest ∧
    isIndent c = false ∧ c ∉ ['\x60', '~', '#'] := by
  cases h with
  | @bullet c hc =>
    refine ⟨c, [], rfl, ?_⟩
    rcases isBullet_cases hc with rfl | rfl | rfl <;> decide
  | @number digits c hne hdigits _ =>
    obtain ⟨d, ds, rfl⟩ := List.exists_cons_of_ne_nil hne
    have hd := forall_decimal (p := fun c => !isIndent c && !(['\x60', '~', '#'].contains c))
      (by decide +kernel) (hdigits d List.mem_cons_self)
    simp only [Bool.and_eq_true, Bool.not_eq_true', List.contains_eq_mem, decide_eq_false_iff_not] at hd
    exact ⟨d, ds ++ [c], rfl, hd.1, hd.2⟩

/-! ## Lines -/

end Line

/-- The parts of a line that lies on its own: an indent, a list marker, and a content without
blanks around it. -/
structure TaskLine.IsWellFormed (parts : TaskLine) : Prop where
  indent : ∀ c ∈ parts.indent, Line.isIndent c = true
  marker : Line.IsMarker parts.marker
  content : parts.content = [] ∨ IsTrimmed parts.content
  line : '\n' ∉ Line.render parts

namespace Line

variable {parts : TaskLine}

def contentText (content : Text) : Text :=
  if content.isEmpty then [] else ' ' :: content

theorem render_eq (parts : TaskLine) : render parts =
    parts.indent ++
      (parts.marker ++ ' ' :: '[' :: parts.status :: ']' :: contentText parts.content) := by
  simp [render, contentText]

theorem trimStart_contentText {content : Text} (h : content = [] ∨ IsTrimmed content) :
    trimStart (contentText content) = content := by
  rcases h with rfl | h
  · rfl
  · have hempty : content.isEmpty = false := by simpa using h.ne_nil
    rw [contentText, hempty, trimStart]
    simp only [Bool.false_eq_true, if_false]
    rw [List.dropWhile_cons_of_pos (by decide)]
    exact trimStart_eq_self h.head

theorem onOneLine_of_notMem {s : Text} (h : '\n' ∉ s) : onOneLine s = true := by
  have hno : '\n' ∉ s.dropLast := fun hmem => h ((List.dropLast_sublist s).mem hmem)
  simpa [onOneLine] using hno

theorem notMem_contentText {content : Text} (h : '\n' ∉ content) : '\n' ∉ contentText content := by
  unfold contentText
  split
  · exact List.not_mem_nil
  · simpa using h

theorem notMem_content (h : parts.IsWellFormed) : '\n' ∉ parts.content := by
  by_cases hempty : parts.content = []
  · simp [hempty]
  · have hline := h.line
    rw [render_eq, contentText] at hline
    simp only [hempty, List.isEmpty_iff, if_false, List.mem_append, List.mem_cons, not_or] at hline
    exact hline.2.2.2.2.2.2.2

theorem notMem_render_iff {c : Char} : c ∉ render parts ↔ c ∉ parts.indent ∧ c ∉ parts.marker ∧
    c ∉ " [".toList ∧ c ∉ [parts.status, ']'] ∧
    c ∉ contentText parts.content := by
  simp [render, contentText, and_assoc]

/-- A line is taken apart where an indent, a list marker, one blank and a checkbox follow each
other; there is one such place. -/
theorem split?_eq_some_iff {s : Text} : split? s = some parts ↔ ∃ gap rest,
    s = parts.indent ++ (parts.marker ++ gap :: '[' :: parts.status :: ']' :: rest) ∧
      (∀ c ∈ parts.indent, isIndent c = true) ∧
      IsMarker parts.marker ∧ isBlank gap = true ∧ parts.status ≠ '\n' ∧
        onOneLine (trimStart rest) = true ∧ parts.content = trimStart rest := by
  constructor
  · intro h
    unfold split? at h
    split at h
    · rename_i marker gap status rest hmarker
      simp only [Option.ite_none_right_eq_some, Option.some.injEq, Bool.and_eq_true, bne_iff_ne] at h
      obtain ⟨⟨⟨hgap, hstatus⟩, hline⟩, rfl⟩ := h
      obtain ⟨hisMarker, hdrop⟩ := marker?_eq_some_iff.1 hmarker
      refine ⟨gap, rest, ?_, forall_mem_takeWhile _ _, hisMarker, hgap, hstatus, hline, rfl⟩
      rw [← hdrop, List.takeWhile_append_dropWhile]
    · cases h
  · rintro ⟨gap, rest, rfl, hindent, hmarker, hgap, hstatus, hline, hcontent⟩
    obtain ⟨c, others, hcons, hindentFree, -⟩ := hmarker.head
    -- the indent ends where the marker starts
    have hstop : ∀ d, (parts.marker ++ gap :: '[' :: parts.status :: ']' :: rest).head? = some d →
        isIndent d = false := by
      intro d hd
      rw [hcons] at hd
      obtain rfl : c = d := by simpa using hd
      exact hindentFree
    have hread : marker? (parts.marker ++ gap :: '[' :: parts.status :: ']' :: rest) =
        some (parts.marker, gap :: '[' :: parts.status :: ']' :: rest) :=
          marker?_eq_some_iff.2 ⟨hmarker, rfl⟩
    rw [← hcontent] at hline
    rw [split?, dropWhile_append_of_stop hindent hstop, takeWhile_append_of_stop hindent hstop, hread]
    simp [hgap, hstatus, hline, ← hcontent]

theorem split?_append {indent marker rest : Text} {gap status : Char}
    (hindent : ∀ c ∈ indent, isIndent c = true) (hmarker : IsMarker marker)
    (hgap : isBlank gap = true) (hstatus : status ≠ '\n') (hrest : '\n' ∉ rest) :
    split? (indent ++ (marker ++ gap :: '[' :: status :: ']' :: rest)) =
      some ⟨indent, marker, status, trimStart rest⟩ := by
  have hline : onOneLine (trimStart rest) = true := onOneLine_of_notMem fun hmem =>
    hrest ((trimStart_suffix rest).mem hmem)
  exact split?_eq_some_iff.2 ⟨gap, rest, rfl, hindent, hmarker, hgap, hstatus, hline, rfl⟩

theorem split?_render (h : parts.IsWellFormed) : split? (render parts) = some parts := by
  have hline := h.line
  rw [render_eq] at hline ⊢
  rw [split?_append h.indent h.marker (by decide) ?_ ?_, trimStart_contentText h.content]
  · rintro hstatus
    exact hline (by simp [hstatus])
  · intro hmem
    exact hline (by simp [hmem])

theorem body_eq_self {s : Text} (h : ∀ c, s.getLast? = some c → c ≠ '\r' ∧ c ≠ '\n') :
    body s = s := by
  rw [body, trimEndWhere, List.dropWhile_eq_self_iff.2 ?_, List.reverse_reverse]
  intro hpos hlast
  have hne : s ≠ [] := by
    rintro rfl
    simp at hpos
  have hboth := h _ (List.getLast?_eq_some_getLast hne)
  rw [List.getElem_reverse] at hlast
  simp only [Nat.sub_zero, ← List.getLast_eq_getElem hne, Bool.or_eq_true, beq_iff_eq] at hlast
  rcases hlast with hlast | hlast
  · exact hboth.1 hlast
  · exact hboth.2 hlast

theorem body_render (hcontent : parts.content = [] ∨ IsTrimmed parts.content) :
    body (render parts) = render parts := by
  refine body_eq_self fun c hc => ?_
  rw [render_eq] at hc
  rcases hcontent with hempty | htrimmed
  · rw [hempty, contentText] at hc
    have hend : parts.indent ++ (parts.marker ++ ' ' :: '[' :: parts.status :: ']' :: []) =
        (parts.indent ++ parts.marker ++ [' ', '[', parts.status]) ++ [']'] := by simp
    rw [List.isEmpty_nil, if_pos rfl, hend, List.getLast?_concat, Option.some.injEq] at hc
    rw [← hc]
    decide
  · have htext : contentText parts.content = [' '] ++ parts.content := by
      simp [contentText, htrimmed.ne_nil]
    have hend : parts.indent ++
        (parts.marker ++ ' ' :: '[' :: parts.status :: ']' :: ([' '] ++ parts.content)) =
        (parts.indent ++ parts.marker ++ [' ', '[', parts.status, ']', ' ']) ++
          parts.content := by simp
    rw [htext, hend, List.getLast?_append_of_ne_nil _ htrimmed.ne_nil] at hc
    have hblank := htrimmed.last c hc
    constructor
    · rintro rfl
      exact absurd hblank (by decide)
    · rintro rfl
      exact absurd hblank (by decide)

/-- The parts of a task line are read from the line that they make up. -/
theorem task?_render (h : parts.IsWellFormed) : task? (render parts) = some parts := by
  have htrim : trim parts.content = parts.content := by
    rcases h.content with hempty | htrimmed
    · rw [hempty]
      rfl
    · exact htrimmed.trim_eq
  rw [task?, body_render h.content, split?_render h, Option.map_some, htrim]

/-! ## What a line is taken apart into -/

theorem exists_of_split? {s : Text} (h : split? s = some parts) : ∃ gap rest,
    s = parts.indent ++ (parts.marker ++ gap :: '[' :: parts.status :: ']' :: rest) ∧
      isBlank gap = true ∧ parts.content = trimStart rest ∧
      (∀ c ∈ parts.indent, isIndent c = true) ∧ IsMarker parts.marker := by
  obtain ⟨gap, rest, hs, hindent, hmarker, hgap, -, -, hcontent⟩ := split?_eq_some_iff.1 h
  exact ⟨gap, rest, hs, hgap, hcontent, hindent, hmarker⟩

theorem exists_body_append (line : Text) : ∃ ends, body line ++ ends = line := by
  refine ⟨(line.reverse.takeWhile fun c => c == '\r' || c == '\n').reverse, ?_⟩
  rw [body, trimEndWhere, ← List.reverse_append, List.takeWhile_append_dropWhile, List.reverse_reverse]

/-- The parts of a task line can be put together again, and the indent is that of the line
with its end. -/
theorem isWellFormed_of_task? {line : Text} (h : task? line = some parts) (hline : '\n' ∉ line) :
    parts.IsWellFormed ∧ ∃ rest, split? line = some { parts with content := rest } := by
  obtain ⟨found, hfound, rfl⟩ := Option.map_eq_some_iff.1 h
  obtain ⟨gap, rest, hbody, hgap, hcontent, hindent, hmarker⟩ := exists_of_split? hfound
  obtain ⟨ends, hends⟩ := exists_body_append line
  have hwhole : line = found.indent ++
      (found.marker ++ gap :: '[' :: found.status :: ']' :: (rest ++ ends)) := by
    rw [← hends, hbody]
    simp
  rw [hwhole] at hline ⊢
  have hstatus : found.status ≠ '\n' := fun hstatus => hline (by simp [hstatus])
  have hrest : '\n' ∉ rest ++ ends := fun hmem => hline (by simp [List.mem_append.1 hmem])
  refine ⟨⟨hindent, hmarker, ?_, ?_⟩, _, split?_append hindent hmarker hgap hstatus hrest⟩
  · by_cases hempty : trim found.content = []
    · exact .inl hempty
    · exact .inr (isTrimmed_trim hempty)
  · have htrimmed : '\n' ∉ trim found.content := by
      rw [hcontent]
      intro hmem
      exact hrest (List.mem_append_left _ ((List.dropWhile_sublist _).mem (mem_of_mem_trim hmem)))
    have hwhole : '\n' ∉ contentText (trim found.content) := notMem_contentText htrimmed
    simp only [List.mem_append, List.mem_cons, not_or] at hline
    exact notMem_render_iff.2 ⟨hline.1, hline.2.1, by decide, by simpa using hstatus.symm, hwhole⟩

/-! ## Task lines, fences and headings are told apart -/

theorem notMem_of_head?_trimStart {line : Text} (h : isTask line = true) {c : Char}
    (hc : (trimStart line).head? = some c) :
    c ∉ ['\x60', '~', '#'] := by
  obtain ⟨parts, hparts⟩ := Option.isSome_iff_exists.1 h
  obtain ⟨gap, rest, hbody, -, -, hindent, hmarker⟩ := exists_of_split? hparts
  obtain ⟨ends, hends⟩ := exists_body_append line
  obtain ⟨first, others, hcons, hindentFree, hfirst⟩ := hmarker.head
  have hblank : isBlank first = false := by
    rw [isIndent, Bool.or_eq_false_iff] at hindentFree
    exact hindentFree.1
  rw [← hends, hbody, hcons, List.append_assoc, List.cons_append, List.cons_append, trimStart,
    List.dropWhile_append] at hc
  split at hc
  · rw [List.dropWhile_cons_of_neg (by simp [hblank])] at hc
    obtain rfl : first = c := by simpa using hc
    exact hfirst
  · -- what is left of the indent starts with a quote mark
    rename_i hne
    have hdrop : (parts.indent.dropWhile isBlank).head? = some c := by
      rwa [List.head?_append_of_ne_nil _ (by simpa using hne)] at hc
    have hmem : c ∈ parts.indent := (List.dropWhile_sublist _).mem (List.mem_of_mem_head? hdrop)
    have hsolid := List.head?_dropWhile_not isBlank parts.indent
    rw [hdrop] at hsolid
    have hquote : c = '>' := by simpa [isIndent, hsolid] using hindent c hmem
    rw [hquote]
    decide

theorem isFence_of_isTask {line : Text} (h : isTask line = true) : isFence line = false := by
  have hno : ∀ mark ∈ ['\x60', '~', '#'], [mark, mark, mark].isPrefixOf (trim line) = false := by
    intro mark hmark
    by_contra hfence
    obtain ⟨rest, hrest⟩ :=
      (List.isPrefixOf_iff_prefix.1 (by simpa using hfence)).trans (isPrefix_trim line)
    exact notMem_of_head?_trimStart h (by rw [← hrest]; rfl) hmark
  exact Bool.or_eq_false_iff.2 ⟨hno '\x60' (by decide), hno '~' (by decide)⟩

theorem heading?_of_isTask {line : Text} (h : isTask line = true) : heading? line = none := by
  have hlevel : (trimStart line).takeWhile (· == '#') = [] := by
    cases hstart : trimStart line with
    | nil => rfl
    | cons c rest =>
      have hc := notMem_of_head?_trimStart h (by rw [hstart]; rfl)
      have hno : c ≠ '#' := fun hsign => hc (by simp [hsign])
      exact List.takeWhile_cons_of_neg (by simpa using hno)
  unfold heading?
  rw [hlevel]
  split <;> rfl

theorem isTask_eq_isSome (line : Text) : isTask line = (task? line).isSome := by
  rw [isTask, task?, Option.isSome_map]

end Line

theorem TaskLine.IsWellFormed.withContent {parts : TaskLine} (h : parts.IsWellFormed)
    {content : Text} (hcontent : content = [] ∨ IsTrimmed content)
    (hline : '\n' ∉ content) : ({ parts with content := content } : TaskLine).IsWellFormed := by
  obtain ⟨hindent, hmarker, hgap, hbox, -⟩ := Line.notMem_render_iff.1 h.line
  exact ⟨h.indent, h.marker, hcontent,
    Line.notMem_render_iff.2 ⟨hindent, hmarker, hgap, hbox, Line.notMem_contentText hline⟩⟩

end Checklist
