import Checklist.Proofs.Line
import Mathlib.Data.List.DropRight
import Mathlib.Order.Bounds.Basic

/-! # Task lines are taken apart in one way

What a task line is made of is said without a scan: the parts stand one behind the other, whatever
is taken for the indent and for the blanks before the content (`IsMadeOf`). Main statements: a line
is read as the parts that it is made of, and it is made of no others (`task?_eq_some_iff`); put
together again, the parts are read as they were, and the indent is as wide as its tab stops say
(`task?_assembled`). -/

namespace Checklist
set_option autoImplicit false
open Text

namespace Text

theorem trim_trimStart (s : Text) : trim (trimStart s) = trim s := by
  rw [trim, trim, trimStart, trimStart, List.dropWhile_idempotent]

end Text

namespace Line

variable {line s : Text} {parts : TaskLine} {tabSize column : Nat} {indent : Text}

/-! ## What a line is made of -/

/-- An indent, a list marker, a blank, a checkbox, and a content between blanks. Only blanks may
hold a line feed. -/
inductive IsMadeOf : Text → TaskLine → Prop where
  | intro {indent marker blanks text : Text} {gap status : Char}
      (hindent : ∀ c ∈ indent, isIndent c = true) (hmarker : IsMarker marker)
      (hgap : isBlank gap = true) (hstatus : status ≠ '\n')
        (hblanks : ∀ c ∈ blanks, isBlank c = true) (htext : '\n' ∉ text) :
      IsMadeOf (indent ++ (marker ++ gap :: '[' :: status :: ']' :: (blanks ++ text)))
        ⟨indent, marker, status, trim text⟩

theorem ne_of_getLast?_body {c : Char} (h : (body line).getLast? = some c) : c ≠ '\n' := by
  rw [body, trimEndWhere, List.getLast?_reverse] at h
  have hkept := List.head?_dropWhile_not (fun c => c == '\r' || c == '\n') line.reverse
  rw [h] at hkept
  rintro rfl
  simp at hkept

theorem notMem_of_onOneLine (h : onOneLine s = true) (hlast : ∀ c, s.getLast? = some c → c ≠ '\n') :
    '\n' ∉ s := by
  intro hmem
  have hne := List.ne_nil_of_mem hmem
  rw [← List.dropLast_append_getLast hne, List.mem_append, List.mem_singleton] at hmem
  rcases hmem with hmem | hmem
  · simp [onOneLine, hmem] at h
  · exact hlast _ (List.getLast?_eq_some_getLast hne) hmem.symm

/-- A line is read as the parts that it is made of. -/
theorem task?_eq_some_iff : task? line = some parts ↔ IsMadeOf (body line) parts := by
  constructor
  · intro h
    obtain ⟨found, hfound, rfl⟩ := Option.map_eq_some_iff.1 h
    obtain ⟨gap, rest, hbody, hindent, hmarker, hgap, hstatus, hline, hcontent⟩ :=
      split?_eq_some_iff.1 hfound
    have htext : '\n' ∉ trimStart rest := by
      refine notMem_of_onOneLine hline fun c hc => @ne_of_getLast?_body line c ?_
      obtain ⟨blanks, hblanks⟩ := trimStart_suffix rest
      have hne : trimStart rest ≠ [] := by
        rintro hempty
        simp [hempty] at hc
      have hsplit : body line = (found.indent ++ found.marker ++ [gap, '[', found.status, ']'] ++
          blanks) ++ trimStart rest := by
        rw [hbody]
        simp [hblanks]
      rw [hsplit, List.getLast?_append_of_ne_nil _ hne, hc]
    have hmade :=
      IsMadeOf.intro hindent hmarker hgap hstatus (forall_mem_takeWhile isBlank rest) htext
    rw [trimStart, List.takeWhile_append_dropWhile, ← hbody] at hmade
    rwa [hcontent]
  · intro h
    generalize hs : body line = s at h
    cases h with
    | @intro indent marker blanks text gap status hindent hmarker hgap hstatus hblanks htext =>
      have hstart : trimStart (blanks ++ text) = trimStart text :=
        List.dropWhile_append_of_pos hblanks
      have hline : onOneLine (trimStart text) = true := onOneLine_of_notMem fun hmem =>
        htext ((trimStart_suffix text).mem hmem)
      have hsplit : split? (body line) = some ⟨indent, marker, status, trimStart text⟩ :=
        split?_eq_some_iff.2 ⟨gap, blanks ++ text, hs, hindent, hmarker, hgap, hstatus,
          by rwa [hstart], hstart.symm⟩
      rw [task?, hsplit, Option.map_some, trim_trimStart]

theorem IsMadeOf.render (h : IsMadeOf s parts) : IsMadeOf (render parts) parts := by
  cases h with
  | @intro indent marker blanks text gap status hindent hmarker hgap hstatus hblanks htext =>
    have hcontent : '\n' ∉ trim text := fun hmem => htext (mem_of_mem_trim hmem)
    rw [render_eq, contentText]
    by_cases hempty : trim text = []
    · rw [hempty]
      exact @IsMadeOf.intro indent marker [] [] ' ' status hindent hmarker
        (by decide) hstatus (by simp) (by simp)
    · have hmade := @IsMadeOf.intro indent marker [' '] (trim text) ' ' status hindent hmarker
        (by decide) hstatus (by decide) hcontent
      rw [trim_trim] at hmade
      simpa [hempty] using hmade

theorem IsMadeOf.content (h : IsMadeOf s parts) : parts.content = [] ∨ IsTrimmed parts.content := by
  cases h with
  | @intro _ _ _ text _ _ _ _ _ _ _ _ =>
    by_cases hempty : trim text = []
    · exact .inl hempty
    · exact .inr (isTrimmed_trim hempty)

/-! ## Tab stops -/

/-- The column that an indent reaches: a tab goes on to the next tab stop, any other character to
the next column. -/
inductive Reaches (tabSize : Nat) : Text → Nat → Prop where
  | start : Reaches tabSize [] 0
  | tab {indent : Text} {column stop : Nat} (h : Reaches tabSize indent column)
      (hstop : IsLeast {stop | column < stop ∧ tabSize ∣ stop} stop) :
      Reaches tabSize (indent ++ ['\t']) stop
  | other {indent : Text} {column : Nat} {c : Char}
      (h : Reaches tabSize indent column) (hc : c ≠ '\t') :
      Reaches tabSize (indent ++ [c]) (column + 1)

theorem isLeast_advance (h : 0 < tabSize) (column : Nat) :
    IsLeast {stop | column < stop ∧ tabSize ∣ stop} (advance tabSize column '\t') := by
  have hparts := Nat.div_add_mod column tabSize
  have hless := Nat.mod_lt column h
  have hstop : advance tabSize column '\t' = tabSize * (column / tabSize + 1) := by
    rw [advance, if_pos (by decide), Nat.mul_add, Nat.mul_one]
    omega
  refine ⟨⟨lt_advance h column '\t', hstop ▸ Nat.dvd_mul_right _ _⟩, fun stop hafter => ?_⟩
  obtain ⟨hlt, count, rfl⟩ := hafter
  rw [hstop]
  exact Nat.mul_le_mul_left tabSize (Nat.div_lt_of_lt_mul hlt)

theorem width_concat (tabSize : Nat) (indent : Text) (c : Char) :
    width tabSize (indent ++ [c]) = advance tabSize (width tabSize indent) c := by
  rw [width, List.foldl_append]
  rfl

theorem reaches_iff (h : 0 < tabSize) : Reaches tabSize indent column ↔
    column = width tabSize indent := by
  constructor
  · intro hreaches
    induction hreaches with
    | start => rfl
    | tab _ hstop ih =>
      rw [width_concat, ← ih]
      exact hstop.unique (isLeast_advance h _)
    | other _ hc ih => rw [width_concat, ← ih, advance, if_neg (by simpa using hc)]
  · rintro rfl
    induction indent using List.reverseRecOn with
    | nil => exact .start
    | append_singleton indent c ih =>
      rw [width_concat]
      by_cases hc : c = '\t'
      · rw [hc]
        exact .tab ih (isLeast_advance h _)
      · rw [advance, if_neg (by simpa using hc)]
        exact .other ih hc

/-- A task line that is put together again from its parts is read as them, and it is made of
no other parts. Its indent is as wide as its tab stops say, and narrower than any indent
that goes on. -/
theorem task?_assembled (htabs : 0 < tabSize) (h : task? line = some parts) :
    task? (render parts) = some parts ∧ (∀ other, IsMadeOf (body line) other ↔ other = parts) ∧
      (∀ column, Reaches tabSize parts.indent column ↔ column = width tabSize parts.indent) ∧
      ∀ longer, parts.indent <+: longer → longer ≠ parts.indent →
        width tabSize parts.indent < width tabSize longer := by
  have hmade := task?_eq_some_iff.1 h
  refine ⟨?_, fun other => ?_, fun _ => reaches_iff htabs, ?_⟩
  · rw [task?_eq_some_iff, body_render hmade.content]
    exact hmade.render
  · rw [← task?_eq_some_iff, h, Option.some.injEq, eq_comm]
  · rintro _ ⟨more, rfl⟩ hlonger
    exact width_append_lt htabs parts.indent more (by simpa using hlonger)

/-- A quoted line with a tab, a bracket as its mark, and line ends. -/
theorem task?_assembled_quoted :
    let parts : TaskLine := ⟨">\t ".toList, "2)".toList, '[', "Pay  [rent]".toList⟩
    0 < 4 ∧ task? ">\t 2)\t[[] \t Pay  [rent] \r\n".toList = some parts ∧
      task? ">\t 2) [[] Pay  [rent]".toList = some parts ∧
      Reaches 4 parts.indent 5 ∧ width 4 parts.indent < width 4 ">\t \t".toList := by
  intro parts
  have hread : task? ">\t 2)\t[[] \t Pay  [rent] \r\n".toList = some parts := by decide +kernel
  have htabs : 0 < 4 := by decide
  obtain ⟨hagain, -, hwidth, hlonger⟩ := task?_assembled htabs hread
  exact ⟨htabs, hread, hagain, (hwidth 5).2 (by decide), hlonger _ (by decide) (by decide)⟩

end Line
end Checklist
