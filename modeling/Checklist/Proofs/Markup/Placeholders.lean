import Checklist.Proofs.Markup.Span

/-! # Placeholders stand where spans stood

Taking spans out is described without pieces: at each place a span that starts there is swapped for
the placeholder with the next number, and a character stays only where no span starts (`Swaps`).
Main statements: this is what taking out does (`protect_eq_iff`); as long as their numbers can be
read, the spans are put back where they were (`restore_protect`). -/

namespace Checklist.Markup
set_option autoImplicit false
open Text

variable {s masked : Text} {store : List Text} {number : Nat}

/-- A text from which spans were taken, the text with placeholders from a number on in their place,
and the spans in order. -/
inductive Swaps : Nat → Text → Text → List Text → Prop where
  | done {number : Nat} : Swaps number [] [] []
  | plain {number : Nat} {c : Char} {s masked : Text} {store : List Text}
      (hc : ∀ span, IsSpan span → ¬span <+: c :: s)
      (h : Swaps number s masked store) : Swaps number (c :: s) (c :: masked) store
  | span {number : Nat} {span s masked : Text} {store : List Text} (hspan : IsSpan span)
      (h : Swaps (number + 1) s masked store) :
      Swaps number (span ++ s) (placeholder number ++ masked) (span :: store)

theorem span?_eq_none_iff : span? s = none ↔ ∀ span, IsSpan span → ¬span <+: s := by
  rw [Option.eq_none_iff_forall_ne_some]
  refine forall_congr' fun span => ?_
  rw [Ne, span?_eq_some_iff, not_and]

theorem IsCut.swaps {parts : List Piece} (h : IsCut parts) (number : Nat) :
    Swaps number (chars parts) (mask number parts) (spans parts) := by
  induction h generalizing number with
  | nil => exact .done
  | plain hc _ ih => exact .plain (span?_eq_none_iff.1 hc) (ih number)
  | span hs _ ih => exact .span hs (ih (number + 1))

theorem Swaps.eq_pieces (h : Swaps number s masked store) :
    mask number (pieces s) = masked ∧ spans (pieces s) = store := by
  induction h with
  | done => exact ⟨rfl, rfl⟩
  | plain hc _ ih =>
    rw [pieces_plain (span?_eq_none_iff.2 hc)]
    exact ⟨congrArg _ ih.1, ih.2⟩
  | span hspan _ ih =>
    rw [pieces_span hspan]
    exact ⟨congrArg _ ih.1, congrArg _ ih.2⟩

/-- Spans are taken out from left to right, and none is passed over. -/
theorem protect_eq_iff : protect s = ⟨masked, store⟩ ↔ Swaps 0 s masked store := by
  rw [protect, Protected.mk.injEq]
  constructor
  · rintro ⟨rfl, rfl⟩
    obtain ⟨hcut, hchars⟩ := isCut_pieces s
    have hswaps := hcut.swaps 0
    rwa [hchars] at hswaps
  · exact Swaps.eq_pieces

theorem Swaps.mem_store (h : Swaps number s masked store) {span : Text} (hspan : span ∈ store) :
    IsSpan span ∧ span <:+: s := by
  induction h with
  | done => cases hspan
  | plain _ _ ih =>
    obtain ⟨hspan, hwithin⟩ := ih hspan
    exact ⟨hspan, List.infix_cons hwithin⟩
  | @span number first s masked store hfirst _ ih =>
    rcases List.mem_cons.1 hspan with rfl | hspan
    · exact ⟨hfirst, (List.prefix_append _ _).isInfix⟩
    · obtain ⟨hspan, hwithin⟩ := ih hspan
      exact ⟨hspan, hwithin.trans (List.suffix_append _ _).isInfix⟩

theorem Swaps.length_store_le (h : Swaps number s masked store) : store.length ≤ s.length := by
  induction h with
  | done => exact Nat.le_refl _
  | plain _ _ ih => exact Nat.le_succ_of_le ih
  | span hspan _ ih =>
    have hpos := List.length_pos_of_ne_nil hspan.ne_nil
    rw [List.length_cons, List.length_append]
    omega

/-! ## The placeholders of a text -/

/-- The digits of the placeholders of a text, each where it starts. -/
def placeholders (s : Text) : List Text :=
  s.tails.filterMap placeholderDigits?

theorem placeholders_append {before : Text} (h : openMark ∉ before) (s : Text) :
    placeholders (before ++ s) = placeholders s := by
  induction before with
  | nil => rfl
  | cons c before ih =>
    rw [List.mem_cons, not_or] at h
    rw [List.cons_append, placeholders, List.tails_cons,
      List.filterMap_cons_none (placeholderDigits?_eq_none (Ne.symm h.1))]
    exact ih h.2

theorem placeholders_placeholder (number : Nat) (s : Text) :
    placeholders (placeholder number ++ s) = ofNat number :: placeholders s := by
  have hdigits : ∀ c ∈ ofNat number, isDecimal c = true := fun c hc => isDecimal_of_mem_ofNat hc
  have hrest := placeholders_append (openMark_notMem_digits hdigits) s
  rw [List.append_assoc, List.singleton_append] at hrest
  rw [placeholder_append, placeholders, List.tails_cons,
    List.filterMap_cons_some (placeholderDigits?_append (ofNat_ne_nil number) hdigits s)]
  exact congrArg _ hrest

/-- Where the text has no mark of its own, the placeholders are those that were put in, numbered as
they stand. -/
theorem Swaps.placeholders_eq (h : Swaps number s masked store) (hs : openMark ∉ s) :
    placeholders masked = (List.range' number store.length).map ofNat := by
  induction h with
  | done => rfl
  | @plain number c s masked store _ _ ih =>
    rw [List.mem_cons, not_or] at hs
    have hc : openMark ∉ [c] := by simpa using hs.1
    exact (placeholders_append hc masked).trans (ih hs.2)
  | @span number span s masked store _ _ ih =>
    rw [List.mem_append, not_or] at hs
    rw [placeholders_placeholder, ih hs.2, List.length_cons, List.range'_succ, List.map_cons]

theorem infix_of_mem_placeholders {digits : Text} (h : digits ∈ placeholders s) :
    digits ≠ [] ∧ (∀ c ∈ digits, isDecimal c = true) ∧
      openMark :: (digits ++ [closeMark]) <:+: s := by
  obtain ⟨tail, htail, hdigits⟩ := List.mem_filterMap.1 h
  obtain ⟨hne, hall, hstarts⟩ := placeholderDigits?_eq_some_iff.1 hdigits
  exact ⟨hne, hall, hstarts.isInfix.trans ((List.mem_tails _ _).1 htail).isInfix⟩

/-- Each placeholder of a text that is restored has a number that can be read, so there are no more
of them than such numbers. -/
theorem length_le_of_restore {result : Text}
    (hnumbers : placeholders masked = (List.range store.length).map ofNat)
    (h : restore store masked = .ok result) : store.length ≤ 10 ^ digitLimit := by
  have hrestorable := restore_isOk_iff.1 ⟨result, h⟩
  cases store with
  | nil => exact Nat.zero_le _
  | cons span store =>
    have hlast : ofNat store.length ∈ placeholders masked := by
      rw [hnumbers]
      exact List.mem_map_of_mem (List.mem_range.2 (Nat.lt_succ_self _))
    obtain ⟨hne, hall, hoccurs⟩ := infix_of_mem_placeholders hlast
    have hlength := (hrestorable (by simp) _ hne hall hoccurs).1
    exact (length_ofNat_le_iff (by decide)).1 hlength

/-- Spans that are taken out of a text without placeholders of its own are put back where they were,
and no text is restored to another one. Each span has one placeholder, numbered by its place among
them, and is code or a link of the text. The one limit is the length of numbers that are read, at
4300 digits, and only a text with more characters than there are such numbers could come to it. -/
theorem restore_protect (h : openMark ∉ s) :
    (restore (protect s).store (protect s).text = .ok s ↔ (protect s).store.length ≤ 10 ^ digitLimit) ∧
      (protect s).store.length ≤ s.length ∧
      (∀ result, restore (protect s).store (protect s).text = .ok result → result = s) ∧
      placeholders (protect s).text = (List.range (protect s).store.length).map ofNat ∧
      (∀ span ∈ (protect s).store, IsSpan span ∧ span <:+: s) ∧
      ∀ masked store, protect s = ⟨masked, store⟩ ↔ Swaps 0 s masked store := by
  have hswaps : Swaps 0 s (protect s).text (protect s).store := protect_eq_iff.1 rfl
  have hnumbers : placeholders (protect s).text =
      (List.range (protect s).store.length).map ofNat := by
    rw [hswaps.placeholders_eq h, List.range_eq_range']
  have hmasks := masks_protect h
  have hchars : chars (pieces s) = s := (isCut_pieces s).2
  refine ⟨⟨length_le_of_restore hnumbers, fun hlimit => ?_⟩, hswaps.length_store_le,
    fun result hresult => ?_, hnumbers,
    fun span hspan => hswaps.mem_store hspan, fun masked store => protect_eq_iff⟩
  · rw [hmasks.restore_eq hlimit, hchars]
  · rw [hmasks.eq_of_restore hresult, hchars]

/-- Code, links of both kinds, an embedded link, and a digit and an end mark behind a span. -/
theorem restore_protect_errands :
    let s := "a [[b]] \x60c [[d]]\x607\ue001 [e](f)![[g]]".toList
    openMark ∉ s ∧ (protect s).store =
      ["[[b]]".toList, "\x60c [[d]]\x60".toList, "[e](f)".toList, "![[g]]".toList] ∧
      restore (protect s).store (protect s).text = .ok s ∧
          placeholders (protect s).text = ["0".toList, "1".toList, "2".toList, "3".toList] := by
  intro s
  have hmark : openMark ∉ s := by decide +kernel
  have hstore : (protect s).store = ["[[b]]".toList, "\x60c [[d]]\x60".toList, "[e](f)".toList,
      "![[g]]".toList] := by decide +kernel
  obtain ⟨hrestore, -, -, hnumbers, -⟩ := restore_protect hmark
  refine ⟨hmark, hstore, hrestore.2 ?_, ?_⟩
  · rw [hstore]
    decide +kernel
  · rw [hnumbers, hstore]
    decide +kernel

end Checklist.Markup
