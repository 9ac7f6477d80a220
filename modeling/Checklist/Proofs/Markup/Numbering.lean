import Checklist.Proofs.Markup.Cells

/-! # The numbers of placeholders

The number from which the spans of a text are counted depends on what stands before the text. Main
statement: a masked text without a mark has none under any numbers (`locate?_mask`). -/

namespace Checklist.Markup
set_option autoImplicit false
open Text

variable {parts : List Piece} {number other : Nat} {previous before : Option Char}

theorem isInner_of_isMasking {c : Char} (h : isMasking c = true) : isInner c = true := by
  simp only [isMasking, Bool.or_eq_true, beq_iff_eq] at h
  rcases h with (rfl | rfl) | hdigit
  · decide
  · decide
  · exact forall_digit (P := fun c => isInner c = true) (by decide) hdigit

theorem isMasking_of_isSign {c : Char} (h : isSign c = true) : isMasking c = false :=
  forall_sign (P := fun c => isMasking c = false) (by decide) h

theorem isSign_of_isMasking {c : Char} (h : isMasking c = true) : isSign c = false := by
  by_contra hsign
  rw [isMasking_of_isSign (by simpa using hsign)] at h
  cases h

theorem head?_mask (number other : Nat) (parts : List Piece) :
    (mask number parts).head? = (mask other parts).head? := by
  cases parts with
  | nil => rfl
  | cons part parts => cases part <;> rfl

theorem firstBracket?_mask (number other : Nat) (parts : List Piece) :
    firstBracket? (mask number parts) = firstBracket? (mask other parts) := by
  have hplaceholder : ∀ number, firstBracket? (placeholder number) = none := fun number =>
    firstBracket?_eq_none_iff.2 fun c hc => isInner_of_isMasking (isMasking_of_mem_placeholder hc)
  induction parts generalizing number other with
  | nil => rfl
  | cons part parts ih => cases part with
    | plain c =>
      have hcons : ∀ number, mask number (.plain c :: parts) = [c] ++ mask number parts :=
        fun number => rfl
      rw [hcons, hcons, firstBracket?_append, firstBracket?_append, ih number other]
    | span s =>
      rw [mask, mask, firstBracket?_append, firstBracket?_append, hplaceholder, hplaceholder, ih]

theorem mem_mask_of_plain {c : Char} (h : .plain c ∈ parts) : c ∈ mask number parts := by
  induction parts generalizing number with
  | nil => cases h
  | cons part parts ih => cases part with
    | plain d =>
      rcases List.mem_cons.1 h with heq | h
      · cases heq
        exact List.mem_cons_self
      · exact List.mem_cons_of_mem _ (ih h)
    | span s =>
      rcases List.mem_cons.1 h with heq | h
      · cases heq
      · exact List.mem_append_right _ (ih h)

theorem forall_mask {P : Char → Prop} (hmasking : ∀ c, isMasking c = true → P c)
    (h : ∀ c ∈ mask number parts, P c) :
    ∀ c ∈ mask other parts, P c := by
  intro c hc
  rcases mem_mask hc with hplain | hmask
  · exact h c (mem_mask_of_plain hplain)
  · exact hmasking c hmask

theorem inlineField?_mask (h : inlineField? (mask number parts) = none) :
    inlineField? (mask other parts) = none := by
  rw [Option.eq_none_iff_forall_ne_some] at h ⊢
  rintro ⟨key, value⟩ hfield
  obtain ⟨⟨hkeyNe, hkey⟩, hvalue, after, hafter⟩ := inlineField?_eq_some_iff.1 hfield
  have hsplit : mask other parts = ('[' :: (key ++ ':' :: ':' :: value)) ++
      ']' :: after := by simp [← hafter, fieldText]
  obtain ⟨first, rest, rfl, hfirst, -⟩ := mask_eq_append_cons (by decide) hsplit
  obtain ⟨start, colons, rfl, hstart, hcolons⟩ :=
    @mask_eq_append_cons _ _ ('[' :: key) _ ':' (by decide) hfirst
  obtain ⟨opening, keyParts, rfl, hopening, hkeyParts⟩ :=
    @mask_eq_append_cons _ _ [] _ '[' (by decide) hstart
  obtain ⟨colon, valueParts, rfl, hcolon, hvalueParts⟩ :=
    @mask_eq_append_cons _ _ [] _ ':' (by decide) hcolons
  obtain rfl : opening = [] := by
    by_contra hne
    exact mask_ne_nil hne hopening
  obtain rfl : colon = [] := by
    by_contra hne
    exact mask_ne_nil hne hcolon
  have hkeyNe' : keyParts ≠ [] := by
    rintro rfl
    exact hkeyNe hkeyParts.symm
  have hkey' : IsKey (mask number keyParts) := by
    refine ⟨mask_ne_nil hkeyNe', forall_mask (fun c hc => ?_) fun c hc => hkey c (hkeyParts ▸ hc)⟩
    have hcolon : c ≠ ':' := by
      rintro rfl
      exact absurd hc (by decide)
    simp [isInner_of_isMasking hc, hcolon]
  have hvalue' : ∀ c ∈ mask (number + (spans keyParts).length) valueParts, isInner c = true :=
    forall_mask (fun c hc => isInner_of_isMasking hc) fun c hc => hvalue c (hvalueParts ▸ hc)
  refine h (mask number keyParts, mask (number + (spans keyParts).length) valueParts)
    (inlineField?_eq_some_iff.2 ⟨hkey', hvalue', ?_⟩)
  refine ⟨mask (number + (spans keyParts).length + (spans valueParts).length) rest, ?_⟩
  simp [fieldText, mask, mask_append, spans, Nat.add_assoc]

theorem signed?_mask {sign : Char} {isBody : Char → Bool}
    (hglue : previous.any isGlue = before.any isGlue) {c : Char} :
    signed? sign isBody previous (c :: mask number parts) = none ↔
      signed? sign isBody before (c :: mask other parts) = none := by
  have hempty : ∀ s : Text, (s.takeWhile isBody).isEmpty = !s.head?.any isBody := by
    intro s
    cases s with
    | nil => rfl
    | cons d rest => by_cases hd : isBody d = true <;> simp [hd]
  simp only [signed?, hempty, hglue, head?_mask number other, ite_eq_right_iff, reduceCtorEq]

theorem marks_mask (hglue : previous.any isGlue = before.any isGlue) {c : Char}
    (h : marks previous (c :: mask number parts) = none) :
    marks before (c :: mask other parts) = none := by
  simp only [marks, anyLength?, Option.or_eq_none_iff, Option.map_eq_none_iff, inlineLength?] at h ⊢
  obtain ⟨hsymbol, hinline, htag, hcontext⟩ := h
  refine ⟨?_, @inlineField?_mask (.plain c :: parts) number other hinline,
    (signed?_mask hglue).1 htag, (signed?_mask hglue).1 hcontext⟩
  rw [symbolLength?_cons] at hsymbol ⊢
  by_cases hc : c ∈ signs
  · rw [if_pos hc] at hsymbol
    cases hsymbol
  · rw [if_neg hc]

theorem locate?_append_of_forall {s rest : Text} (h : ∀ c ∈ s, isSign c = false) :
    locate? marks previous (s ++ rest) = none ↔ locate? marks (lastOr previous s) rest = none := by
  induction s generalizing previous with
  | nil => rw [List.nil_append, lastOr_nil]
  | cons c s ih =>
    rw [List.cons_append, locate?, marks_eq_none (h c List.mem_cons_self), lastOr_cons,
      Option.map_eq_none_iff]
    exact ih fun d hd => h d (List.mem_cons_of_mem _ hd)

/-- A masked text without a mark has none under other numbers. -/
theorem locate?_mask (hglue : previous.any isGlue = before.any isGlue)
    (h : locate? marks previous (mask number parts) = none) :
    locate? marks before (mask other parts) = none := by
  induction parts generalizing previous before number other with
  | nil => rfl
  | cons part parts ih => cases part with
    | plain c =>
      have hmark : marks previous (c :: mask number parts) = none :=
        @length?_of_locate?_eq_none previous marks [] _ _ h
      rw [mask, locate?, hmark, Option.map_eq_none_iff] at h
      rw [mask, locate?, marks_mask hglue hmark, Option.map_eq_none_iff]
      exact ih rfl h
    | span s =>
      have hsign : ∀ number, ∀ c ∈ placeholder number, isSign c = false := fun number c hc =>
        isSign_of_isMasking (isMasking_of_mem_placeholder hc)
      have hlast : ∀ (number : Nat) (previous : Option Char),
          lastOr previous (placeholder number) = some closeMark := by
        intro number previous
        rw [lastOr, placeholder, List.getLast?_concat, Option.some_or]
      rw [mask, locate?_append_of_forall (hsign _), hlast] at h ⊢
      exact ih rfl h

end Checklist.Markup
