import Checklist.Proofs.Markup.Numbering
import Checklist.Proofs.Markup.Segments

/-! # Extraction takes out markup and nothing else

The grammars read a text in which placeholders stand for spans. No segment that is taken out begins
or ends within a placeholder, so what is taken out of the text is taken out of its pieces, span by
span and character by character. Main statement: `exists_stages_of_extract`. -/

namespace Checklist.Markup
set_option autoImplicit false
open Text

variable {today : Date} {store : List Text} {parts : List Piece}

/-! ## What a masked text stands for -/

theorem Masks.append {s t : Text} {others : List Piece} (h : Masks store parts s)
    (hothers : Masks store others t) :
    Masks store (parts ++ others) (s ++ t) := by
  induction h with
  | nil => exact hothers
  | plain hc _ ih => exact .plain hc ih
  | span hspan _ ih =>
    rw [List.append_assoc]
    exact .span hspan ih

theorem Masks.eq_nil_iff {s : Text} (h : Masks store parts s) : parts = [] ↔ s = [] := by
  cases h <;> simp [placeholder]

theorem placeholder_eq_append {number : Nat} {s t : Text} (h : placeholder number = s ++ t) :
    s = [] ∨ t = [] ∨
    ∃ left right, s = openMark :: left ∧ t = right ++ [closeMark] ∧ ∀ c ∈ left ++ right,
      c.isDigit = true := by
  cases s with
  | nil => exact .inl rfl
  | cons c left =>
    obtain ⟨rfl, -⟩ := List.cons.inj h
    have hrest : ofNat number ++ [closeMark] = left ++ t := (List.cons.inj h).2
    rcases List.eq_nil_or_concat t with rfl | ⟨right, last, rfl⟩
    · exact .inr (.inl rfl)
    · rw [List.concat_eq_append, ← List.append_assoc] at hrest
      obtain ⟨hdigits, hlast⟩ := List.append_inj' hrest rfl
      obtain rfl := List.singleton_inj.1 hlast
      refine .inr (.inr ⟨left, right, rfl, List.concat_eq_append, fun c hc => ?_⟩)
      rw [← hdigits] at hc
      exact isDigit_of_mem_ofNat hc

theorem Masks.of_append {s t : Text} (h : Masks store parts (s ++ t)) :
    (∃ first rest, parts = first ++ rest ∧ Masks store first s ∧ Masks store rest t) ∨
      ∃ before left right after, s = before ++ openMark :: left ∧ t = right ++ closeMark :: after ∧
        ∀ c ∈ left ++ right, c.isDigit = true := by
  generalize hwhole : s ++ t = whole at h
  induction h generalizing s with
  | nil =>
    obtain ⟨rfl, rfl⟩ := List.append_eq_nil_iff.1 hwhole
    exact .inl ⟨[], [], rfl, .nil, .nil⟩
  | @plain c parts u hc h ih =>
    cases s with
    | nil =>
      obtain rfl : t = c :: u := hwhole
      exact .inl ⟨[], _, rfl, .nil, .plain hc h⟩
    | cons d s =>
      obtain ⟨rfl, htail⟩ := List.cons.inj hwhole
      rcases ih htail with ⟨first, rest, rfl, hfirst, hrest⟩ |
        ⟨before, left, right, after, rfl, rfl, hdigits⟩
      · exact .inl ⟨.plain d :: first, rest, rfl, .plain hc hfirst, hrest⟩
      · exact .inr ⟨d :: before, left, right, after, rfl, rfl, hdigits⟩
  | @span number span parts u hspan h ih =>
    rcases List.append_eq_append_iff.1 hwhole with ⟨between, hbetween, rfl⟩ | ⟨between, rfl, htail⟩
    · rcases placeholder_eq_append hbetween with rfl | rfl | ⟨left, right, rfl, rfl, hdigits⟩
      · obtain rfl : placeholder number = between := hbetween
        exact .inl ⟨[], _, rfl, .nil, .span hspan h⟩
      · obtain rfl : placeholder number = s := by simpa using hbetween
        exact .inl ⟨[.span span], parts, rfl, by simpa using Masks.span hspan .nil, h⟩
      · exact .inr ⟨[], left, right, u, rfl, by simp, hdigits⟩
    · rcases ih htail.symm with ⟨first, rest, rfl, hfirst, hrest⟩ |
        ⟨before, left, right, after, rfl, rfl, hdigits⟩
      · exact .inl ⟨.span span :: first, rest, rfl, .span hspan hfirst, hrest⟩
      · exact .inr ⟨placeholder number ++ before, left, right, after, by simp, rfl, hdigits⟩

theorem Masks.of_append_head {s t : Text} (h : Masks store parts (s ++ t))
    (ht : ∀ c, t.head? = some c → isMasking c = false) :
    ∃ first rest, parts = first ++ rest ∧ Masks store first s ∧ Masks store rest t := by
  rcases h.of_append with hbetween | ⟨before, left, right, after, -, rfl, hdigits⟩
  · exact hbetween
  · exfalso
    cases right with
    | nil => exact absurd (ht closeMark rfl) (by decide)
    | cons c right =>
      have hc := ht c rfl
      simp [isMasking, hdigits c (by simp)] at hc

theorem Masks.of_append_last {s t : Text} (h : Masks store parts (s ++ t))
    (hs : ∀ c, s.getLast? = some c → isMasking c = false) :
    ∃ first rest, parts = first ++ rest ∧ Masks store first s ∧ Masks store rest t := by
  refine h.of_append.resolve_right ?_
  rintro ⟨front, left, right, behind, rfl, -, hdigits⟩
  -- the last character would be a digit, or the mark itself
  rcases List.eq_nil_or_concat left with rfl | ⟨digits, c, rfl⟩
  · exact absurd (hs openMark (by simp)) (by decide)
  · have hc :=
      hs c (by rw [List.concat_eq_append, ← List.cons_append, ← List.append_assoc,
        List.getLast?_concat])
    simp [isMasking, hdigits c (by simp)] at hc

/-! ## Markup and placeholders -/

theorem isMasking_of_isBlank {c : Char} (h : isBlank c = true) : isMasking c = false := by
  have hno := forall_blank (p := fun c => !isMasking c) (by decide +kernel) (by decide +kernel) h
  simpa using hno

variable {previous : Option Char} {kind : TokenKind} {segment rest : Text}

theorem isSign_of_lookup {symbol : Text} {field : Field}
    (h : defaultSymbols.lookup symbol = some field) :
    ∃ c, symbol = [c] ∧ isSign c = true := by
  obtain ⟨before, after, hsplit, -⟩ := List.lookup_eq_some_iff.1 h
  have hmem : symbol ∈ defaultSymbols.map (·.1) := by
    rw [hsplit]
    simp
  have hall : ∀ symbol ∈ defaultSymbols.map (·.1), ∃ c ∈ signs, symbol = [c] := by decide
  obtain ⟨c, hc, hsymbol⟩ := hall symbol hmem
  exact ⟨c, hsymbol, by simp [isSign, hc]⟩

theorem IsMarkup.exists_cons (h : IsMarkup today kind previous segment rest) :
    ∃ c inner, segment = c :: inner ∧ isMasking c = false := by
  cases h with
  | field _ _ _ _ => exact ⟨_, _, rfl, by decide⟩
  | emoji hsymbol _ _ =>
    obtain ⟨c, rfl, hc⟩ := isSign_of_lookup hsymbol
    exact ⟨c, _, rfl, isMasking_of_isSign hc⟩
  | tag _ _ _ _ => exact ⟨_, _, rfl, by decide⟩
  | context _ _ _ _ => exact ⟨_, _, rfl, by decide⟩

theorem head_of_atBoundary (h : atBoundary rest = true) :
    ∀ c, rest.head? = some c → isMasking c = false := by
  intro c hc
  rw [atBoundary, hc] at h
  exact isMasking_of_isBlank h

/-- Markup ends before a character of no placeholder, or with one, or holds no beginning of a
placeholder. -/
theorem IsMarkup.last (h : IsMarkup today kind previous segment rest) :
    (∀ c, rest.head? = some c → isMasking c = false) ∨
    (∀ c, segment.getLast? = some c → isMasking c = false) ∨ openMark ∉ segment := by
  cases h with
  | field _ _ _ _ =>
    right
    left
    intro c hc
    rw [fieldText, List.getLast?_concat] at hc
    cases hc
    decide
  | @emoji _ symbol selector _ _ _ hsymbol hselector hvalue =>
    cases hvalue with
    | level _ =>
      right
      right
      obtain ⟨c, rfl, hc⟩ := isSign_of_lookup hsymbol
      have hmark : openMark ≠ c := by
        rintro rfl
        exact absurd (isMasking_of_isSign hc) (by decide)
      rcases hselector with rfl | rfl
      · simpa using hmark
      · simpa using ⟨hmark, by decide⟩
    | word _ _ hrest => exact .inl (head_of_atBoundary hrest)
    | date _ _ hrest => exact .inl (head_of_atBoundary hrest)
    | phrase _ _ hrest =>
      left
      intro c hc
      obtain ⟨others, rfl⟩ := List.head?_eq_some_iff.1 hc
      rcases hrest with hrest | ⟨n, hmark⟩
      · cases hrest
      · refine isMasking_of_isSign ?_
        by_contra hsign
        rw [marks_eq_none (Bool.eq_false_iff.2 hsign)] at hmark
        cases hmark
  | tag _ hbody _ _ =>
    right
    right
    simpa using ⟨by decide, fun hmem => absurd (hbody _ hmem) (by decide +kernel)⟩
  | context _ hbody _ _ =>
    right
    right
    simpa using ⟨by decide, fun hmem => absurd (hbody _ hmem) (by decide +kernel)⟩

theorem IsMarkup.masks {kept : Text} (h : IsMarkup today kind previous segment rest)
    (hmasks : Masks store parts (kept ++ (segment ++ rest))) :
    ∃ before removed after, parts = before ++ (removed ++ after) ∧ Masks store before kept ∧
      Masks store removed segment ∧ Masks store after rest := by
  have hhead : ∀ c, (segment ++ rest).head? = some c → isMasking c = false := by
    obtain ⟨c, inner, rfl, hc⟩ := h.exists_cons
    rintro d ⟨⟩
    exact hc
  obtain ⟨before, others, rfl, hbefore, hothers⟩ := hmasks.of_append_head hhead
  have hbetween : ∃ removed after, others = removed ++ after ∧ Masks store removed segment ∧
      Masks store after rest := by
    rcases h.last with hrest | hlast | hmark
    · exact hothers.of_append_head hrest
    · exact hothers.of_append_last hlast
    · refine hothers.of_append.resolve_right ?_
      rintro ⟨front, left, right, behind, rfl, -, -⟩
      exact hmark (by simp)
  obtain ⟨removed, after, rfl, hremoved, hafter⟩ := hbetween
  exact ⟨before, removed, after, rfl, hbefore, hremoved, hafter⟩

/-! ## Segments of the pieces -/

/-- Segments of a list, from left to right and apart from each other, and the list with one gap in
the place of each. -/
inductive CutOut {α : Type} (gap : α) : List (List α) → List α → List α → Prop where
  | nil : CutOut gap [] [] []
  | keep {x : α} {segments : List (List α)} {xs left : List α} (h : CutOut gap segments xs left) :
      CutOut gap segments (x :: xs) (x :: left)
  | cut {segment : List α} {segments : List (List α)} {xs left : List α}
      (h : CutOut gap segments xs left) :
      CutOut gap (segment :: segments) (segment ++ xs) (gap :: left)

section CutOut

variable {α : Type} {gap : α} {segments others : List (List α)} {xs ys left : List α}

theorem CutOut.refl (gap : α) (xs : List α) : CutOut gap [] xs xs := by
  induction xs with
  | nil => exact .nil
  | cons x xs ih => exact .keep ih

theorem CutOut.eq_of_nil (h : CutOut gap [] xs left) : left = xs := by
  generalize hsegments : ([] : List (List α)) = segments at h
  induction h with
  | nil => rfl
  | keep _ ih => rw [ih hsegments]
  | cut _ _ => cases hsegments

theorem CutOut.keep_append (kept : List α) (h : CutOut gap segments xs left) :
    CutOut gap segments (kept ++ xs) (kept ++ left) := by
  induction kept with
  | nil => exact h
  | cons x kept ih => exact .keep ih

theorem CutOut.right (h : CutOut gap segments xs (ys ++ left)) :
    ∃ before after later, xs = before ++ after ∧ CutOut gap later after left := by
  induction ys generalizing segments xs with
  | nil => exact ⟨[], xs, segments, rfl, h⟩
  | cons y ys ih => cases h with
    | @keep _ _ xs _ h =>
      obtain ⟨before, after, later, rfl, hlater⟩ := ih h
      exact ⟨y :: before, after, later, rfl, hlater⟩
    | @cut segment _ xs _ h =>
      obtain ⟨before, after, later, rfl, hlater⟩ := ih h
      exact ⟨segment ++ before, after, later, by rw [List.append_assoc], hlater⟩

theorem CutOut.trans (h : CutOut gap segments xs ys) (hleft : CutOut gap others ys left) :
    ∃ segments, CutOut gap segments xs left := by
  induction hleft generalizing segments xs with
  | nil =>
    cases h
    exact ⟨[], .nil⟩
  | keep _ ih => cases h with
    | keep h =>
      obtain ⟨all, hall⟩ := ih h
      exact ⟨all, .keep hall⟩
    | @cut segment _ _ _ h =>
      obtain ⟨all, hall⟩ := ih h
      exact ⟨segment :: all, .cut hall⟩
  | cut _ ih =>
    obtain ⟨before, after, later, rfl, hlater⟩ := h.right
    obtain ⟨all, hall⟩ := ih hlater
    exact ⟨before :: all, .cut hall⟩

end CutOut

theorem Masks.exists_cutOut {segments : List Text} {s left : Text} (hmasks : Masks store parts s)
    (h : TakenOut (IsMarkup today kind) previous segments s left) :
    ∃ removed after, CutOut (.plain ' ') removed parts after ∧
      List.Forall₂ (Masks store) removed segments ∧ Masks store after left := by
  induction segments generalizing parts s left previous with
  | nil =>
    rcases h.first with ⟨-, rfl⟩ | ⟨kept, segment, rest, left', segments', hsegments, -⟩
    · exact ⟨[], parts, .refl _ _, .nil, hmasks⟩
    · cases hsegments
  | cons segment segments ih =>
    rcases h.first with ⟨hsegments, -⟩ |
      ⟨kept, first, rest, left', segments', hsegments, rfl, rfl, hmarkup, htaken⟩
    · cases hsegments
    · obtain ⟨rfl, rfl⟩ := List.cons.inj hsegments
      obtain ⟨before, removed, after, rfl, hbefore, hremoved, hafter⟩ := hmarkup.masks hmasks
      obtain ⟨later, after', hcut, hlater, hleft⟩ := ih hafter htaken
      exact ⟨removed :: later, before ++ .plain ' ' :: after', .keep_append before (.cut hcut),
        .cons hremoved hlater, hbefore.append (.plain (by decide) hleft)⟩

/-! ## Blanks between pieces -/

def Piece.isBlank : Piece → Bool
  | .plain c => Text.isBlank c
  | .span _ => false

/-- Trims pieces, and puts one space in place of every run of blanks between them; blanks in
a span stay. -/
def tidy (parts : List Piece) : List Piece :=
  [Piece.plain ' '].intercalate ((parts.splitOnP Piece.isBlank).filter (· ≠ []))

theorem isBlank_of_mem_placeholder {number : Nat} {c : Char} (h : c ∈ placeholder number) :
    isBlank c = false := by
  by_contra hblank
  have hno := isMasking_of_isBlank (Bool.not_eq_false _ ▸ hblank)
  rw [isMasking_of_mem_placeholder h] at hno
  cases hno

theorem Masks.splitOnP {s : Text} (h : Masks store parts s) :
    List.Forall₂ (Masks store) (parts.splitOnP Piece.isBlank) (splitWhere isBlank s) := by
  induction h with
  | nil => exact .cons .nil .nil
  | @plain c parts s hc _ ih =>
    have hsame : Piece.isBlank (.plain c) = isBlank c := rfl
    rw [List.splitOnP_cons_eq_if_modifyHead, splitWhere, hsame]
    by_cases hblank : isBlank c = true
    · rw [if_pos hblank, if_pos hblank]
      exact .cons .nil ih
    · rw [if_neg hblank, if_neg hblank]
      have hne := splitWhere_ne_nil isBlank s
      generalize parts.splitOnP Piece.isBlank = runs at ih ⊢
      generalize splitWhere isBlank s = words at ih hne ⊢
      cases ih with
      | nil => exact absurd rfl hne
      | cons hfirst hrest => exact .cons (.plain hc hfirst) hrest
  | @span number span parts s hspan _ ih =>
    rw [List.splitOnP_cons_eq_if_modifyHead, if_neg (by simp [Piece.isBlank]),
      splitWhere_append_of_forall fun c hc => isBlank_of_mem_placeholder hc]
    generalize parts.splitOnP Piece.isBlank = runs at ih ⊢
    generalize splitWhere isBlank s = words at ih ⊢
    cases ih with
    | nil => exact .nil
    | cons hfirst hrest => exact .cons (.span hspan hfirst) hrest

theorem masks_intercalate {runs : List (List Piece)} {words : List Text}
    (h : List.Forall₂ (Masks store) runs words) :
    Masks store ([Piece.plain ' '].intercalate runs) (join [' '] words) := by
  induction h with
  | nil => exact .nil
  | @cons run word runs words hrun hruns ih => cases hruns with
    | nil =>
      rw [List.intercalate_singleton]
      exact hrun
    | cons hnext hrest =>
      rw [List.intercalate_cons_cons]
      exact (hrun.append (.plain (by decide) .nil)).append ih

theorem Masks.tidy {s : Text} (h : Masks store parts s) : Masks store (tidy parts) (squeeze s) := by
  refine masks_intercalate (List.rel_filter ?_ h.splitOnP)
  intro run word hrun
  simpa using not_congr hrun.eq_nil_iff

/-! ## Stages -/

/-- A text, and the pieces that it stands for. -/
structure Masked (store : List Text) where
  text : Text
  parts : List Piece
  masks : Masks store parts text

def Masked.ofContent {content : Text} (h : openMark ∉ content) : Masked (protect content).store :=
  ⟨(protect content).text, pieces content, masks_protect h⟩

/-- One grammar reads a text: one space takes the place of each segment, every segment is complete
markup of the grammar's kind and stands for whole pieces, and the tokens were written as segments,
in this order. A grammar that finds no token leaves the text alone. -/
structure IsStage (today : Date) {store : List Text} (kind : TokenKind) (segments : List Text)
    (removed : List (List Piece)) (tokens : List Token) (before after : Masked store) : Prop where
  text : TakenOut (IsMarkup today kind) none segments before.text after.text
  parts : CutOut (.plain ' ') removed before.parts after.parts
  masks : List.Forall₂ (Masks store) removed segments
  raws : (tokens.map Token.raw).Sublist segments
  kinds : ∀ token ∈ tokens, token.kind = kind
  idle : tokens = [] → segments = []

/-- One grammar reads after the other, each what the one before it left. -/
inductive Stages (today : Date) {store : List Text} : List TokenKind → List Token → Masked store →
    Masked store → Prop where
  | nil {text : Masked store} : Stages today [] [] text text
  | cons {kind : TokenKind} {kinds : List TokenKind} {segments : List Text}
      {removed : List (List Piece)} {tokens others : List Token}
      {before between after : Masked store}
        (first : IsStage today kind segments removed tokens before between)
      (rest : Stages today kinds others between after) :
        Stages today (kind :: kinds) (tokens ++ others) before after

theorem exists_isStage_of_consume {settings : Settings}
    (hsymbols : settings.symbols = defaultSymbols) {budget : Nat} (before : Masked store)
    {consumed : Consumed}
    (h : (grammarOf settings today kind).consume budget none before.text = .ok consumed) :
    ∃ segments removed, ∃ after : Masked store,
      IsStage today kind segments removed (firsts [] consumed.tokens) before after ∧
      after.text = consumed.text := by
  obtain ⟨htaken, hkinds⟩ := exists_takenOut_of_consume (isExact_grammarOf hsymbols today kind) h
  obtain ⟨removed, parts, hcut, hremoved, hmasks⟩ := before.masks.exists_cutOut htaken
  have hfirsts := firsts_sublist [] consumed.tokens
  refine ⟨_, removed, ⟨consumed.text, parts, hmasks⟩,
    ⟨htaken, hcut, hremoved, ?_, fun token htoken => ?_, fun hnone => ?_⟩, rfl⟩
  · have hraws := hfirsts.map Token.raw
    rwa [List.map_map] at hraws
  · obtain ⟨entry, hentry, rfl⟩ := List.mem_map.1 (hfirsts.subset htoken)
    exact hkinds entry hentry
  · rw [firsts_eq_nil hnone]
    rfl

theorem exists_stages_of_consumeAll {settings : Settings}
    (hsymbols : settings.symbols = defaultSymbols) {kinds : List TokenKind} {budget : Nat}
    (before : Masked store) {consumed : Consumed}
    (h : consumeAll (kinds.map (grammarOf settings today)) budget before.text = .ok consumed) :
    ∃ after : Masked store, Stages today kinds (consumed.tokens.map (·.1)) before after ∧
      after.text = consumed.text := by
  induction kinds generalizing budget before consumed with
  | nil =>
    cases h
    exact ⟨before, .nil, rfl⟩
  | cons kind kinds ih =>
    obtain ⟨first, others, hfirst, hothers, rfl⟩ := consumeAll_cons_eq_ok_iff.1 h
    obtain ⟨segments, removed, between, hstage, hbetween⟩ :=
      exists_isStage_of_consume hsymbols before hfirst
    obtain ⟨after, hstages, hafter⟩ := ih between (hbetween ▸ hothers)
    refine ⟨after, ?_, hafter⟩
    simpa [Function.comp_def] using Stages.cons hstage hstages

section Stages

variable {kinds : List TokenKind} {tokens : List Token} {before after : Masked store}

theorem Stages.exists_cutOut (h : Stages today kinds tokens before after) :
    ∃ removed, CutOut (.plain ' ') removed before.parts after.parts := by
  induction h with
  | nil => exact ⟨[], .refl _ _⟩
  | cons first _ ih =>
    obtain ⟨removed, hremoved⟩ := ih
    exact first.parts.trans hremoved

theorem Stages.parts_eq (h : Stages today kinds tokens before after) (htokens : tokens = []) :
    after.parts = before.parts := by
  induction h with
  | nil => rfl
  | cons first _ ih =>
    obtain ⟨hfirst, hothers⟩ := List.append_eq_nil_iff.1 htokens
    obtain rfl := first.idle hfirst
    have hremoved := first.masks
    rw [List.forall₂_nil_right_iff] at hremoved
    have hsame := first.parts
    rw [hremoved] at hsame
    rw [ih hothers, hsame.eq_of_nil]

end Stages

/-- Extraction takes out markup and nothing else. The grammars read the content one after the other,
and each leaves what is no markup of its kind; the content that is left is what the last one leaves,
with blanks tidied and spans put back. So it is made of the pieces outside the segments that were
taken out, in their order, and without tokens of all pieces. -/
theorem exists_stages_of_extract {settings : Settings} {content : Text} {extraction : Extraction}
    (hsymbols : settings.symbols = defaultSymbols) (hcontent : openMark ∉ content)
    (h : extract settings today content = .ok extraction) :
    ∃ (tokens : List Token) (last : Masked (protect content).store),
      Stages today (kinds settings) tokens (.ofContent hcontent) last ∧
      tokens.mapM (Token.restore (protect content).store) = .ok extraction.tokens ∧
      restore (protect content).store (squeeze last.text) = .ok extraction.content ∧
      (∃ removed, CutOut (.plain ' ') removed (pieces content) last.parts) ∧
      extraction.content = chars (tidy last.parts) ∧
      (extraction.tokens = [] → extraction.content = chars (tidy (pieces content))) := by
  rw [extract, grammars_eq_map] at h
  obtain ⟨consumed, hconsumed, h⟩ := Result.bind_eq_ok.1 h
  obtain ⟨text, htext, h⟩ := Result.bind_eq_ok.1 h
  obtain ⟨tokens, htokens, h⟩ := Result.bind_eq_ok.1 h
  cases h
  obtain ⟨last, hstages, hlast⟩ :=
    exists_stages_of_consumeAll hsymbols (.ofContent hcontent) hconsumed
  rw [← hlast] at htext
  have hresult : text = chars (tidy last.parts) := last.masks.tidy.eq_of_restore htext
  refine ⟨_, last, hstages, htokens, htext, hstages.exists_cutOut, hresult,
    fun (hnone : tokens = []) => ?_⟩
  have hnoTokens : consumed.tokens.map (·.1) = [] := by
    have hpaired := Result.mapM_eq_ok.1 htokens
    rw [hnone] at hpaired
    exact List.forall₂_nil_right_iff.1 hpaired
  rw [hresult, hstages.parts_eq hnoTokens]
  rfl

/-- A line with spans, an inline field, a symbol without a date, and a tag. -/
def chores : Text :=
  "Water \x60a  b\x60   [due:: 2024-01-15]  [[X Y]] 🛫 soon #home".toList

/-- With two marks to spend the tag stays, as does the symbol. -/
theorem exists_stages_chores :
    ∃ (hcontent : openMark ∉ chores) (extraction : Extraction) (tokens : List Token)
    (last : Masked (protect chores).store),
      extract { metadataLimit := 2 } ⟨2024, 3, 13, rfl⟩ chores = .ok extraction ∧
      Stages ⟨2024, 3, 13, rfl⟩ [.dataview, .emoji, .tag, .context] tokens (.ofContent hcontent) last ∧
      extraction.content = chars (tidy last.parts) ∧
          extraction.content = "Water \x60a  b\x60 [[X Y]] 🛫 soon #home".toList := by
  have hread :
      ((extract { metadataLimit := 2 } ⟨2024, 3, 13, rfl⟩ chores).map Extraction.content).toOption =
      some "Water \x60a  b\x60 [[X Y]] 🛫 soon #home".toList := by
    decide +kernel
  obtain ⟨extraction, hextraction, hresult⟩ := Result.exists_of_map hread
  have hcontent : openMark ∉ chores := by decide +kernel
  obtain ⟨tokens, last, hstages, -, -, -, hchars, -⟩ :=
    exists_stages_of_extract rfl hcontent hextraction
  exact ⟨hcontent, extraction, tokens, last, hextraction, hstages, hchars, hresult⟩

end Checklist.Markup
