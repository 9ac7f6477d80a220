import Checklist.Markup.Span
import Checklist.Proofs.Except
import Checklist.Proofs.Text
import Mathlib.Data.List.Infix

/-! # Spans are put back where they were

A text falls into pieces, and only the spans among them are taken out. Main statements: what a span
is (`span?_eq_some_iff`), how a text is cut into pieces (`isCut_pieces`), when a text can be
restored (`restore_isOk_iff`), and that pieces that were masked are restored (`restore_mask`). -/

namespace Checklist.Markup
set_option autoImplicit false
open Text

/-! ## Spans -/

/-- A wiki link or a markdown link. -/
inductive IsLink : Text → Prop where
  | wiki (inner : Text) (h : ∀ c ∈ inner, (c != ']' && c != '\n') = true) :
      IsLink ("[[".toList ++ inner ++ "]]".toList)
  | titled (label target : Text) (hlabel : ∀ c ∈ label, (c != '[' && c != ']' && c != '\n') = true)
      (htarget : ∀ c ∈ target, (c != '(' && c != ')' && !isBlank c) = true) :
      IsLink ('[' :: label ++ "](".toList ++ target ++ [')'])

/-- Inline code, or a link, perhaps with an exclamation mark before it. -/
inductive IsSpan : Text → Prop where
  | code (inner : Text) (h : ∀ c ∈ inner, (c != '\x60' && c != '\n') = true) :
      IsSpan ('\x60' :: inner ++ ['\x60'])
  | link {s : Text} (h : IsLink s) : IsSpan s
  | embedded {s : Text} (h : IsLink s) : IsSpan ('!' :: s)

theorem isLink_of_wikiLink? {s link : Text} (h : wikiLink? s = some link) :
    IsLink link ∧ link <+: s := by
  unfold wikiLink? at h
  split at h
  · rename_i rest
    simp only [Option.ite_none_right_eq_some, Option.some.injEq] at h
    obtain ⟨hends, rfl⟩ := h
    obtain ⟨after, hafter⟩ := List.isPrefixOf_iff_prefix.1 hends
    refine ⟨.wiki _ (forall_mem_takeWhile _ _), after, ?_⟩
    have hsplit := List.takeWhile_append_dropWhile (p := fun c => c != ']' && c != '\n') (l := rest)
    rw [← hafter] at hsplit
    simpa using hsplit
  · cases h

theorem isLink_of_link? {s link : Text} (h : link? s = some link) : IsLink link ∧ link <+: s := by
  unfold link? at h
  split at h
  · rename_i rest
    simp only at h
    split at h
    · rename_i after hdrop
      simp only [Option.ite_none_right_eq_some, Option.some.injEq] at h
      obtain ⟨hends, rfl⟩ := h
      obtain ⟨behind, hbehind⟩ := List.head?_eq_some_iff.1 (beq_iff_eq.1 hends)
      refine ⟨.titled _ _ (forall_mem_takeWhile _ _) (forall_mem_takeWhile _ _), behind, ?_⟩
      have hsplit :=
          List.takeWhile_append_dropWhile
            (p := fun c => c != '[' && c != ']' && c != '\n') (l := rest)
      have htarget :=
          List.takeWhile_append_dropWhile
            (p := fun c => c != '(' && c != ')' && !isBlank c) (l := after)
      rw [hbehind] at htarget
      rw [hdrop, ← htarget] at hsplit
      conv_rhs => rw [← hsplit]
      simp [htarget]
    · cases h
  · cases h

theorem isSpan_of_span? {s span : Text} (h : span? s = some span) : IsSpan span ∧ span <+: s := by
  unfold span? at h
  split at h
  · rename_i rest
    obtain ⟨link, hlink, rfl⟩ := Option.map_eq_some_iff.1 h
    rcases Option.or_eq_some_iff.1 hlink with hwiki | ⟨-, htitled⟩
    · obtain ⟨hlink, hstarts⟩ := isLink_of_wikiLink? hwiki
      exact ⟨.embedded hlink, List.cons_prefix_cons.2 ⟨rfl, hstarts⟩⟩
    · obtain ⟨hlink, hstarts⟩ := isLink_of_link? htitled
      exact ⟨.embedded hlink, List.cons_prefix_cons.2 ⟨rfl, hstarts⟩⟩
  · rcases Option.or_eq_some_iff.1 h with hcode | ⟨-, hlink⟩
    · unfold code? at hcode
      split at hcode
      · rename_i rest _
        simp only [Option.ite_none_right_eq_some, Option.some.injEq] at hcode
        obtain ⟨hends, rfl⟩ := hcode
        obtain ⟨after, hafter⟩ := List.head?_eq_some_iff.1 (beq_iff_eq.1 hends)
        refine ⟨.code _ (forall_mem_takeWhile _ _), after, ?_⟩
        have hsplit :=
            List.takeWhile_append_dropWhile (p := fun c => c != '\x60' && c != '\n') (l := rest)
        rw [hafter] at hsplit
        simpa using hsplit
      · cases hcode
    · rcases Option.or_eq_some_iff.1 hlink with hwiki | ⟨-, htitled⟩
      · obtain ⟨hlink, hstarts⟩ := isLink_of_wikiLink? hwiki
        exact ⟨.link hlink, hstarts⟩
      · obtain ⟨hlink, hstarts⟩ := isLink_of_link? htitled
        exact ⟨.link hlink, hstarts⟩

theorem link?_append {link : Text} (h : IsLink link) (rest : Text) :
    (wikiLink? (link ++ rest)).or (link? (link ++ rest)) = some link ∧ ∃ others,
      link = '[' :: others := by
  cases h with
  | wiki inner hinner =>
    have hclose : (fun c => c != ']' && c != '\n') ']' = false := by decide
    have hwiki : wikiLink? ("[[".toList ++ inner ++ "]]".toList ++ rest) =
        some ("[[".toList ++ inner ++ "]]".toList) := by
      have htake := @takeWhile_append_cons _ inner (']' :: rest) ']' hinner hclose
      have hdrop := @dropWhile_append_cons _ inner (']' :: rest) ']' hinner hclose
      simp [wikiLink?, htake, hdrop]
    rw [hwiki]
    exact ⟨rfl, _, rfl⟩
  | titled label target hlabel htarget =>
    have hnone : wikiLink? ('[' :: label ++ "](".toList ++ target ++ [')'] ++ rest) = none := by
      cases label with
      | nil => rfl
      | cons c label =>
        have hc := hlabel c List.mem_cons_self
        simp only [Bool.and_eq_true, bne_iff_ne] at hc
        simp only [wikiLink?, List.cons_append]
        split
        · rename_i heq
          exact absurd (List.cons.inj (List.cons.inj heq).2).1 hc.1.1
        · rfl
    have htitled : link? ('[' :: label ++ "](".toList ++ target ++ [')'] ++ rest) =
        some ('[' :: label ++ "](".toList ++ target ++ [')']) := by
      have hclose : (fun c => c != '[' && c != ']' && c != '\n') ']' = false := by decide
      have hend : (fun c => c != '(' && c != ')' && !isBlank c) ')' = false := by decide
      have htakeLabel :=
        @takeWhile_append_cons _ label ('(' :: (target ++ ')' :: rest)) ']' hlabel hclose
      have hdropLabel :=
        @dropWhile_append_cons _ label ('(' :: (target ++ ')' :: rest)) ']' hlabel hclose
      have htakeTarget := @takeWhile_append_cons _ target rest ')' htarget hend
      have hdropTarget := @dropWhile_append_cons _ target rest ')' htarget hend
      simp [link?, htakeLabel, hdropLabel, htakeTarget, hdropTarget]
    rw [hnone, htitled]
    exact ⟨rfl, _, rfl⟩

theorem span?_append {span : Text} (h : IsSpan span) (rest : Text) :
    span? (span ++ rest) = some span := by
  cases h with
  | code inner hinner =>
    have hclose : (fun c => c != '\x60' && c != '\n') '\x60' = false := by decide
    have htake := @takeWhile_append_cons _ inner rest '\x60' hinner hclose
    have hdrop := @dropWhile_append_cons _ inner rest '\x60' hinner hclose
    simp [span?, code?, htake, hdrop]
  | link hlink =>
    obtain ⟨hfound, others, rfl⟩ := link?_append hlink rest
    rw [List.cons_append] at hfound ⊢
    simp [span?, code?, hfound]
  | embedded hlink =>
    obtain ⟨hfound, -⟩ := link?_append hlink rest
    simp [span?, hfound]

/-- A text starts with a span exactly if a text of one of the three forms stands at its start. -/
theorem span?_eq_some_iff {s span : Text} : span? s = some span ↔ IsSpan span ∧ span <+: s := by
  constructor
  · exact isSpan_of_span?
  · rintro ⟨hspan, rest, rfl⟩
    exact span?_append hspan rest

theorem IsLink.isTrimmed {link : Text} (h : IsLink link) : IsTrimmed link ∧ '\n' ∉ link := by
  cases h with
  | wiki inner hinner =>
    refine ⟨.append (isTrimmed_of_forall (by decide) (by decide))
      (isTrimmed_of_forall (by decide) (by decide)) inner, fun hmem => ?_⟩
    rcases List.mem_append.1 hmem with hmem | hmem
    · rcases List.mem_append.1 hmem with hmem | hmem
      · exact absurd hmem (by decide)
      · exact absurd (hinner _ hmem) (by decide)
    · exact absurd hmem (by decide)
  | titled label target hlabel htarget =>
    have htrimmed :=
        IsTrimmed.append (s := ['[']) (t := [')']) (isTrimmed_of_forall (by decide) (by decide))
      (isTrimmed_of_forall (by decide) (by decide)) (label ++ "](".toList ++ target)
    refine ⟨by simpa using htrimmed, fun hmem => ?_⟩
    simp only [List.cons_append, List.mem_cons, List.mem_append, List.not_mem_nil, or_false] at hmem
    rcases hmem with hmem | ((hmem | hmem) | hmem) | hmem
    · exact absurd hmem (by decide)
    · exact absurd (hlabel _ hmem) (by decide)
    · exact absurd hmem (by decide)
    · exact absurd (htarget _ hmem) (by decide)
    · exact absurd hmem (by decide)

theorem IsSpan.isTrimmed {span : Text} (h : IsSpan span) : IsTrimmed span ∧ '\n' ∉ span := by
  cases h with
  | code inner hinner =>
    refine ⟨.append (s := ['\x60']) (isTrimmed_of_forall (by decide) (by decide))
      (isTrimmed_of_forall (by decide) (by decide)) inner,
      fun hmem => ?_⟩
    simp only [List.cons_append, List.mem_cons, List.mem_append, List.not_mem_nil, or_false] at hmem
    rcases hmem with hmem | hmem | hmem
    · exact absurd hmem (by decide)
    · exact absurd (hinner _ hmem) (by decide)
    · exact absurd hmem (by decide)
  | link hlink => exact hlink.isTrimmed
  | embedded hlink =>
    obtain ⟨htrimmed, hline⟩ := hlink.isTrimmed
    refine ⟨⟨by simp, fun c hc => ?_, fun c hc => htrimmed.last c ?_⟩, fun hmem => ?_⟩
    · cases hc
      decide
    · rwa [List.getLast?_cons_of_ne_nil htrimmed.ne_nil] at hc
    · rcases List.mem_cons.1 hmem with hmem | hmem
      · exact absurd hmem (by decide)
      · exact hline hmem

/-! ## The pieces of a text -/

def chars (parts : List Piece) : Text :=
  parts.flatMap Piece.chars

theorem chars_append (first rest : List Piece) :
    chars (first ++ rest) = chars first ++ chars rest :=
  List.flatMap_append

@[simp] theorem chars_plain (s : Text) : chars (s.map .plain) = s := by
  induction s with
  | nil => rfl
  | cons c rest ih => exact congrArg (c :: ·) ih

/-- The spans among the pieces are spans, and none starts at a character between them. -/
inductive IsCut : List Piece → Prop where
  | nil : IsCut []
  | plain {c : Char} {parts : List Piece} (hc : span? (c :: chars parts) = none) (h : IsCut parts) :
      IsCut (.plain c :: parts)
  | span {s : Text} {parts : List Piece} (hs : IsSpan s) (h : IsCut parts) :
      IsCut (.span s :: parts)

theorem piecesAfter_eq (skip : Nat) (s : Text) : piecesAfter skip s = pieces (s.drop skip) := by
  induction s generalizing skip with
  | nil => cases skip <;> rfl
  | cons c rest ih =>
    cases skip with
    | zero => rfl
    | succ skip => exact ih skip

theorem IsSpan.ne_nil {s : Text} (h : IsSpan s) : s ≠ [] :=
  h.isTrimmed.1.ne_nil

theorem pieces_plain {c : Char} {rest : Text} (h : span? (c :: rest) = none) :
    pieces (c :: rest) = .plain c :: pieces rest := by
  rw [pieces, piecesAfter, h, piecesAfter_eq]
  rfl

theorem pieces_span {span : Text} (h : IsSpan span) (rest : Text) :
    pieces (span ++ rest) = .span span :: pieces rest := by
  have hfound := span?_append h rest
  cases span with
  | nil => exact absurd rfl h.ne_nil
  | cons c others =>
    rw [List.cons_append] at hfound ⊢
    rw [pieces, piecesAfter, hfound]
    simp only [List.length_cons, Nat.add_sub_cancel]
    rw [piecesAfter_eq, List.drop_left]

theorem isCut_pieces (s : Text) : IsCut (pieces s) ∧ chars (pieces s) = s := by
  induction hn : s.length using Nat.strong_induction_on generalizing s with
  | _ n ih =>
    subst hn
    cases s with
    | nil => exact ⟨.nil, rfl⟩
    | cons c rest =>
      cases hspan : span? (c :: rest) with
      | none =>
        obtain ⟨hcut, hchars⟩ := ih rest.length (by simp) rest rfl
        rw [pieces_plain hspan]
        exact ⟨.plain (by rwa [hchars]) hcut, congrArg (c :: ·) hchars⟩
      | some span =>
        obtain ⟨hspan, after, hafter⟩ := isSpan_of_span? hspan
        have hpositive := List.length_pos_iff.2 hspan.ne_nil
        obtain ⟨hcut, hchars⟩ :=
          ih after.length (by rw [← hafter, List.length_append]; omega) after rfl
        rw [← hafter, pieces_span hspan]
        exact ⟨.span hspan hcut, congrArg (span ++ ·) hchars⟩

def isOpener (c : Char) : Bool :=
  c == '\x60' || c == '[' || c == '!'

theorem IsSpan.head {span rest : Text} {c : Char} (h : IsSpan span) (hstarts : span <+: c :: rest) :
    isOpener c = true := by
  cases h with
  | code inner _ =>
    obtain rfl := (List.cons_prefix_cons.1 hstarts).1
    rfl
  | link hlink =>
    obtain ⟨others, rfl⟩ := (link?_append hlink []).2
    obtain rfl := (List.cons_prefix_cons.1 hstarts).1
    rfl
  | embedded _ =>
    obtain rfl := (List.cons_prefix_cons.1 hstarts).1
    rfl

theorem span?_eq_none {c : Char} {rest : Text} (h : isOpener c = false) :
    span? (c :: rest) = none := by
  rw [Option.eq_none_iff_forall_ne_some]
  intro span hspan
  obtain ⟨hspan, hstarts⟩ := isSpan_of_span? hspan
  rw [hspan.head hstarts] at h
  cases h

theorem pieces_of_forall {s : Text} (h : ∀ c ∈ s, isOpener c = false) :
    pieces s = s.map .plain := by
  induction s with
  | nil => rfl
  | cons c rest ih =>
    rw [pieces_plain (span?_eq_none (h c List.mem_cons_self)),
      ih fun d hd => h d (List.mem_cons_of_mem _ hd)]
    rfl

/-! ## Masks -/

theorem spans_append (first rest : List Piece) :
    spans (first ++ rest) = spans first ++ spans rest :=
  List.filterMap_append

@[simp] theorem spans_plain (s : Text) : spans (s.map .plain) = [] := by
  induction s with
  | nil => rfl
  | cons c rest ih => exact ih

theorem length_spans_cons (s : Text) (parts : List Piece) (number : Nat) :
    number + (spans (.span s :: parts)).length = number + 1 + (spans parts).length := by
  simp only [spans, List.filterMap_cons, List.length_cons]
  omega

theorem mask_append (number : Nat) (first rest : List Piece) :
    mask number (first ++ rest) = mask number first ++
      mask (number + (spans first).length) rest := by
  induction first generalizing number with
  | nil => rfl
  | cons part first ih => cases part with
    | plain c => exact congrArg (c :: ·) (ih number)
    | span s => rw [length_spans_cons, List.cons_append, mask, ih, mask, List.append_assoc]

@[simp] theorem mask_plain (number : Nat) (s : Text) : mask number (s.map .plain) = s := by
  induction s with
  | nil => rfl
  | cons c rest ih => exact congrArg (c :: ·) ih

theorem mask_ne_nil {number : Nat} {parts : List Piece} (h : parts ≠ []) :
    mask number parts ≠ [] := by
  cases parts with
  | nil => exact absurd rfl h
  | cons part parts => cases part <;> simp [mask, placeholder]

theorem IsCut.chars_ne_nil {parts : List Piece} (h : IsCut parts) (hne : parts ≠ []) :
    chars parts ≠ [] := by
  cases h with
  | nil => exact absurd rfl hne
  | plain _ _ => simp [chars, Piece.chars]
  | span hs _ => simp [chars, Piece.chars, hs.ne_nil]

def isMasking (c : Char) : Bool :=
  c == openMark || c == closeMark || c.isDigit

theorem isMasking_of_mem_placeholder {number : Nat} {c : Char} (h : c ∈ placeholder number) :
    isMasking c = true := by
  simp only [placeholder, List.cons_append, List.mem_cons, List.mem_append,
    List.not_mem_nil, or_false] at h
  rcases h with rfl | hdigit | rfl
  · rfl
  · simp [isMasking, isDigit_of_mem_ofNat hdigit]
  · rfl

theorem mem_mask {number : Nat} {parts : List Piece} {c : Char} (h : c ∈ mask number parts) :
    .plain c ∈ parts ∨ isMasking c = true := by
  induction parts generalizing number with
  | nil => cases h
  | cons part parts ih => cases part with
    | plain d =>
      rcases List.mem_cons.1 h with rfl | h
      · exact .inl List.mem_cons_self
      · exact (ih h).imp_left (List.mem_cons_of_mem _)
    | span s =>
      rcases List.mem_append.1 h with h | h
      · exact .inr (isMasking_of_mem_placeholder h)
      · exact (ih h).imp_left (List.mem_cons_of_mem _)

theorem mem_chars_of_plain {parts : List Piece} {c : Char} (h : .plain c ∈ parts) :
    c ∈ chars parts :=
  List.mem_flatMap.2 ⟨_, h, List.mem_singleton.2 rfl⟩

theorem mem_of_plain {s : Text} {c : Char} (h : .plain c ∈ pieces s) : c ∈ s := by
  rw [← (isCut_pieces s).2]
  exact mem_chars_of_plain h

theorem mask_eq_append_cons {number : Nat} {parts : List Piece} {before after : Text} {c : Char}
    (hc : isMasking c = false) (h : mask number parts = before ++ c :: after) :
    ∃ first rest, parts = first ++ .plain c :: rest ∧
      mask number first = before ∧ mask (number + (spans first).length) rest = after := by
  induction parts generalizing number before with
  | nil => simp [mask] at h
  | cons part parts ih => cases part with
    | plain d =>
      cases before with
      | nil =>
        obtain ⟨rfl, rfl⟩ := List.cons.inj h
        exact ⟨[], parts, rfl, rfl, rfl⟩
      | cons e before =>
        have htail := List.cons.inj h
        obtain ⟨first, rest, rfl, rfl, hrest⟩ := ih htail.2
        exact ⟨.plain d :: first, rest, rfl, congrArg (· :: _) htail.1, hrest⟩
    | span s =>
      have hwithin : ∃ between, before = placeholder number ++ between ∧
          mask (number + 1) parts = between ++ c :: after := by
        rw [mask, List.append_eq_append_iff] at h
        rcases h with hwithin | ⟨between, hbetween, h⟩
        · exact hwithin
        · cases between with
          | nil => exact ⟨[], by simpa using hbetween.symm, h.symm⟩
          | cons d between =>
            obtain rfl := (List.cons.inj h).1
            have hmem : c ∈ placeholder number := by
              rw [hbetween]
              exact List.mem_append_right _ List.mem_cons_self
            rw [isMasking_of_mem_placeholder hmem] at hc
            cases hc
      obtain ⟨between, rfl, hbetween⟩ := hwithin
      obtain ⟨first, rest, rfl, rfl, hrest⟩ := ih hbetween
      exact ⟨.span s :: first, rest, rfl, rfl, by rw [length_spans_cons, hrest]⟩

/-! ## Placeholders -/

/-- Every placeholder in the text has its span: its number can be read and is one of the
stored spans. -/
def IsRestorable (store : List Text) (s : Text) : Prop :=
  store ≠ [] → ∀ digits, digits ≠ [] → (∀ c ∈ digits, isDecimal c = true) →
    openMark :: (digits ++ [closeMark]) <:+: s →
    digits.length ≤ digitLimit ∧ digitsValue digits < store.length

theorem placeholderDigits?_eq_some_iff {s digits : Text} : placeholderDigits? s = some digits ↔
    digits ≠ [] ∧ (∀ c ∈ digits, isDecimal c = true) ∧
      openMark :: (digits ++ [closeMark]) <+: s := by
  have hclose : isDecimal closeMark = false := by decide
  cases s with
  | nil => simp [placeholderDigits?]
  | cons c rest =>
    simp only [placeholderDigits?, Option.ite_none_right_eq_some, Bool.and_eq_true,
      beq_iff_eq, Option.some.injEq]
    constructor
    · rintro ⟨⟨⟨rfl, hne⟩, hhead⟩, rfl⟩
      obtain ⟨after, hafter⟩ := List.head?_eq_some_iff.1 hhead
      refine ⟨by simpa using hne, fun c hc => List.mem_takeWhile_imp hc, ?_⟩
      · refine List.cons_prefix_cons.2 ⟨rfl, after, ?_⟩
        rw [List.append_assoc, List.singleton_append, ← hafter, List.takeWhile_append_dropWhile]
    · rintro ⟨hne, hall, hstarts⟩
      obtain ⟨rfl, after, rfl⟩ := List.cons_prefix_cons.1 hstarts
      rw [List.append_assoc, List.singleton_append, takeWhile_append_cons hall hclose,
        dropWhile_append_cons hall hclose]
      simp [hne]

theorem openMark_notMem_digits {digits : Text} (hall : ∀ c ∈ digits, isDecimal c = true) :
    openMark ∉ digits ++ [closeMark] := by
  intro hmem
  rcases List.mem_append.1 hmem with hmem | hmem
  · exact absurd (hall _ hmem) (by decide)
  · exact absurd (List.mem_singleton.1 hmem) (by decide)

theorem storedSpan_isOk_iff {store : List Text} {digits : Text} (hne : digits ≠ [])
    (hall : ∀ c ∈ digits, isDecimal c = true) :
    (∃ span, storedSpan store digits = .ok span) ↔ digits.length ≤ digitLimit ∧
      digitsValue digits < store.length := by
  have hempty : digits.isEmpty = false := by simpa using hne
  have hdecimal : digits.all isDecimal = true := List.all_eq_true.2 hall
  by_cases hlength : digits.length ≤ digitLimit
  · have hread : readNat? digits =
        some (digitsValue digits) := by simp [readNat?, hempty, hdecimal, hlength]
    cases hspan : store[digitsValue digits]? with
    | none =>
      have hout : ¬digitsValue digits < store.length := by
        have hle := List.getElem?_eq_none_iff.1 hspan
        omega
      simp [storedSpan, hread, hout]
    | some span =>
      obtain ⟨hin, -⟩ := List.getElem?_eq_some_iff.1 hspan
      simp [storedSpan, hread, hin, hlength]
  · have hread : readNat? digits = none := by simp [readNat?, hempty, hdecimal, hlength]
    simp [storedSpan, hread, hlength]

theorem infix_of_infix_append {c : Char} {s before after : Text} (hbefore : c ∉ before)
    (h : c :: s <:+: before ++ after) :
    c :: s <:+: after := by
  induction before with
  | nil => exact h
  | cons d before ih =>
    rw [List.cons_append, List.infix_cons_iff] at h
    rcases h with hstarts | hoccurs
    · obtain ⟨rfl, -⟩ := List.cons_prefix_cons.1 hstarts
      exact absurd List.mem_cons_self hbefore
    · exact ih (fun hc => hbefore (List.mem_cons_of_mem _ hc)) hoccurs

theorem restoreAfter_isOk_iff {store : List Text} {skip : Nat} {s : Text} :
    (∃ result, restoreAfter store skip s = .ok result) ↔
      ∀ digits, digits ≠ [] → (∀ c ∈ digits, isDecimal c = true) →
        openMark :: (digits ++ [closeMark]) <:+: s.drop skip →
        digits.length ≤ digitLimit ∧ digitsValue digits < store.length := by
  induction s generalizing skip with
  | nil =>
    refine iff_of_true ⟨[], by cases skip <;> rfl⟩ fun digits _ _ hoccurs => ?_
    simp at hoccurs
  | cons c rest ih =>
    cases skip with
    | succ skip => exact ih
    | zero =>
      rw [restoreAfter, List.drop_zero]
      cases hplaceholder : placeholderDigits? (c :: rest) with
      | none =>
        have hno : ∀ digits, digits ≠ [] → (∀ d ∈ digits, isDecimal d = true) →
            ¬openMark :: (digits ++ [closeMark]) <+: c :: rest := by
          intro digits hne hall hstarts
          rw [placeholderDigits?_eq_some_iff.2 ⟨hne, hall, hstarts⟩] at hplaceholder
          cases hplaceholder
        have hrest :
            (∃ result, (do return c :: (← restoreAfter store 0 rest) : Except Failure Text) =
              .ok result) ↔
            ∃ result, restoreAfter store 0 rest = .ok result := by
          rw [Result.bind_isOk_iff]
          exact exists_congr fun result => and_iff_left ⟨_, rfl⟩
        refine hrest.trans (ih.trans ?_)
        refine forall_congr' fun digits => forall_congr' fun hne => forall_congr' fun hall => ?_
        rw [List.drop_zero, List.infix_cons_iff, or_iff_right (hno digits hne hall)]
      | some digits =>
        obtain ⟨hne, hall, hstarts⟩ := placeholderDigits?_eq_some_iff.1 hplaceholder
        obtain ⟨rfl, after, rfl⟩ := List.cons_prefix_cons.1 hstarts
        have hdrop : (digits ++ [closeMark] ++ after).drop (digits.length + 1) = after := by
          rw [← List.length_singleton (a := closeMark), ← List.length_append, List.drop_left]
        have hrest := @ih (digits.length + 1)
        rw [hdrop] at hrest
        simp only
        rw [Result.bind_isOk_iff]
        constructor
        · rintro ⟨span, hspan, hafter⟩ others hne' hall' hoccurs
          rw [Result.bind_isOk_iff] at hafter
          obtain ⟨result, hresult, -⟩ := hafter
          rcases List.infix_cons_iff.1 hoccurs with hstarts' | hoccurs'
          · obtain rfl : digits = others :=
              Option.some.inj
                (hplaceholder.symm.trans (placeholderDigits?_eq_some_iff.2 ⟨hne', hall', hstarts'⟩))
            exact (storedSpan_isOk_iff hne hall).1 ⟨span, hspan⟩
          · -- a placeholder holds no mark but its first, so a later one stands behind it
            exact hrest.1 ⟨result, hresult⟩ others hne' hall'
              (infix_of_infix_append (openMark_notMem_digits hall) hoccurs')
        · intro h
          obtain ⟨span, hspan⟩ :=
            (storedSpan_isOk_iff hne hall).2 (h digits hne hall hstarts.isInfix)
          obtain ⟨result, hresult⟩ := hrest.2 fun others hne' hall' hoccurs =>
            h others hne' hall' (hoccurs.trans ⟨openMark :: (digits ++ [closeMark]), [], by simp⟩)
          exact ⟨span, hspan, Result.bind_isOk_iff.2 ⟨result, hresult, _, rfl⟩⟩

theorem restore_isOk_iff {store : List Text} {s : Text} : (∃ result, restore store s = .ok result) ↔
    IsRestorable store s := by
  unfold restore IsRestorable
  cases store with
  | nil => simp
  | cons span store => exact restoreAfter_isOk_iff.trans (by simp)

/-! ## What a text is restored to -/

/-- A text and what comes of it when spans are put back, placeholder by placeholder. -/
inductive Restores (store : List Text) : Text → Text → Prop where
  | nil : Restores store [] []
  | plain {c : Char} {rest result : Text} (hc : placeholderDigits? (c :: rest) = none)
      (h : Restores store rest result) :
      Restores store (c :: rest) (c :: result)
  | placeholder {digits span rest result : Text} (hne : digits ≠ [])
      (hall : ∀ c ∈ digits, isDecimal c = true)
      (hspan : storedSpan store digits = .ok span) (h : Restores store rest result) :
      Restores store (openMark :: (digits ++ closeMark :: rest)) (span ++ result)

theorem restoreAfter_eq (store : List Text) (skip : Nat) (s : Text) :
    restoreAfter store skip s = restoreAfter store 0 (s.drop skip) := by
  induction s generalizing skip with
  | nil => cases skip <;> rfl
  | cons c rest ih =>
    cases skip with
    | zero => rfl
    | succ skip => exact ih skip

theorem placeholderDigits?_append {digits : Text} (hne : digits ≠ [])
    (hall : ∀ c ∈ digits, isDecimal c = true) (rest : Text) :
    placeholderDigits? (openMark :: (digits ++ closeMark :: rest)) = some digits :=
  placeholderDigits?_eq_some_iff.2 ⟨hne, hall, rest, by simp⟩

theorem restoreAfter_placeholder {store : List Text} {digits rest : Text} (hne : digits ≠ [])
    (hall : ∀ c ∈ digits, isDecimal c = true) :
    restoreAfter store 0 (openMark :: (digits ++ closeMark :: rest)) =
      storedSpan store digits >>= fun span => restoreAfter store 0 rest >>= fun result =>
        .ok (span ++ result) := by
  have hdrop : (digits ++ closeMark :: rest).drop (digits.length + 1) = rest := by
    rw [List.append_cons, ← List.length_singleton (a := closeMark),
      ← List.length_append, List.drop_left]
  rw [restoreAfter, placeholderDigits?_append hne hall]
  simp only [restoreAfter_eq store (digits.length + 1), hdrop]
  rfl

theorem restoreAfter_eq_ok_iff {store : List Text} {s result : Text} :
    restoreAfter store 0 s = .ok result ↔ Restores store s result := by
  constructor
  · induction hn : s.length using Nat.strong_induction_on generalizing s result with
    | _ n ih =>
      subst hn
      intro h
      cases s with
      | nil =>
        obtain rfl : [] = result := Except.ok.inj h
        exact .nil
      | cons c rest =>
        cases hdigits : placeholderDigits? (c :: rest) with
        | none =>
          rw [restoreAfter, hdigits] at h
          obtain ⟨restored, hrestored, h⟩ := Result.bind_eq_ok.1 h
          cases h
          exact .plain hdigits (ih rest.length (by simp) rfl hrestored)
        | some digits =>
          obtain ⟨hne, hall, after, hafter⟩ := placeholderDigits?_eq_some_iff.1 hdigits
          have hsplit : openMark :: (digits ++ closeMark :: after) =
              c :: rest := by simpa using hafter
          rw [← hsplit] at h ⊢
          rw [restoreAfter_placeholder hne hall] at h
          obtain ⟨span, hspan, h⟩ := Result.bind_eq_ok.1 h
          obtain ⟨restored, hrestored, h⟩ := Result.bind_eq_ok.1 h
          cases h
          refine .placeholder hne hall hspan (ih after.length ?_ rfl hrestored)
          rw [← hsplit]
          simp only [List.length_cons, List.length_append]
          omega
  · intro h
    induction h with
    | nil => rfl
    | plain hc _ ih =>
      rw [restoreAfter, hc]
      exact Result.bind_eq_ok.2 ⟨_, ih, rfl⟩
    | placeholder hne hall hspan _ ih =>
      rw [restoreAfter_placeholder hne hall]
      exact Result.bind_eq_ok.2 ⟨_, hspan, Result.bind_eq_ok.2 ⟨_, ih, rfl⟩⟩

theorem placeholderDigits?_eq_none {c : Char} {rest : Text} (h : c ≠ openMark) :
    placeholderDigits? (c :: rest) = none := by
  simp [placeholderDigits?, h]

theorem storedSpan_eq_ok_iff {store : List Text} {digits span : Text} :
    storedSpan store digits = .ok span ↔ ∃ number, readNat? digits = some number ∧
      store[number]? = some span := by
  unfold storedSpan
  cases readNat? digits with
  | none => simp
  | some number =>
    simp only [Option.some.injEq, exists_eq_left']
    cases hfound : store[number]? <;> simp

theorem mem_of_storedSpan {store : List Text} {digits span : Text}
    (h : storedSpan store digits = .ok span) : span ∈ store := by
  obtain ⟨number, -, hfound⟩ := storedSpan_eq_ok_iff.1 h
  exact List.mem_of_getElem? hfound

theorem restores_of_notMem {store : List Text} {s : Text} (h : openMark ∉ s) :
    Restores store s s := by
  induction s with
  | nil => exact .nil
  | cons c rest ih =>
    rw [List.mem_cons, not_or] at h
    exact .plain (placeholderDigits?_eq_none (Ne.symm h.1)) (ih h.2)

theorem Restores.append_store {store : List Text} {s result : Text} (h : Restores store s result)
    (more : List Text) :
    Restores (store ++ more) s result := by
  induction h with
  | nil => exact .nil
  | plain hc _ ih => exact .plain hc ih
  | placeholder hne hall hspan _ ih =>
    obtain ⟨number, hread, hfound⟩ := storedSpan_eq_ok_iff.1 hspan
    obtain ⟨hlt, -⟩ := List.getElem?_eq_some_iff.1 hfound
    refine .placeholder hne hall (storedSpan_eq_ok_iff.2 ⟨number, hread, ?_⟩) ih
    rw [List.getElem?_append_left hlt, hfound]

theorem Restores.mem {store : List Text} {s result : Text} (h : Restores store s result)
    {c : Char} (hc : c ∈ result) :
    c ∈ s ∨ ∃ span ∈ store, c ∈ span := by
  induction h with
  | nil => cases hc
  | plain _ _ ih =>
    rcases List.mem_cons.1 hc with rfl | hc
    · exact .inl List.mem_cons_self
    · exact (ih hc).imp_left (List.mem_cons_of_mem _)
  | placeholder _ _ hspan _ ih =>
    rcases List.mem_append.1 hc with hc | hc
    · exact .inr ⟨_, mem_of_storedSpan hspan, hc⟩
    · refine (ih hc).imp_left fun hrest => ?_
      exact List.mem_cons_of_mem _ (List.mem_append_right _ (List.mem_cons_of_mem _ hrest))

theorem Restores.eq_nil_iff {store : List Text} (hstore : [] ∉ store) {s result : Text}
    (h : Restores store s result) : result = [] ↔ s = [] := by
  cases h with
  | nil => simp
  | plain _ _ => simp
  | placeholder _ _ hspan _ =>
    have hne := ne_of_mem_of_not_mem (mem_of_storedSpan hspan) hstore
    simp [hne]

/-- The last character of what is restored is that of the text, or that of a span. -/
theorem Restores.last {store : List Text} (hstore : [] ∉ store) {s result : Text}
    (h : Restores store s result) {c : Char}
    (hc : result.getLast? = some c) : s.getLast? = some c ∨ ∃ span ∈ store,
      span.getLast? = some c := by
  induction h with
  | nil => cases hc
  | @plain d rest result _ h ih =>
    by_cases hrest : rest = []
    · rw [(h.eq_nil_iff hstore).2 hrest] at hc
      exact .inl (hrest ▸ hc)
    · rw [List.getLast?_cons_of_ne_nil (mt (h.eq_nil_iff hstore).1 hrest)] at hc
      rw [List.getLast?_cons_of_ne_nil hrest]
      exact ih hc
  | @placeholder digits span rest result _ _ hspan h ih =>
    by_cases hrest : rest = []
    · rw [(h.eq_nil_iff hstore).2 hrest, List.append_nil] at hc
      exact .inr ⟨span, mem_of_storedSpan hspan, hc⟩
    · rw [List.getLast?_append_of_ne_nil _ (mt (h.eq_nil_iff hstore).1 hrest)] at hc
      have hsplit : openMark :: (digits ++ closeMark :: rest) =
          (openMark :: (digits ++ [closeMark])) ++ rest := by simp
      rw [hsplit, List.getLast?_append_of_ne_nil _ hrest]
      exact ih hc

theorem Restores.isTrimmed {store : List Text} (hstore : ∀ span ∈ store, IsTrimmed span)
    {s result : Text} (h : Restores store s result) (hs : IsTrimmed s) : IsTrimmed result := by
  have hempty : [] ∉ store := fun hmem => (hstore _ hmem).ne_nil rfl
  refine ⟨mt (h.eq_nil_iff hempty).1 hs.ne_nil, fun c hc => ?_, fun c hc => ?_⟩
  · cases h with
    | nil => exact absurd rfl hs.ne_nil
    | plain _ _ => exact hs.head c (by simpa using hc)
    | placeholder _ _ hspan _ =>
      have hspan := hstore _ (mem_of_storedSpan hspan)
      rw [List.head?_append_of_ne_nil _ hspan.ne_nil] at hc
      exact hspan.head c hc
  · rcases h.last hempty hc with hlast | ⟨span, hspan, hlast⟩
    · exact hs.last c hlast
    · exact (hstore span hspan).last c hlast

/-! ## What was masked is restored -/

/-- The text stands for the pieces: a character for itself, and a placeholder for the span that is
stored under its number. -/
inductive Masks (store : List Text) : List Piece → Text → Prop where
  | nil : Masks store [] []
  | plain {c : Char} {parts : List Piece} {s : Text} (hc : c ≠ openMark) (h : Masks store parts s) :
      Masks store (.plain c :: parts) (c :: s)
  | span {number : Nat} {span : Text} {parts : List Piece} {s : Text}
      (hspan : store[number]? = some span) (h : Masks store parts s) :
      Masks store (.span span :: parts) (placeholder number ++ s)

theorem masks_mask {before : List Text} {parts : List Piece}
    (hplain : ∀ c, .plain c ∈ parts → c ≠ openMark) :
    Masks (before ++ spans parts) parts (mask before.length parts) := by
  induction parts generalizing before with
  | nil => exact .nil
  | cons part parts ih =>
    have htail : ∀ c, .plain c ∈ parts → c ≠ openMark :=
      fun c hc => hplain c (List.mem_cons_of_mem _ hc)
    cases part with
    | plain c => exact .plain (hplain c List.mem_cons_self) (ih htail)
    | span s =>
      have hstore : before ++ spans (.span s :: parts) = before ++ [s] ++
          spans parts := by simp [spans]
      have hrest := @ih (before ++ [s]) htail
      rw [← hstore, List.length_append, List.length_singleton] at hrest
      refine .span ?_ hrest
      rw [hstore]
      simp

theorem placeholder_append (number : Nat) (rest : Text) :
    placeholder number ++ rest = openMark :: (ofNat number ++ closeMark :: rest) := by
  simp [placeholder]

theorem isDecimal_of_mem_ofNat {number : Nat} {c : Char} (h : c ∈ ofNat number) :
    isDecimal c = true :=
  (isDecimal_of_isDigit (isDigit_of_mem_ofNat h)).1

/-- A masked text is restored to what it stands for, as long as all numbers can be read. -/
theorem Masks.restores {store : List Text} {parts : List Piece} {s : Text} (h : Masks store parts s)
    (hlimit : store.length ≤ 10 ^ digitLimit) :
    Restores store s (chars parts) := by
  induction h with
  | nil => exact .nil
  | plain hc _ ih => exact .plain (placeholderDigits?_eq_none hc) ih
  | @span number span parts s hspan _ ih =>
    obtain ⟨hin, -⟩ := List.getElem?_eq_some_iff.1 hspan
    have hread : readNat? (ofNat number) = some number :=
      readNat?_ofNat ((length_ofNat_le_iff (by decide)).2 (Nat.lt_of_lt_of_le hin hlimit))
    rw [placeholder_append]
    exact .placeholder (ofNat_ne_nil number) (fun c hc => isDecimal_of_mem_ofNat hc)
      (storedSpan_eq_ok_iff.2 ⟨number, hread, hspan⟩) ih

theorem Masks.eq_chars {store : List Text} {parts : List Piece} {s result : Text}
    (h : Masks store parts s) (hrestores : Restores store s result) :
    result = chars parts := by
  induction h generalizing result with
  | nil =>
    cases hrestores
    rfl
  | plain hc _ ih => cases hrestores with
    | plain _ hrest => exact congrArg (_ :: ·) (ih hrest)
    | placeholder _ _ _ _ => exact absurd rfl hc
  | @span number span parts s hspan _ ih =>
    have hdigits :=
      placeholderDigits?_append (ofNat_ne_nil number) (fun c hc => isDecimal_of_mem_ofNat hc) s
    rw [placeholder_append] at hrestores
    generalize hwhole : openMark :: (ofNat number ++ closeMark :: s) = whole at hrestores hdigits
    cases hrestores with
    | nil => cases hwhole
    | plain hnone _ =>
      rw [hdigits] at hnone
      cases hnone
    | @placeholder digits found rest result hne hall hfound hrest =>
      rw [placeholderDigits?_append hne hall rest] at hdigits
      obtain rfl : digits = ofNat number := Option.some.inj hdigits
      obtain rfl : s = rest := by simpa using hwhole
      obtain ⟨read, hread, hstored⟩ := storedSpan_eq_ok_iff.1 hfound
      obtain rfl : read = number := by rw [(readNat?_eq_some hread).2, digitsValue_ofNat]
      obtain rfl : span = found := Option.some.inj (hspan.symm.trans hstored)
      exact congrArg (span ++ ·) (ih hrest)

theorem restores_mask {before after : List Text} {parts : List Piece}
    (hplain : ∀ c, .plain c ∈ parts → c ≠ openMark)
    (hlimit : (before ++ spans parts).length ≤ 10 ^ digitLimit) :
    Restores (before ++ spans parts ++ after) (mask before.length parts) (chars parts) :=
  ((masks_mask hplain).restores hlimit).append_store after

theorem mask_eq_chars {number : Nat} {parts : List Piece} (h : spans parts = []) :
    mask number parts = chars parts := by
  induction parts generalizing number with
  | nil => rfl
  | cons part parts ih => cases part with
    | plain c => exact congrArg (c :: ·) (ih h)
    | span s => cases h

/-- Pieces that were masked are restored, unless a character between them passes for a
placeholder. -/
theorem restore_mask {before after : List Text} {parts : List Piece}
    (hplain : before ++ spans parts ++ after = [] ∨ ∀ c, .plain c ∈ parts → c ≠ openMark)
    (hlimit : (before ++ spans parts).length ≤ 10 ^ digitLimit) :
    restore (before ++ spans parts ++ after) (mask before.length parts) = .ok (chars parts) := by
  by_cases hempty : before ++ spans parts ++ after = []
  · rw [hempty]
    have hspans : spans parts =
        [] := by simpa using (List.append_eq_nil_iff.1 (List.append_eq_nil_iff.1 hempty).1).2
    rw [mask_eq_chars hspans]
    rfl
  · have hrestores := @restores_mask before after parts (hplain.resolve_left hempty) hlimit
    have hstore : (before ++ spans parts ++ after).isEmpty = false := by simpa using hempty
    rw [restore, hstore]
    exact restoreAfter_eq_ok_iff.2 hrestores

theorem restores_of_restore {store : List Text} {s result : Text}
    (h : restore store s = .ok result) :
    store = [] ∧ result = s ∨ store ≠ [] ∧ Restores store s result := by
  unfold restore at h
  cases store with
  | nil => exact .inl ⟨rfl, (Except.ok.inj h).symm⟩
  | cons span store => exact .inr ⟨by simp, restoreAfter_eq_ok_iff.1 h⟩

theorem Masks.eq_of_restore {store : List Text} {parts : List Piece} {s result : Text}
    (h : Masks store parts s) (hrestore : restore store s = .ok result) : result = chars parts := by
  rcases restores_of_restore hrestore with ⟨rfl, rfl⟩ | ⟨-, hrestores⟩
  · clear hrestore
    induction h with
    | nil => rfl
    | plain _ _ ih => exact congrArg (_ :: ·) ih
    | span hspan _ _ => cases hspan
  · exact h.eq_chars hrestores

/-- A masked text is restored, with spans or without, as long as all numbers can be read. -/
theorem Masks.restore_eq {store : List Text} {parts : List Piece} {s : Text}
    (h : Masks store parts s) (hlimit : store.length ≤ 10 ^ digitLimit) :
    restore store s = .ok (chars parts) := by
  cases store with
  | nil => exact congrArg Except.ok (h.eq_of_restore rfl)
  | cons span store => exact restoreAfter_eq_ok_iff.2 (h.restores hlimit)

theorem masks_protect {content : Text} (h : openMark ∉ content) :
    Masks (protect content).store (pieces content) (protect content).text :=
  @masks_mask [] (pieces content) fun _ hc heq => h (heq ▸ mem_of_plain hc)

end Checklist.Markup
