import Checklist.Proofs.Markup.Budget
import Checklist.Proofs.Markup.Removal

/-! # Where names stand

A tag or a context is a sign with a name behind it. Whether one stands at a place is decided by the
character before the sign and by the name up to the first character of another kind, so neither
blanks nor the numbers of placeholders have a say in it. Main statements: names stand in the words
of a text (`locate?_named_iff_words`), they stand under any numbers (`Masks.locate?_named`), a
grammar that takes all of them out leaves none (`Grammar.Finishes.locate?_named`), and contexts that
are taken out leave a tag only where a hash sign stood directly behind one
(`locate?_tag_of_takenOut`). -/

namespace Checklist.Markup
set_option autoImplicit false
open Text

/-! ## A sign and a name -/

def namedLength? (sign : Char) (isBody : Char → Bool) (isName : Text → Bool) : MarkLength :=
  fun previous s =>
    ((signed? sign isBody previous s).filter isName).map fun name => name.length + 1

theorem tagLength?_eq : tagLength? = namedLength? '#' isTagBody isTagName :=
  rfl

theorem contextLength?_eq : contextLength? = namedLength? '@' isContextBody fun _ => true := by
  funext previous s
  show (contextText? previous s).map _ = ((contextText? previous s).filter fun _ => true).map _
  cases contextText? previous s <;> rfl

/-- The sign is one that marks start with, and names are made of no other characters
than tags are. -/
structure IsNaming (sign : Char) (isBody : Char → Bool) : Prop where
  sign : isSign sign = true
  body : ∀ c, isBody c = true → isTagBody c = true

theorem isNaming_tag : IsNaming '#' isTagBody :=
  ⟨by decide, fun _ hc => hc⟩

theorem isNaming_context : IsNaming '@' isContextBody :=
  ⟨by decide, fun _ => isTagBody_of_isContextBody⟩

theorem isTagBody_of_isSign {c : Char} (h : isSign c = true) : isTagBody c = false :=
  forall_sign (P := fun c => isTagBody c = false) (by decide +kernel) h

theorem isGlue_of_isBlank {c : Char} (h : isBlank c = true) : isGlue c = false := by
  have hno := forall_blank (p := fun c => !isGlue c) (by decide +kernel) (by decide +kernel) h
  simpa using hno

section Naming

variable {sign : Char} {isBody : Char → Bool} {isName : Text → Bool} {previous before : Option Char}
  {c : Char} {s t rest : Text}

theorem IsNaming.body_eq_false (h : IsNaming sign isBody) (hc : isTagBody c = false) :
    isBody c = false := by
  by_contra hbody
  rw [h.body c (by simpa using hbody)] at hc
  cases hc

theorem IsNaming.body_blank (h : IsNaming sign isBody) (hc : isBlank c = true) :
    isBody c = false := by
  refine h.body_eq_false ?_
  by_contra hbody
  rw [isBlank_of_isTagBody (by simpa using hbody)] at hc
  cases hc

theorem IsNaming.ne_of_isBlank (h : IsNaming sign isBody) (hc : isBlank c = true) : c ≠ sign := by
  rintro rfl
  rw [forall_sign (P := fun c => isBlank c = false) (by decide) h.sign] at hc
  cases hc

theorem namedLength?_eq_none (h : c ≠ sign) :
    namedLength? sign isBody isName previous (c :: rest) = none := by
  rw [namedLength?, signed?_eq_none h]
  rfl

/-- A name counts as far as its characters go, and the character before its sign as far
as it glues. -/
theorem namedLength?_congr (hglue : previous.any isGlue = before.any isGlue)
    (hname : s.takeWhile isBody = t.takeWhile isBody) :
    namedLength? sign isBody isName previous (c :: s) =
      namedLength? sign isBody isName before (c :: t) := by
  simp only [namedLength?, signed?, hglue, hname]

/-! ## Texts without names -/

theorem locate?_named_nil : locate? (namedLength? sign isBody isName) previous [] = none :=
  rfl

theorem locate?_eq_none_cons_iff {length? : MarkLength} : locate? length? previous (c :: s) = none ↔
    length? previous (c :: s) = none ∧ locate? length? (some c) s = none := by
  rw [locate?]
  cases length? previous (c :: s) with
  | some n => simp
  | none => simp

theorem locate?_named_congr (hglue : previous.any isGlue = before.any isGlue) :
    locate? (namedLength? sign isBody isName) previous s = none ↔
      locate? (namedLength? sign isBody isName) before s = none := by
  cases s with
  | nil => exact Iff.rfl
  | cons c s =>
    rw [locate?_eq_none_cons_iff, locate?_eq_none_cons_iff, namedLength?_congr hglue rfl]

theorem locate?_named_of_head (h : s.head? ≠ some sign) :
    locate? (namedLength? sign isBody isName) previous s = none ↔
      locate? (namedLength? sign isBody isName) before s = none := by
  cases s with
  | nil => exact Iff.rfl
  | cons c s =>
    have hc : c ≠ sign := fun heq => h (congrArg some heq)
    rw [locate?_eq_none_cons_iff, locate?_eq_none_cons_iff, namedLength?_eq_none hc,
      namedLength?_eq_none hc]

theorem locate?_named_append (h : sign ∉ s) :
    locate? (namedLength? sign isBody isName) previous (s ++ t) = none ↔
    locate? (namedLength? sign isBody isName) (lastOr previous s) t = none := by
  induction s generalizing previous with
  | nil => rw [List.nil_append, lastOr_nil]
  | cons c s ih =>
    rw [List.mem_cons, not_or] at h
    rw [List.cons_append, locate?_eq_none_cons_iff, namedLength?_eq_none (Ne.symm h.1), lastOr_cons,
      ih h.2, eq_self, true_and]

theorem locate?_named_of_forall (h : ∀ before c after, s = before ++ c :: after →
    namedLength? sign isBody isName (lastOr previous before) (c :: after) = none) :
    locate? (namedLength? sign isBody isName) previous s = none := by
  induction s generalizing previous with
  | nil => rfl
  | cons c s ih =>
    refine locate?_eq_none_cons_iff.2 ⟨h [] c s rfl, ih fun before d after hsplit => ?_⟩
    have hnone := h (c :: before) d after (by rw [hsplit, List.cons_append])
    rwa [lastOr_cons] at hnone

/-! ## Names stand in words -/

theorem locate?_named_append_cons (h : IsNaming sign isBody) (hc : isBlank c = true) :
    locate? (namedLength? sign isBody isName) previous (s ++ c :: rest) = none ↔
      locate? (namedLength? sign isBody isName) previous s = none ∧
        locate? (namedLength? sign isBody isName) none rest = none := by
  induction s generalizing previous with
  | nil =>
    have hglue : Option.any isGlue (some c) = Option.any isGlue none := isGlue_of_isBlank hc
    rw [List.nil_append, locate?_eq_none_cons_iff, namedLength?_eq_none (h.ne_of_isBlank hc),
      locate?_named_congr hglue]
    simp [locate?_named_nil]
  | cons d s ih =>
    rw [List.cons_append, locate?_eq_none_cons_iff, locate?_eq_none_cons_iff, ih,
      namedLength?_congr rfl (takeWhile_append_of_not (h.body_blank hc) s rest), and_assoc]

/-- A sign with a name behind it stands in a text if it stands in one of its words. -/
theorem locate?_named_iff_words (h : IsNaming sign isBody) :
    locate? (namedLength? sign isBody isName) none s = none ↔
    ∀ word ∈ words s, locate? (namedLength? sign isBody isName) none word = none := by
  induction hn : s.length using Nat.strong_induction_on generalizing s with
  | _ n ih =>
    subst hn
    have hsplit := List.takeWhile_append_dropWhile (p := (!isBlank ·)) (l := s)
    have hsolid : ∀ c ∈ s.takeWhile (!isBlank ·), isBlank c = false :=
      fun c hc => by simpa using forall_mem_takeWhile _ _ c hc
    have hfirst : locate? (namedLength? sign isBody isName) none (s.takeWhile (!isBlank ·)) = none ↔
        ∀ word ∈ words (s.takeWhile (!isBlank ·)),
            locate? (namedLength? sign isBody isName) none word = none := by
      by_cases hempty : s.takeWhile (!isBlank ·) = []
      · rw [hempty]
        exact iff_of_true rfl nofun
      · rw [words_of_forall hempty hsolid]
        simp
    cases hrest : s.dropWhile (!isBlank ·) with
    | nil =>
      rw [hrest, List.append_nil] at hsplit
      rwa [hsplit] at hfirst
    | cons c rest =>
      have hc : isBlank c = true := by
        have hhead := List.head?_dropWhile_not (!isBlank ·) s
        rw [hrest] at hhead
        simpa using hhead
      rw [hrest] at hsplit
      have hshorter : rest.length < s.length := by
        rw [← hsplit, List.length_append, List.length_cons]
        omega
      conv_lhs => rw [← hsplit]
      conv_rhs => rw [← hsplit]
      rw [locate?_named_append_cons h hc, words_append_cons hc, List.forall_mem_append,
        hfirst, ih _ hshorter rfl]

theorem locate?_named_squeeze (h : IsNaming sign isBody) :
    locate? (namedLength? sign isBody isName) none (squeeze s) = none ↔
    locate? (namedLength? sign isBody isName) none s = none := by
  rw [locate?_named_iff_words h, words_squeeze, ← locate?_named_iff_words h]

/-! ## Names under other numbers -/

variable {store other : List Text} {parts : List Piece}

theorem Masks.takeWhile_eq (h : IsNaming sign isBody) (hs : Masks store parts s)
    (ht : Masks other parts t) :
    s.takeWhile isBody = t.takeWhile isBody := by
  have hopen : isBody openMark = false := h.body_eq_false (by decide +kernel)
  induction hs generalizing t with
  | nil => cases ht; rfl
  | plain _ _ ih => cases ht with
    | plain _ ht => rw [List.takeWhile_cons, List.takeWhile_cons, ih ht]
  | span _ _ _ => cases ht with
    | span _ _ =>
      rw [placeholder_append, placeholder_append, List.takeWhile_cons_of_neg (by simp [hopen]),
        List.takeWhile_cons_of_neg (by simp [hopen])]

theorem IsNaming.notMem_placeholder (h : IsNaming sign isBody) (number : Nat) :
    sign ∉ placeholder number := fun hmem => by
  have hmask := isMasking_of_mem_placeholder hmem
  rw [isMasking_of_isSign h.sign] at hmask
  cases hmask

/-- Names stand in a masked text under any numbers. -/
theorem Masks.locate?_named (h : IsNaming sign isBody) (hs : Masks store parts s)
    (ht : Masks other parts t) (hglue : previous.any isGlue = before.any isGlue)
    (hnone : locate? (namedLength? sign isBody isName) previous s = none) :
    locate? (namedLength? sign isBody isName) before t = none := by
  induction hs generalizing t previous before with
  | nil => cases ht; rfl
  | plain _ hs ih => cases ht with
    | plain _ ht =>
      rw [locate?_eq_none_cons_iff] at hnone ⊢
      exact ⟨(namedLength?_congr hglue (hs.takeWhile_eq h ht)).symm.trans hnone.1, ih ht rfl hnone.2⟩
  | span _ _ ih => cases ht with
    | span _ ht =>
      rw [locate?_named_append (h.notMem_placeholder _)] at hnone ⊢
      refine ih ht ?_ hnone
      rw [lastOr, lastOr, placeholder, placeholder, List.getLast?_concat, List.getLast?_concat,
        Option.some_or, Option.some_or]

/-! ## Names that are taken out -/

/-- A grammar that takes out every sign with a name behind it leaves none. -/
theorem Grammar.Finishes.locate?_named {grammar : Grammar} {left : Text}
    (h : grammar.Finishes previous s left) (hnaming : IsNaming sign isBody)
    (hlength : grammar.length? = namedLength? sign isBody isName)
    (hjudge : ∀ previous site, grammar.judge previous site ≠ .ok none) :
    locate? (namedLength? sign isBody isName) previous left = none := by
  induction h with
  | stop hnone => exact hlength ▸ hnone
  | @token previous s left site verdict hsite _ _ ih =>
    have hspace : Option.any isGlue (some ' ') = Option.any isGlue none := by decide
    refine (locate?_named_append_cons hnaming (by decide)).2 ⟨?_, (locate?_named_congr hspace).1 ih⟩
    -- the sign of the mark ends what stands before it
    obtain ⟨⟨n, hmark, -⟩, hbefore⟩ := isFirst_of_locate? hsite
    rw [hlength] at hmark hbefore
    obtain ⟨name, hname, -⟩ := Option.map_eq_some_iff.1 hmark
    obtain ⟨-, -, others, hothers, -⟩ := signed?_eq_some_iff.1 (Option.filter_eq_some_iff.1 hname).1
    have hstop := hnaming.body_eq_false (isTagBody_of_isSign hnaming.sign)
    refine locate?_named_of_forall fun before c after hsplit => ?_
    have hnone := hbefore before c after hsplit
    rw [hothers, List.cons_append] at hnone
    exact (namedLength?_congr rfl (takeWhile_append_of_not hstop after others)).symm.trans hnone
  | mark _ hverdict _ _ => exact absurd hverdict (hjudge _ _)

end Naming

section Contexts

variable {today : Date} {kind : TokenKind} {previous : Option Char}
  {segments : List Text} {s left u : Text}

theorem TakenOut.isPrefix {isSegment : Option Char → Text → Text → Prop}
    (h : TakenOut isSegment previous segments s left)
    (hspace : ' ' ∉ u) (hu : u <+: left) : u <+: s := by
  induction h generalizing u with
  | nil => exact hu
  | keep _ ih => cases u with
    | nil => exact List.nil_prefix
    | cons d u =>
      obtain ⟨rfl, hrest⟩ := List.cons_prefix_cons.1 hu
      exact List.cons_prefix_cons.2 ⟨rfl, ih (fun hmem => hspace (List.mem_cons_of_mem _ hmem)) hrest⟩
  | take _ _ _ => cases u with
    | nil => exact List.nil_prefix
    | cons d u => exact absurd ((List.cons_prefix_cons.1 hu).1 ▸ List.mem_cons_self) hspace

/-- What stands in a row in what is left, without the spaces that took a place, stood in a
row before. -/
theorem TakenOut.isInfix {isSegment : Option Char → Text → Text → Prop}
    (h : TakenOut isSegment previous segments s left)
    (hspace : ' ' ∉ u) (hu : u <:+: left) : u <:+: s := by
  induction h with
  | nil => exact hu
  | @keep previous c segments s left h ih =>
    have hwhole : TakenOut isSegment previous segments (c :: s) (c :: left) := .keep h
    rcases List.infix_cons_iff.1 hu with hprefix | hwithin
    · exact (hwhole.isPrefix hspace hprefix).isInfix
    · exact (ih hwithin).trans (List.suffix_cons _ _).isInfix
  | @take previous segment rest left segments hsegment h ih =>
    rcases List.infix_cons_iff.1 hu with hprefix | hwithin
    · exact ((TakenOut.take hsegment h).isPrefix hspace hprefix).isInfix
    · exact (ih hwithin).trans (List.suffix_append _ _).isInfix

/-- A hash sign stands directly behind what looks like a context. -/
def JoinsContext (s : Text) : Prop :=
  ∃ name, name ≠ [] ∧ (∀ c ∈ name, isContextBody c = true) ∧ '@' :: name ++ ['#'] <:+: s

theorem JoinsContext.mono (h : JoinsContext s) {t : Text} (hwithin : s <:+: t) :
    JoinsContext t := by
  obtain ⟨name, hne, hbody, hjoins⟩ := h
  exact ⟨name, hne, hbody, hjoins.trans hwithin⟩

theorem JoinsContext.of_takenOut (h : TakenOut (IsMarkup today kind) previous segments s left)
    (hjoins : JoinsContext left) : JoinsContext s := by
  obtain ⟨name, hne, hbody, hwithin⟩ := hjoins
  refine ⟨name, hne, hbody, h.isInfix (fun hmem => ?_) hwithin⟩
  have hspace : isContextBody ' ' = false := by decide +kernel
  simp only [List.cons_append, List.mem_cons, List.mem_append, List.not_mem_nil, or_false] at hmem
  rcases hmem with hmem | hmem | hmem
  · cases hmem
  · rw [hbody _ hmem] at hspace
    cases hspace
  · cases hmem

theorem TakenOut.takeWhile_isTagBody
    (h : TakenOut (IsMarkup today .context) previous segments s left) :
    left.takeWhile isTagBody = s.takeWhile isTagBody := by
  have hspace : isTagBody ' ' = false := by decide +kernel
  have hat : isTagBody '@' = false := by decide +kernel
  induction h with
  | nil => rfl
  | keep _ ih => rw [List.takeWhile_cons, List.takeWhile_cons, ih]
  | take hsegment _ _ => cases hsegment with
    | context _ _ _ _ =>
      rw [List.cons_append, List.takeWhile_cons_of_neg (by simp [hspace]),
        List.takeWhile_cons_of_neg (by simp [hat])]

/-- Where contexts are taken out, tags appear only directly behind them. -/
theorem locate?_tag_of_takenOut (h : TakenOut (IsMarkup today .context) previous segments s left)
    (hjoins : ¬JoinsContext s)
    (hnone : locate? tagLength? previous s = none) : locate? tagLength? previous left = none := by
  rw [tagLength?_eq] at hnone ⊢
  induction h with
  | nil => exact hnone
  | @keep previous c segments s left h ih =>
    rw [locate?_eq_none_cons_iff] at hnone ⊢
    exact ⟨(namedLength?_congr rfl h.takeWhile_isTagBody).trans hnone.1,
      ih (fun hrest => hjoins (hrest.mono (List.suffix_cons _ _).isInfix)) hnone.2⟩
  | @take previous segment rest left segments hsegment h ih =>
    cases hsegment with
    | @context _ name _ _ hbody hne _ =>
      have hnot : '#' ∉ '@' :: name := by
        simp only [List.mem_cons, not_or]
        exact ⟨by decide, fun hmem => absurd (hbody _ hmem) (by decide +kernel)⟩
      rw [locate?_named_append hnot] at hnone
      have hhead : rest.head? ≠ some '#' := by
        intro hhead
        obtain ⟨others, rfl⟩ := List.head?_eq_some_iff.1 hhead
        exact hjoins ⟨name, hne, hbody, [], others, by simp⟩
      exact locate?_eq_none_cons_iff.2 ⟨namedLength?_eq_none (by decide),
        ih (fun hrest => hjoins (hrest.mono (List.suffix_append _ _).isInfix))
        ((locate?_named_of_head hhead).1 hnone)⟩

end Contexts
end Checklist.Markup
