import Checklist.Proofs.Markup.Naming

/-! # What is left is read again

A mark that is no token stays in the text, and other grammars may then take out what kept it from
being one. Main statements: a grammar takes nothing out of a text exactly if each of its marks there
is no token (`consume_of_isIdle`, `isIdle_of_consume`); what is left of a content holds no level and
no context, and is read again as it is exactly if the fields, symbols and tags in it give nothing
(`isStripped_of_extract`); and a tag may hide a date until the second reading
(`not_settled_of_tag_in_date`). -/

namespace Checklist.Markup
set_option autoImplicit false
open Text

variable {grammar : Grammar} {budget : Nat} {previous : Option Char} {s t : Text}
  {consumed : Consumed} {today : Date}

/-! ## Marks that are no tokens -/

/-- Every mark of the grammar in the text is judged to be no token. -/
def Grammar.IsIdle (grammar : Grammar) (previous : Option Char) (s : Text) : Prop :=
  ∀ before after n, s = before ++ after → grammar.length? (lastOr previous before) after = some n →
    grammar.judge (lastOr previous before) ⟨[], after.take n, after.drop n⟩ = .ok none

theorem Grammar.IsIdle.right (h : grammar.IsIdle previous (s ++ t)) :
    grammar.IsIdle (lastOr previous s) t := by
  intro before after n hsplit hmark
  rw [← lastOr_append] at hmark ⊢
  exact h (s ++ before) after n (by rw [hsplit, List.append_assoc]) hmark

theorem consume_of_isIdle (hlocal : grammar.IsLocal) (h : grammar.IsIdle previous s) :
    ∃ left exhausted, grammar.consume budget previous s = .ok ⟨s, [], left, exhausted⟩ := by
  induction budget generalizing previous s with
  | zero =>
    cases hsite : locate? grammar.length? previous s with
    | none => exact ⟨_, _, consume_of_no_mark hsite⟩
    | some site => exact ⟨_, _, consume_zero_of_mark hsite⟩
  | succ budget ih =>
    cases hsite : locate? grammar.length? previous s with
    | none => exact ⟨_, _, consume_of_no_mark hsite⟩
    | some site =>
      obtain ⟨⟨n, hmark, htake⟩, -⟩ := isFirst_of_locate? hsite
      have hsplit := locate?_eq_some hsite
      have hdrop : site.after = (site.mark ++ site.after).drop n := by
        have hwhole := List.take_append_drop n (site.mark ++ site.after)
        rw [← htake] at hwhole
        exact (List.append_cancel_left hwhole).symm
      have hverdict : grammar.judge (lastOr previous site.before) site = .ok none := by
        have hnone :=
          h site.before (site.mark ++ site.after) n (by rw [hsplit, List.append_assoc]) hmark
        rw [← htake, ← hdrop] at hnone
        rwa [← hlocal.judge _ site.before] at hnone
      rw [hsplit] at h
      obtain ⟨left, exhausted, hconsume⟩ := ih h.right
      refine ⟨left, exhausted, (consume_succ_eq_ok_iff hsite).2 ⟨none, _, hverdict, hconsume, ?_⟩⟩
      rw [Consumed.behind, ← hsplit]

def Grammar.HasPlainMarks (grammar : Grammar) : Prop :=
  ∀ previous s n, grammar.length? previous s = some n → ∀ c ∈ (s.take n).tail, ∀ other rest,
    grammar.length? other (c :: rest) = none

theorem Grammar.IsIdle.cons {c : Char} (hnone : grammar.length? previous (c :: s) = none)
    (h : grammar.IsIdle (some c) s) :
    grammar.IsIdle previous (c :: s) := by
  intro before after n hsplit hmark
  cases before with
  | nil =>
    obtain rfl : c :: s = after := hsplit
    rw [lastOr_nil, hnone] at hmark
    cases hmark
  | cons d before =>
    obtain ⟨rfl, htail⟩ := List.cons.inj hsplit
    rw [lastOr_cons] at hmark ⊢
    exact h before after n htail hmark

theorem Grammar.HasPlainMarks.length?_eq_none (h : grammar.HasPlainMarks) {before after : Text}
    {c : Char} {length : Nat}
    (hmark : grammar.length? previous (before ++ c :: after) = some length) (hstart : before ≠ [])
    (hend : before.length < length)
    (other : Option Char) : grammar.length? other (c :: after) = none := by
  refine h previous _ length hmark c ?_ other after
  obtain ⟨d, before, rfl⟩ := List.exists_cons_of_ne_nil hstart
  obtain ⟨more, hmore⟩ : ∃ more, length - (d :: before).length = more + 1 :=
    ⟨length - (d :: before).length - 1, by omega⟩
  rw [List.take_append, hmore, List.take_of_length_le (Nat.le_of_lt hend), List.take_succ_cons,
    List.cons_append, List.tail_cons]
  simp

/-- A place in the text is that of the mark at its start, or lies within the mark, or behind it. -/
theorem Grammar.IsIdle.of_mark (hlocal : grammar.IsLocal) (hplain : grammar.HasPlainMarks)
    {length : Nat} (hmark : grammar.length? previous s = some length)
    (hverdict : grammar.judge previous ⟨[], s.take length, s.drop length⟩ = .ok none)
    (h : grammar.IsIdle (lastOr previous (s.take length)) (s.drop length)) :
    grammar.IsIdle previous s := by
  intro before after n hsplit hfound
  by_cases hstart : before = []
  · subst hstart
    obtain rfl : s = after := hsplit
    rw [lastOr_nil] at hfound ⊢
    obtain rfl : length = n := Option.some.inj (hmark.symm.trans hfound)
    exact hverdict
  · rcases Nat.lt_or_ge before.length length with hlt | hge
    · cases after with
      | nil =>
        rw [hlocal.length_nil] at hfound
        cases hfound
      | cons c after =>
        rw [hplain.length?_eq_none (hsplit ▸ hmark) hstart hlt] at hfound
        cases hfound
    · have hfront : before = s.take length ++ before.drop length := by
        rw [hsplit, List.take_append_of_le_length hge, List.take_append_drop]
      rw [hfront, lastOr_append] at hfound ⊢
      exact h _ after n (by rw [hsplit, List.drop_append_of_le_length hge]) hfound

/-- A grammar that takes nothing out of a text and refuses no mark has judged them all. -/
theorem isIdle_of_consume (hlocal : grammar.IsLocal) (hplain : grammar.HasPlainMarks)
    (h : grammar.consume budget previous s = .ok consumed)
    (htokens : consumed.tokens = []) (hcomplete : consumed.exhausted = false) :
    grammar.IsIdle previous s := by
  have hpasses := passesOver_of_consume hlocal h htokens hcomplete
  generalize consumed.left = left at hpasses
  clear h
  induction hpasses with
  | nil =>
    intro before after n hsplit hfound
    obtain ⟨rfl, rfl⟩ := List.append_eq_nil_iff.1 hsplit.symm
    rw [hlocal.length_nil] at hfound
    cases hfound
  | char hmark _ ih => exact .cons hmark ih
  | mark hmark hverdict _ ih => exact .of_mark hlocal hplain hmark hverdict ih

/-! ## Inline fields that give nothing -/

/-- An inline field without a key, without a value, or with a value that makes no sense
for its slot. -/
def IsSenseless (today : Date) (key value : Text) : Prop :=
  trim key = [] ∨ trim value = [] ∨
    makesSense today (inlineSlot .standard (trim key)) (trim value) = .ok false

theorem take_of_inlineField? {key value : Text} (h : inlineField? s = some (key, value)) :
    s.take (key.length + value.length + 4) = fieldText key value := by
  rw [← length_fieldText]
  exact (List.prefix_iff_eq_take.1 (inlineField?_eq_some_iff.1 h).2.2).symm

theorem hasPlainMarks_dataview (settings : Settings) (today : Date) :
    (dataview settings today).HasPlainMarks := by
  intro previous s n hmark c hc other rest
  obtain ⟨⟨key, value⟩, hfield, rfl⟩ := Option.map_eq_some_iff.1 hmark
  obtain ⟨hkey, hvalue, -⟩ := inlineField?_eq_some_iff.1 hfield
  rw [show s.take _ = fieldText key value from take_of_inlineField? hfield] at hc
  refine @inlineLength?_eq_none other c rest ?_
  rintro rfl
  have hopen : isInner '[' = false := by decide
  simp only [fieldText, List.cons_append, List.tail_cons, List.mem_append, List.mem_singleton] at hc
  rcases hc with ((hc | hc) | hc) | hc
  · have hinner := (Bool.and_eq_true_iff.1 (hkey.2 _ hc)).1
    rw [hopen] at hinner
    cases hinner
  · exact absurd hc (by decide)
  · rw [hvalue _ hc] at hopen
    cases hopen
  · cases hc

theorem judge_dataview_eq_none_iff {key value after : Text} (hkey : IsKey key)
    (hvalue : ∀ c ∈ value, isInner c = true) :
    (dataview .standard today).judge previous ⟨[], fieldText key value, after⟩ = .ok none ↔
      IsSenseless today key value := by
  have hread : inlineField? (fieldText key value) = some (key, value) := by
    rw [← List.append_nil (fieldText key value)]
    exact inlineField?_fieldText hkey hvalue []
  simp only [dataview, hread, IsSenseless, ← List.isEmpty_iff]
  by_cases hkeyEmpty : (trim key).isEmpty = true
  · simp [hkeyEmpty, pure, Except.pure]
  · by_cases hvalueEmpty : (trim value).isEmpty = true
    · simp [hvalueEmpty, pure, Except.pure]
    · simp only [hkeyEmpty, hvalueEmpty, Bool.or_self, Bool.false_eq_true, if_false, false_or]
      cases makesSense today (inlineSlot .standard (trim key)) (trim value) with
      | error failure => simp [bind, Except.bind]
      | ok sense => cases sense <;> simp [bind, Except.bind, pure, Except.pure]

theorem isIdle_dataview_iff : (dataview .standard today).IsIdle none s ↔
    ∀ before after key value, s = before ++ after → inlineField? after = some (key, value) →
      IsSenseless today key value := by
  constructor
  · intro h before after key value hsplit hfield
    obtain ⟨hkey, hvalue, -⟩ := inlineField?_eq_some_iff.1 hfield
    have hnone := h before after (key.length + value.length + 4) hsplit
      (Option.map_eq_some_iff.2 ⟨(key, value), hfield, rfl⟩)
    rwa [take_of_inlineField? hfield, judge_dataview_eq_none_iff hkey hvalue] at hnone
  · intro h before after n hsplit hmark
    obtain ⟨⟨key, value⟩, hfield, rfl⟩ := Option.map_eq_some_iff.1 hmark
    obtain ⟨hkey, hvalue, -⟩ := inlineField?_eq_some_iff.1 hfield
    show (dataview .standard today).judge _ ⟨[], after.take (key.length + value.length + 4), _⟩ =
      .ok none
    rw [take_of_inlineField? hfield, judge_dataview_eq_none_iff hkey hvalue]
    exact h before after key value hsplit hfield

/-! ## Symbols that give nothing -/

/-- The variation selector behind a symbol, or none if none is there. -/
def IsSelector (selector after : Text) : Prop :=
  selector = [Priority.variationSelector] ∨ selector = [] ∧
    after.head? ≠ some Priority.variationSelector

theorem symbolLength?_eq_some_iff (previous : Option Char) {n : Nat} :
    symbolLength? (plainSymbols .standard) previous s = some n ↔
    ∃ c selector after, s = c :: (selector ++ after) ∧ c ∈ signs ∧ IsSelector selector after ∧
      n = selector.length + 1 := by
  constructor
  · intro h
    cases s with
    | nil =>
      rw [symbolLength?_nil] at h
      cases h
    | cons c rest =>
      rw [symbolLength?_cons, Option.ite_none_right_eq_some, Option.some.injEq] at h
      obtain ⟨hsign, rfl⟩ := h
      by_cases hhead : rest.head? = some Priority.variationSelector
      · obtain ⟨after, rfl⟩ := List.head?_eq_some_iff.1 hhead
        exact ⟨c, [_], after, rfl, hsign, .inl rfl, by simp⟩
      · exact ⟨c, [], rest, rfl, hsign, .inr ⟨rfl, hhead⟩, by simp [hhead]⟩
  · rintro ⟨c, selector, after, rfl, hsign, hselector, rfl⟩
    rw [symbolLength?_cons, if_pos hsign]
    rcases hselector with rfl | ⟨rfl, hhead⟩
    · simp
    · simp [hhead]

theorem exists_field_of_mem_signs {c : Char} (h : c ∈ signs) :
    ∃ field, (plainSymbols .standard).lookup [c] = some field := by
  rw [plainSymbols_default, ← Option.isSome_iff_exists]
  exact (by decide : ∀ c ∈ signs, (defaultSymbols.lookup [c]).isSome = true) c h

theorem not_isVoid_level {value : Text} : ¬IsVoid today .priority value := by
  simp [IsVoid, isUndated]

theorem isIdle_emoji_iff : (emoji .standard today).IsIdle none s ↔ ∀ before c selector after field,
    s = before ++ c :: (selector ++ after) →
    (plainSymbols .standard).lookup [c] = some field → IsSelector selector after →
      IsVoid today field
        (symbolValue (plainSymbols .standard) field [c] (lastOr (some c) selector) after).1 := by
  have hsplit : ∀ (c : Char) (selector after : Text),
      (c :: (selector ++ after)).take (selector.length + 1) = c :: selector ∧
      (c :: (selector ++ after)).drop (selector.length + 1) = after := by simp
  constructor
  · intro h before c selector after field hs hfield hselector
    have hsign := mem_signs_of_lookup hfield
    have hnone :=
      h before _ _ hs
        ((symbolLength?_eq_some_iff (lastOr none before)).2
          ⟨c, selector, after, rfl, hsign, hselector, rfl⟩)
    rw [(hsplit c selector after).1, (hsplit c selector after).2] at hnone
    rwa [judge_emoji_eq_none_iff (by rw [symbol?_cons, if_pos hsign]) hfield, lastOr_cons] at hnone
  · intro h before rest n hs hmark
    obtain ⟨c, selector, after, rfl, hsign, hselector, rfl⟩ :=
      (symbolLength?_eq_some_iff (lastOr none before)).1 hmark
    obtain ⟨field, hfield⟩ := exists_field_of_mem_signs hsign
    rw [(hsplit c selector after).1, (hsplit c selector after).2,
      judge_emoji_eq_none_iff (by rw [symbol?_cons, if_pos hsign]) hfield, lastOr_cons]
    exact h before c selector after field hs hfield hselector

theorem hasPlainMarks_emoji (today : Date) : (emoji .standard today).HasPlainMarks := by
  intro previous s n hmark c hc other rest
  obtain ⟨d, selector, after, rfl, -, hselector, rfl⟩ :=
    (symbolLength?_eq_some_iff previous).1 hmark
  refine @symbolLength?_eq_none other c rest ?_
  rcases hselector with rfl | ⟨rfl, -⟩
  · obtain rfl : c = Priority.variationSelector := by simpa using hc
    decide
  · simp at hc

/-! ## Names that are there -/

section Naming

variable {sign : Char} {isBody : Char → Bool} {isName : Text → Bool}

theorem hasPlainMarks_named (h : IsNaming sign isBody)
    (hlength : grammar.length? = namedLength? sign isBody isName) : grammar.HasPlainMarks := by
  intro previous s n hmark c hc other rest
  rw [hlength] at hmark ⊢
  obtain ⟨name, hname, rfl⟩ := Option.map_eq_some_iff.1 hmark
  obtain ⟨-, -, others, rfl, rfl⟩ := signed?_eq_some_iff.1 (Option.filter_eq_some_iff.1 hname).1
  refine namedLength?_eq_none ?_
  rintro rfl
  rw [List.take_succ_cons, List.tail_cons, ← List.prefix_iff_eq_take.1 (List.takeWhile_prefix _)] at hc
  have hsign := h.body_eq_false (isTagBody_of_isSign h.sign)
  rw [forall_mem_takeWhile isBody others c hc] at hsign
  cases hsign

theorem isIdle_named_iff (hlocal : grammar.IsLocal)
    (hlength : grammar.length? = namedLength? sign isBody isName)
    (hjudge : ∀ previous site, grammar.judge previous site ≠ .ok none) :
    grammar.IsIdle previous s ↔ locate? (namedLength? sign isBody isName) previous s = none := by
  rw [← hlength]
  constructor
  · intro h
    rw [hlength]
    refine locate?_named_of_forall fun before c after hsplit => ?_
    rw [← hlength, Option.eq_none_iff_forall_ne_some]
    exact fun n hmark => hjudge _ _ (h before _ n hsplit hmark)
  · intro hnone before after n hsplit hmark
    cases after with
    | nil =>
      rw [hlocal.length_nil] at hmark
      cases hmark
    | cons c after =>
      have hno :=
        @length?_of_locate?_eq_none previous grammar.length? before after c (hsplit ▸ hnone)
      rw [hno] at hmark
      cases hmark

end Naming

theorem hasPlainMarks_grammarOf (today : Date) (kind : TokenKind) :
    (grammarOf .standard today kind).HasPlainMarks := by
  cases kind with
  | dataview => exact hasPlainMarks_dataview .standard today
  | emoji => exact hasPlainMarks_emoji today
  | tag => exact hasPlainMarks_named isNaming_tag tagLength?_eq
  | context => exact hasPlainMarks_named isNaming_context contextLength?_eq

/-! ## Texts that give nothing -/

/-- The inline fields in the text make no sense, the symbols for dates and recurrences have no
value, and there is no tag. -/
structure IsSpent (today : Date) (s : Text) : Prop where
  fields : ∀ before after key value, s = before ++ after → inlineField? after = some (key, value) →
    IsSenseless today key value
  symbols : ∀ before c selector after field, s = before ++ c :: (selector ++ after) →
    (plainSymbols .standard).lookup [c] = some field →
    field ≠ .priority → IsSelector selector after →
      IsVoid today field
        (symbolValue (plainSymbols .standard) field [c] (lastOr (some c) selector) after).1
  tags : locate? tagLength? none s = none

/-- The text holds no symbol for a level and no context. -/
structure HasNoLevels (s : Text) : Prop where
  levels : ∀ c ∈ s, (plainSymbols .standard).lookup [c] ≠ some .priority
  contexts : locate? contextLength? none s = none

theorem forall_isIdle_iff : (∀ kind, (grammarOf .standard today kind).IsIdle none s) ↔
    IsSpent today s ∧ HasNoLevels s := by
  have htags := @isIdle_named_iff _ none s _ _ _ (isLocal_grammarOf today .tag) tagLength?_eq
    fun _ _ => by simp [grammarOf, tags]
  have hcontexts := @isIdle_named_iff _ none s _ _ _ (isLocal_grammarOf today .context)
    contextLength?_eq fun _ _ => by simp [grammarOf, contexts]
  rw [← tagLength?_eq] at htags
  rw [← contextLength?_eq] at hcontexts
  constructor
  · intro h
    have hsymbols := isIdle_emoji_iff.1 (h .emoji)
    refine ⟨⟨isIdle_dataview_iff.1 (h .dataview), fun before c selector after field hs hfield _ =>
      hsymbols before c selector after field hs hfield,
      htags.1 (h .tag)⟩, fun c hc hlevel => ?_, hcontexts.1 (h .context)⟩
    obtain ⟨before, rest, hs⟩ := List.append_of_mem hc
    by_cases hhead : rest.head? = some Priority.variationSelector
    · obtain ⟨after, rfl⟩ := List.head?_eq_some_iff.1 hhead
      exact not_isVoid_level (hsymbols before c [_] after .priority hs hlevel (.inl rfl))
    · exact not_isVoid_level (hsymbols before c [] rest .priority hs hlevel (.inr ⟨rfl, hhead⟩))
  · rintro ⟨hspent, hlevels⟩ kind
    cases kind with
    | dataview => exact isIdle_dataview_iff.2 hspent.fields
    | emoji =>
      refine isIdle_emoji_iff.2 fun before c selector after field hs hfield =>
        hspent.symbols before c selector after field hs hfield ?_
      rintro rfl
      exact hlevels.levels c (by simp [hs]) hfield
    | tag => exact htags.2 hspent.tags
    | context => exact hcontexts.2 hlevels.contexts

theorem consumeAll_of_isIdle {grammars : List Grammar}
    (h : ∀ grammar ∈ grammars, grammar.IsLocal ∧ grammar.IsIdle none s) :
    ∃ left exhausted, consumeAll grammars budget s = .ok ⟨s, [], left, exhausted⟩ := by
  induction grammars generalizing budget with
  | nil => exact ⟨_, _, rfl⟩
  | cons grammar grammars ih =>
    obtain ⟨⟨hlocal, hidle⟩, hothers⟩ := List.forall_mem_cons.1 h
    obtain ⟨left, exhausted, hfirst⟩ := @consume_of_isIdle grammar budget none s hlocal hidle
    obtain ⟨left', exhausted', hrest⟩ := @ih left hothers
    exact ⟨left', exhausted || exhausted',
      Result.bind_eq_ok.2 ⟨_, hfirst, Result.bind_eq_ok.2 ⟨_, hrest, rfl⟩⟩⟩

theorem isIdle_of_consumeAll {grammars : List Grammar}
    (hgrammars : ∀ grammar ∈ grammars, grammar.IsLocal ∧ grammar.HasPlainMarks)
    (h : consumeAll grammars budget s = .ok consumed) (htokens : consumed.tokens = [])
    (hcomplete : consumed.exhausted = false) :
    ∀ grammar ∈ grammars, grammar.IsIdle none s := by
  induction grammars generalizing budget consumed with
  | nil => exact nofun
  | cons grammar grammars ih =>
    obtain ⟨⟨hlocal, hplain⟩, hothers⟩ := List.forall_mem_cons.1 hgrammars
    obtain ⟨left, hfirst, hrest⟩ := consumeAll_cons_of_tokens_eq_nil h htokens hcomplete
    exact List.forall_mem_cons.2 ⟨isIdle_of_consume hlocal hplain hfirst rfl rfl,
      ih hothers hrest htokens hcomplete⟩

/-! ## What is left of a content -/

theorem Grammar.Finishes.notMem {left : Text} {c : Char} (h : grammar.Finishes previous s left)
    (hc : c ≠ ' ') (hstarts : ∀ previous rest, grammar.length? previous (c :: rest) ≠ none)
    (hkept : ∀ previous site, grammar.Marks site → grammar.judge previous site = .ok none →
      c ∉ site.mark) : c ∉ left := by
  have hbefore : ∀ {previous s site}, locate? grammar.length? previous s = some site →
      c ∉ site.before := by
    intro previous s site hsite hmem
    obtain ⟨before, after, hsplit⟩ := List.append_of_mem hmem
    exact hstarts _ _ ((isFirst_of_locate? hsite).before before c after hsplit)
  induction h with
  | stop hnone =>
    intro hmem
    obtain ⟨before, after, rfl⟩ := List.append_of_mem hmem
    exact hstarts _ _ (length?_of_locate?_eq_none hnone)
  | token hsite _ _ ih =>
    simp only [List.mem_append, List.mem_cons, not_or]
    exact ⟨hbefore hsite, hc, ih⟩
  | mark hsite hverdict _ ih =>
    simp only [List.mem_append, not_or]
    exact ⟨⟨hbefore hsite, hkept _ _ (Grammar.marks_of_locate? hsite) hverdict⟩, ih⟩

theorem notMem_of_level {left : Text} {c : Char}
    (hlevel : (plainSymbols .standard).lookup [c] = some .priority)
    (h : (emoji .standard today).Finishes previous s left) : c ∉ left := by
  have hsign := mem_signs_of_lookup hlevel
  refine h.notMem ?_ (fun previous rest => ?_) fun previous site hmarks hverdict hmem => ?_
  · rintro rfl
    exact absurd hsign (by decide)
  · show symbolLength? (plainSymbols .standard) previous (c :: rest) ≠ none
    rw [symbolLength?_cons, if_pos hsign]
    exact Option.some_ne_none _
  · obtain ⟨other, n, hlength, htake⟩ := hmarks
    obtain ⟨d, selector, hmark, hd, hselector⟩ := @mark_of_symbolLength? other site n hlength htake
    obtain ⟨field, hfield⟩ := exists_field_of_mem_signs hd
    have hsymbol : symbol? (plainSymbols .standard) site.mark = some [d] := by
      rw [hmark, List.singleton_append, symbol?_cons, if_pos hd]
    have hvoid :=
      (judge_emoji_eq_none_iff hsymbol hfield).1
        (((isLocal_grammarOf today .emoji).judge _ _ _ _).symm.trans hverdict)
    rw [hmark, List.singleton_append] at hmem
    rcases List.mem_cons.1 hmem with rfl | hmem
    · cases hlevel.symm.trans hfield
      exact not_isVoid_level hvoid
    · rcases hselector with rfl | rfl
      · cases hmem
      · obtain rfl := List.mem_singleton.1 hmem
        exact absurd hsign (by decide)

theorem TakenOut.mem_of_mem {isSegment : Option Char → Text → Text → Prop} {segments : List Text}
    {left : Text} {c : Char} (h : TakenOut isSegment previous segments s left) (hspace : c ≠ ' ')
    (hc : c ∈ left) : c ∈ s := by
  have hrow : ' ' ∉ [c] := by simpa using Ne.symm hspace
  exact (List.singleton_infix_iff c s).1 (h.isInfix hrow ((List.singleton_infix_iff c left).2 hc))

/-- The grammar of a kind reads a text to its end. -/
structure IsRead (today : Date) (kind : TokenKind) (s left : Text) : Prop where
  finishes : (grammarOf .standard today kind).Finishes none s left
  takenOut : ∃ segments, TakenOut (IsMarkup today kind) none segments s left

theorem isRead_of_consume (kind : TokenKind)
    (h : (grammarOf .standard today kind).consume budget none s = .ok consumed)
    (hcomplete : consumed.exhausted = false) : IsRead today kind s consumed.text :=
  ⟨Grammar.finishes_of_consume h hcomplete, _,
    (exists_takenOut_of_consume (isExact_grammarOf rfl today kind) h).1⟩

/-- One grammar reads after the other, each what the one before it left. -/
inductive AreRead (today : Date) : List TokenKind → Text → Text → Prop where
  | nil {s : Text} : AreRead today [] s s
  | cons {kind : TokenKind} {kinds : List TokenKind} {s between left : Text}
      (first : IsRead today kind s between)
      (rest : AreRead today kinds between left) : AreRead today (kind :: kinds) s left

theorem areRead_of_consumeAll {kinds : List TokenKind}
    (h : consumeAll (kinds.map (grammarOf .standard today)) budget s = .ok consumed)
    (hcomplete : consumed.exhausted = false) : AreRead today kinds s consumed.text := by
  induction kinds generalizing budget s consumed with
  | nil =>
    cases h
    exact .nil
  | cons kind kinds ih =>
    obtain ⟨first, others, hfirst, hothers, rfl⟩ := consumeAll_cons_eq_ok_iff.1 h
    obtain ⟨hends, hotherEnds⟩ := Bool.or_eq_false_iff.1 hcomplete
    have hrest := ih hothers hotherEnds
    exact .cons (isRead_of_consume kind hfirst hends) hrest

theorem exists_isRead (h : consumeAll (grammars .standard today) budget s = .ok consumed)
    (hcomplete : consumed.exhausted = false) :
    ∃ inlined dated tagged, IsRead today .dataview s inlined ∧ IsRead today .emoji inlined dated ∧
      IsRead today .tag dated tagged ∧
      IsRead today .context tagged consumed.text := by
  rw [grammars_eq_map, kinds_standard] at h
  have hread := areRead_of_consumeAll h hcomplete
  generalize consumed.text = left at hread
  obtain _ | ⟨hinline, hread⟩ := hread
  obtain _ | ⟨hemoji, hread⟩ := hread
  obtain _ | ⟨htag, hread⟩ := hread
  obtain _ | ⟨hcontext, hread⟩ := hread
  obtain _ | _ := hread
  exact ⟨_, _, _, hinline, hemoji, htag, hcontext⟩

/-! ## Spans of what is left -/

/-- What is left is cut into the pieces that the grammars left, and no more of them are spans than
can be numbered. -/
structure KeepsSpans (today : Date) (content left : Text) : Prop where
  masks : ∀ consumed, consumeAll (grammars .standard today) Settings.standard.metadataLimit
    (protect content).text = .ok consumed →
    Masks (protect content).store (pieces left) (squeeze consumed.text)
  count : (protect left).store.length ≤ 10 ^ digitLimit

section Pieces

variable {store other : List Text} {parts : List Piece} {c : Char}

theorem Masks.plain_of_mem (h : Masks store parts s) (hc : .plain c ∈ parts) :
    c ≠ openMark ∧ c ∈ s := by
  induction h with
  | nil => cases hc
  | plain hne _ ih =>
    rcases List.mem_cons.1 hc with heq | hc
    · cases heq
      exact ⟨hne, List.mem_cons_self⟩
    · exact (ih hc).imp_right (List.mem_cons_of_mem _)
  | span _ _ ih =>
    rcases List.mem_cons.1 hc with heq | hc
    · cases heq
    · exact (ih hc).imp_right (List.mem_append_right _)

theorem Masks.mask_zero (h : Masks store parts s) : Masks (spans parts) parts (mask 0 parts) :=
  @masks_mask [] parts fun _ hc => (h.plain_of_mem hc).1

end Pieces

/-! ## Reading again -/

theorem extract_of_isIdle {content text : Text} {store : List Text}
    (hmasks : Masks store (pieces content) (squeeze text))
    (hrestore : restore store (squeeze text) = .ok content)
    (hcount : (protect content).store.length ≤ 10 ^ digitLimit)
    (h : ∀ kind, (grammarOf .standard today kind).IsIdle none (protect content).text) :
    ∃ truncated, extract .standard today content = .ok ⟨content, [], [], [], [], truncated⟩ := by
  have hidle : ∀ grammar ∈ (kinds .standard).map (grammarOf .standard today), grammar.IsLocal ∧
      grammar.IsIdle none (protect content).text := by
    intro grammar hgrammar
    obtain ⟨kind, -, rfl⟩ := List.mem_map.1 hgrammar
    exact ⟨isLocal_grammarOf today kind, h kind⟩
  obtain ⟨left, exhausted, hconsume⟩ :=
    @consumeAll_of_isIdle Settings.standard.metadataLimit _ _ hidle
  have hsame : chars (tidy (pieces content)) = content := by
    have htidy := hmasks.tidy
    rw [squeeze_squeeze] at htidy
    exact (htidy.eq_of_restore hrestore).symm
  have htext : restore (protect content).store (squeeze (protect content).text) = .ok content := by
    conv_rhs => rw [← hsame]
    exact hmasks.mask_zero.tidy.restore_eq hcount
  refine ⟨exhausted, ?_⟩
  rw [extract, grammars_eq_map, hconsume]
  exact Result.bind_eq_ok.2 ⟨_, rfl, Result.bind_eq_ok.2 ⟨content, htext, rfl⟩⟩

/-- What a content leaves holds no symbol for a level and no context, and no tag unless a hash sign
stands directly behind a context in the content; and it is read again as it is, and gives nothing,
exactly if it is spent. -/
structure IsStripped (today : Date) (content left : Text) : Prop where
  levels : HasNoLevels (protect left).text
  tags : ¬JoinsContext (protect content).text → locate? tagLength? none (protect left).text = none
  again : IsSpent today (protect left).text → ∃ truncated,
    extract .standard today left = .ok ⟨left, [], [], [], [], truncated⟩
  spent : ∀ again, extract .standard today left = .ok again → again.tokens = [] →
    again.truncated = false → IsSpent today (protect left).text

/-- Where all markup of a content was read, what is left holds no level, no context and, unless a
hash sign stands directly behind a context, no tag; a second reading leaves it as it is exactly if
no field, symbol or tag in it makes sense. -/
theorem isStripped_of_extract {content : Text} {first : Extraction}
    (h : extract .standard today content = .ok first) (hcomplete : first.truncated = false)
    (hspans : KeepsSpans today content first.content) :
    IsStripped today content first.content := by
  obtain ⟨consumed, text, tokens, hconsumed, hrestore, htokens, rfl⟩ := exists_of_extract h
  rw [← grammars_eq_map] at hconsumed
  obtain ⟨inlined, dated, tagged, ⟨-, _, hinline⟩, ⟨hlevels, _, hemoji⟩, ⟨htags, _, htag⟩,
      ⟨hcontexts, _, hcontext⟩⟩ :=
    exists_isRead hconsumed hcomplete
  have hmasks := hspans.masks consumed hconsumed
  have hown := hmasks.mask_zero
  have hstripped : HasNoLevels (protect text).text := by
    refine ⟨fun c hc hlevel => ?_, ?_⟩
    · have hsign := mem_signs_of_lookup hlevel
      have hspace : c ≠ ' ' := by
        rintro rfl
        exact absurd hsign (by decide)
      rcases mem_mask hc with hplain | hmasking
      · have hleft := mem_of_mem_squeeze hspace (hmasks.plain_of_mem hplain).2
        exact notMem_of_level hlevel hlevels (htag.mem_of_mem hspace (hcontext.mem_of_mem hspace hleft))
      · have hno : isMasking c = false := isMasking_of_isSign (by simp [isSign, hsign])
        rw [hno] at hmasking
        cases hmasking
    · rw [contextLength?_eq]
      refine hmasks.locate?_named isNaming_context hown
        rfl ((locate?_named_squeeze isNaming_context).2 ?_)
      exact hcontexts.locate?_named isNaming_context contextLength?_eq
        fun _ _ => by simp [grammarOf, contexts]
  refine ⟨hstripped, fun hjoins => ?_, fun hspent => ?_, fun again hagain hnone hends => ?_⟩
  · have hjoinsTagged : ¬JoinsContext tagged :=
      fun htagged => hjoins (((htagged.of_takenOut htag).of_takenOut hemoji).of_takenOut hinline)
    have hnoTag :=
      htags.locate?_named isNaming_tag tagLength?_eq fun _ _ => by simp [grammarOf, tags]
    have hleft := locate?_tag_of_takenOut hcontext hjoinsTagged hnoTag
    rw [tagLength?_eq] at hleft ⊢
    exact hmasks.locate?_named isNaming_tag hown rfl ((locate?_named_squeeze isNaming_tag).2 hleft)
  · exact extract_of_isIdle hmasks hrestore hspans.count (forall_isIdle_iff.2 ⟨hspent, hstripped⟩)
  · obtain ⟨consumed', text', tokens', hconsumed', -, htokens', rfl⟩ := exists_of_extract hagain
    obtain rfl : tokens' = [] := hnone
    have hnoTokens : consumed'.tokens = [] :=
      List.map_eq_nil_iff.1 (List.forall₂_nil_right_iff.1 (Result.mapM_eq_ok.1 htokens'))
    have hplain : ∀ grammar ∈ (kinds .standard).map (grammarOf .standard today), grammar.IsLocal ∧
        grammar.HasPlainMarks := by
      intro grammar hgrammar
      obtain ⟨kind, -, rfl⟩ := List.mem_map.1 hgrammar
      exact ⟨isLocal_grammarOf today kind, hasPlainMarks_grammarOf today kind⟩
    have hidle := isIdle_of_consumeAll hplain hconsumed' hnoTokens hends
    refine (forall_isIdle_iff.1 fun kind => hidle _ (List.mem_map_of_mem ?_)).1
    rw [kinds_standard]
    cases kind <;> decide

theorem keepsSpans_of_protect {content left : Text} (hmark : openMark ∉ left)
    (hcount : (protect left).store.length ≤ 10 ^ digitLimit)
    (h : ∀ consumed, consumeAll (grammars .standard today) Settings.standard.metadataLimit
      (protect content).text = .ok consumed →
      protect left = ⟨squeeze consumed.text, (protect content).store⟩) :
      KeepsSpans today content left := by
  refine ⟨fun consumed hconsumed => ?_, hcount⟩
  have hown := masks_protect hmark
  rwa [h consumed hconsumed] at hown

theorem keepsSpans_of_no_spans {content : Text} {first : Extraction}
    (h : extract .standard today content = .ok first)
    (hcontent : (protect content).store = []) (hleft : (protect first.content).store = [])
    (hmark : openMark ∉ first.content) :
    KeepsSpans today content first.content := by
  refine keepsSpans_of_protect hmark (by simp [hleft]) fun consumed hconsumed => ?_
  obtain ⟨consumed', text, tokens, hconsumed', hrestore, -, rfl⟩ := exists_of_extract h
  rw [← grammars_eq_map] at hconsumed'
  cases hconsumed.symm.trans hconsumed'
  rw [hcontent] at hrestore ⊢
  obtain rfl : squeeze consumed.text = text := Except.ok.inj hrestore
  have htext : mask 0 (pieces (squeeze consumed.text)) = squeeze consumed.text :=
    (mask_eq_chars hleft).trans (isCut_pieces _).2
  rw [protect, htext]
  exact congrArg (Protected.mk _) hleft

/-- A line with spans, a level, a tag and a context, and with a field, a symbol and a number that
give nothing. -/
def plants : Text :=
  "Water \x60a  b\x60 [due:: soon] 🔺 🛫 later #home @phone #123 [[X Y]]".toList

theorem isStripped_of_extract_plants :
    ∃ first, extract .standard ⟨2024, 3, 13, rfl⟩ plants = .ok first ∧ first.truncated = false ∧
    KeepsSpans ⟨2024, 3, 13, rfl⟩ plants first.content ∧
      IsStripped ⟨2024, 3, 13, rfl⟩ plants first.content ∧
      first.content = "Water \x60a  b\x60 [due:: soon] 🛫 later #123 [[X Y]]".toList ∧
      IsSpent ⟨2024, 3, 13, rfl⟩ (protect first.content).text := by
  have hfirst : ∃ first, extract .standard ⟨2024, 3, 13, rfl⟩ plants = .ok first ∧
      (first.truncated, first.content) =
          (false, "Water \x60a  b\x60 [due:: soon] 🛫 later #123 [[X Y]]".toList) :=
    Result.exists_of_map (by decide +kernel)
  have hsecond : ∃ again, extract .standard
      ⟨2024, 3, 13, rfl⟩ "Water \x60a  b\x60 [due:: soon] 🛫 later #123 [[X Y]]".toList = .ok again ∧
      (again.tokens, again.truncated) = ([], false) := Result.exists_of_map (by decide +kernel)
  obtain ⟨first, hfirst, hread⟩ := hfirst
  obtain ⟨again, hagain, hnothing⟩ := hsecond
  obtain ⟨hcomplete, hcontent⟩ := Prod.mk.inj hread
  obtain ⟨hnone, hends⟩ := Prod.mk.inj hnothing
  have hspans : KeepsSpans ⟨2024, 3, 13, rfl⟩ plants first.content := by
    rw [hcontent]
    refine keepsSpans_of_protect (by decide +kernel) (by decide +kernel)
      fun consumed hconsumed => ?_
    have hleft :
        ((consumeAll (grammars .standard ⟨2024, 3, 13, rfl⟩) Settings.standard.metadataLimit
          (protect plants).text).map fun consumed =>
            (⟨squeeze consumed.text, (protect plants).store⟩ : Protected)).toOption =
          some (protect "Water \x60a  b\x60 [due:: soon] 🛫 later #123 [[X Y]]".toList) := by
      decide +kernel
    rw [hconsumed] at hleft
    exact (Option.some.inj hleft).symm
  have hstripped := isStripped_of_extract hfirst hcomplete hspans
  exact ⟨first, hfirst, hcomplete, hspans, hstripped, hcontent,
    hstripped.spent again (hcontent ▸ hagain) hnone hends⟩

/-- A tag may keep a date from being one until it is taken out. -/
theorem not_settled_of_tag_in_date : ¬∀ (today : Date) (content : Text) (first : Extraction),
    extract .standard today content = .ok first →
    first.truncated = false → ∃ again, extract .standard today first.content = .ok again ∧
      again.tokens = [] ∧ again.content = first.content := by
  intro h
  have hfirst : ∃ first,
      extract .standard ⟨2024, 3, 13, rfl⟩ "[due:: #tag 2024-01-01]".toList = .ok first ∧
      (first.truncated, first.content) = (false, "[due:: 2024-01-01]".toList) :=
        Result.exists_of_map (by decide +kernel)
  have hsecond : ∃ again, extract .standard ⟨2024, 3, 13, rfl⟩ "[due:: 2024-01-01]".toList =
      .ok again ∧ again.content = [] :=
    Result.exists_of_map (by decide +kernel)
  obtain ⟨first, hfirst, hread⟩ := hfirst
  obtain ⟨again, hagain, hempty⟩ := hsecond
  obtain ⟨hcomplete, hcontent⟩ := Prod.mk.inj hread
  obtain ⟨other, hother, -, hsame⟩ := h _ _ first hfirst hcomplete
  rw [hcontent, hagain] at hother
  cases hother
  rw [hempty, hcontent] at hsame
  cases hsame

end Checklist.Markup
