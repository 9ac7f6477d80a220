import Checklist.Proofs.Markup.Reading
import Checklist.Proofs.Markup.Symbols
import Checklist.Proofs.Markup.Winners

/-! # Tokens lie on their line

What a token says is made of characters of the line that it was read from. Main statement: no token
of a line reaches over the end of the line, and one under a key of the author's own can be written
as an inline field again (`isOnLine_of_extract`). -/

namespace Checklist
set_option autoImplicit false
open Text

/-! ## Scans leave the end of a text -/

theorem Date.digits?_suffix {count n : Nat} {s rest : Text} (h : digits? count s = some (n, rest)) :
    rest <:+ s := by
  simp only [digits?, Option.ite_none_right_eq_some, Option.some.injEq, Prod.mk.injEq] at h
  rw [← h.2.2]
  exact List.drop_suffix _ _

theorem Date.mark?_suffix {mark : Char} {s rest : Text} (h : mark? mark s = some rest) :
    rest <:+ s := by
  cases s with
  | nil => cases h
  | cons c s =>
    simp only [mark?, Option.ite_none_right_eq_some, Option.some.injEq] at h
    rw [← h.2]
    exact List.suffix_cons _ _

theorem Date.scan?_suffix {s rest : Text} {day : Nat × Nat × Nat} (h : scan? s = some (day, rest)) :
    rest <:+ s := by
  simp only [scan?, Option.bind_eq_bind, Option.bind_eq_some_iff] at h
  obtain ⟨⟨year, s₁⟩, h₁, s₂, h₂, ⟨month, s₃⟩, h₃, s₄, h₄, ⟨last, s₅⟩, h₅, h⟩ := h
  cases h
  exact (digits?_suffix h₅).trans
    ((mark?_suffix h₄).trans
      ((digits?_suffix h₃).trans ((mark?_suffix h₂).trans (digits?_suffix h₁))))

theorem DateText.hour?_suffix {n : Nat} {s rest : Text} (h : hour? s = some (n, rest)) :
    rest <:+ s := by
  simp only [hour?, Option.ite_none_right_eq_some, Option.some.injEq, Prod.mk.injEq] at h
  rw [← h.2.2]
  exact List.dropWhile_suffix _

theorem DateText.time?_suffix {s rest : Text} {time : Nat × Nat × Nat}
    (h : time? s = some (time, rest)) : rest <:+ s := by
  simp only [time?, Option.bind_eq_bind, Option.bind_eq_some_iff] at h
  obtain ⟨⟨hour, s₁⟩, h₁, s₂, h₂, ⟨minute, s₃⟩, h₃, h⟩ := h
  have hfirst : s₃ <:+ s :=
    (Date.digits?_suffix h₃).trans ((Date.mark?_suffix h₂).trans (hour?_suffix h₁))
  split at h
  · cases h
    exact hfirst
  · rename_i second s₄ hseconds
    cases h
    obtain ⟨s₅, h₅, h₄⟩ := Option.bind_eq_some_iff.1 hseconds
    exact (Date.digits?_suffix h₄).trans ((Date.mark?_suffix h₅).trans hfirst)

namespace Markup

/-! ## Settings that keep the marks -/

/-- The settings leave the symbols and the first parts of tags as they are by default. -/
structure KeepsMarks (settings : Settings) : Prop where
  symbols : settings.symbols = defaultSymbols
  tagKeys : settings.tagKeys = defaultTagKeys

theorem KeepsMarks.grammarOf_eq {settings : Settings} (h : KeepsMarks settings)
    (today : Date) (kind : TokenKind) :
    grammarOf settings today kind = grammarOf .standard today kind := by
  have hsymbols : plainSymbols settings = plainSymbols .standard := by
    rw [plainSymbols, h.symbols]
    rfl
  have hslot : inlineSlot settings = inlineSlot .standard := by
    funext key
    rw [inlineSlot, h.tagKeys]
    rfl
  have hmeaning : tagMeaning settings = tagMeaning .standard := by
    funext tag
    rw [tagMeaning, h.tagKeys]
    rfl
  cases kind with
  | dataview => simp only [grammarOf, dataview, hslot]
  | emoji => simp only [grammarOf, emoji, hsymbols]
  | tag => simp only [grammarOf, tags, hmeaning]
  | context => rfl

theorem KeepsMarks.grammars_eq {settings : Settings} (h : KeepsMarks settings) (today : Date) :
    grammars settings today = (kinds settings).map (grammarOf .standard today) := by
  rw [grammars_eq_map]
  exact List.map_congr_left fun kind _ => h.grammarOf_eq today kind

/-! ## What stands behind a symbol -/

theorem levelWord?_suffix {s word after : Text} (h : levelWord? s = some (word, after)) :
    (∀ c ∈ word, c ∈ s) ∧ after <:+ s := by
  simp only [levelWord?, Option.ite_none_right_eq_some, Option.some.injEq, Prod.mk.injEq] at h
  obtain ⟨-, rfl, rfl⟩ := h
  exact ⟨fun c hc => (trimStart_suffix s).mem ((List.takeWhile_sublist _).mem hc),
    (List.dropWhile_suffix _).trans (trimStart_suffix s)⟩

theorem afterMoment?_suffix {s after : Text} (h : afterMoment? s = some after) : after <:+ s := by
  simp only [afterMoment?, Option.bind_eq_bind, Option.bind_eq_some_iff] at h
  obtain ⟨⟨day, s₁⟩, h₁, s₂, h₂, ⟨time, s₃⟩, h₃, h⟩ := h
  simp only [Option.ite_none_right_eq_some, Option.some.injEq] at h
  rw [← h.2]
  exact (DateText.time?_suffix h₃).trans ((Date.mark?_suffix h₂).trans (Date.scan?_suffix h₁))

theorem afterKeyword?_suffix {s after : Text} (h : afterKeyword? s = some after) : after <:+ s := by
  simp only [afterKeyword?, Option.ite_none_right_eq_some, Option.some.injEq] at h
  rw [← h.2]
  exact (List.dropWhile_suffix _).trans ((trimStart_suffix _).trans (List.dropWhile_suffix _))

theorem dateWord_suffix (s : Text) : (∀ c ∈ (dateWord s).1, c ∈ s) ∧ (dateWord s).2 <:+ s := by
  have hstart := trimStart_suffix s
  cases hafter : (afterMoment? (trimStart s)).or (afterKeyword? (trimStart s)) with
  | none =>
    simp only [dateWord, hafter]
    exact ⟨fun c hc => hstart.mem ((List.takeWhile_sublist _).mem hc),
      (List.dropWhile_suffix _).trans hstart⟩
  | some after =>
    simp only [dateWord, hafter]
    refine ⟨fun c hc => hstart.mem (List.mem_of_mem_take hc), ?_⟩
    rcases Option.or_eq_some_iff.1 hafter with h | ⟨-, h⟩
    · exact (afterMoment?_suffix h).trans hstart
    · exact (afterKeyword?_suffix h).trans hstart

theorem phrase_eq {symbols : Table Field} {previous : Option Char} {s : Text} :
    (phrase symbols previous s).1 ++ (phrase symbols previous s).2 = s := by
  unfold phrase
  cases hsite : locate? (anyLength? symbols) previous s with
  | none => exact List.append_nil s
  | some site =>
    rw [locate?_eq_some hsite]
    simp

theorem symbolValue_suffix {symbols : Table Field} (field : Field) (symbol after : Text)
    (previous : Option Char) :
    (∀ c ∈ (symbolValue symbols field symbol previous after).1, c ∈ symbol ∨ c ∈ after) ∧
      (symbolValue symbols field symbol previous after).2 <:+ after := by
  unfold symbolValue
  split
  · cases hword : levelWord? after with
    | none => exact ⟨fun c hc => .inl hc, List.suffix_rfl⟩
    | some found =>
      obtain ⟨hvalue, hafter⟩ := levelWord?_suffix hword
      exact ⟨fun c hc => .inr (hvalue c hc), hafter⟩
  · have hsplit := @phrase_eq symbols previous after
    refine ⟨fun c hc => .inr ?_, ⟨_, hsplit⟩⟩
    rw [← hsplit]
    exact List.mem_append_left _ (mem_of_mem_trim hc)
  · obtain ⟨hvalue, hafter⟩ := dateWord_suffix after
    exact ⟨fun c hc => .inr (hvalue c hc), hafter⟩

/-! ## Slots -/

theorem ofName_tagKeys {key name : Text} (h : Settings.standard.tagKeys.lookup key = some name) :
    ∃ field, Slot.ofName name = .field field := by
  obtain ⟨before, after, hsplit, -⟩ := List.lookup_eq_some_iff.1 h
  have hmem : name ∈ Settings.standard.tagKeys.map (·.2) := by
    rw [hsplit]
    simp
  have hall : ∀ name ∈ Settings.standard.tagKeys.map (·.2), ∃ field ∈ Field.all,
      Slot.ofName name = .field field := by decide
  obtain ⟨field, -, hfield⟩ := hall name hmem
  exact ⟨field, hfield⟩

theorem inlineSlot_eq_custom {key own : Text} (h : inlineSlot .standard key = .custom own) :
    key = own := by
  unfold inlineSlot at h
  split at h
  · cases h
  · rename_i name _ hname
    obtain ⟨field, hfield⟩ := ofName_tagKeys hname
    rw [hfield] at h
    cases h
  · have hname := Slot.name_ofName key
    rw [h] at hname
    exact hname.symm

theorem tagMeaning_eq {tag value : Text} {slot : Slot} {repeats : Bool}
    (h : tagMeaning .standard tag = (slot, value, repeats)) (hne : tag ≠ []) :
    (∃ field, slot = .field field) ∧ value ≠ [] ∧ ∀ c ∈ value, c ∈ tag := by
  have hplain : (Slot.field .tags, tag, true) = (slot, value, repeats) →
      (∃ field, slot = .field field) ∧ value ≠ [] ∧ ∀ c ∈ value, c ∈ tag := by
    intro heq
    cases heq
    exact ⟨⟨_, rfl⟩, hne, fun c hc => hc⟩
  unfold tagMeaning at h
  split at h
  · rename_i key found hcut
    split at h
    · rename_i name hname
      split at h
      · exact hplain h
      · rename_i hempty
        obtain ⟨field, hfield⟩ := ofName_tagKeys hname
        rw [hfield] at h
        cases h
        simp only [Bool.or_eq_true, List.isEmpty_iff, not_or] at hempty
        refine ⟨⟨field, rfl⟩, hempty.2, fun c hc => ?_⟩
        rw [(cut_eq_iff.1 hcut).2]
        exact List.mem_append_right _ (List.mem_cons_of_mem _ hc)
    · exact hplain h
  · exact hplain h

/-! ## Tokens of a line -/

/-- What a token says lies on one line, and under a key of the author's own it can be written as an
inline field. -/
structure Token.IsOnLine (token : Token) : Prop where
  value : '\n' ∉ token.value
  tag : token.slot = .field .tags → IsTrimmed token.value
  custom : ∀ key, token.slot = .custom key →
    IsKey key ∧ IsTrimmed key ∧ '\n' ∉ key ∧ inlineSlot .standard key = .custom key ∧
      IsTrimmed token.value

/-- From a line the grammar takes tokens that lie on it, and goes on with the rest of the line. -/
def Grammar.StaysOnLine (grammar : Grammar) : Prop :=
  ∀ (previous : Option Char) (site : Site) (verdict : Verdict), grammar.Marks site →
    grammar.judge previous site = .ok (some verdict) →
    '\n' ∉ site.mark ++ site.after → verdict.token.IsOnLine ∧ verdict.after <:+ site.after

variable {today : Date}

theorem staysOnLine_dataview : (dataview .standard today).StaysOnLine := by
  intro previous site verdict hmark h hline
  simp only [dataview] at h
  cases hfield : inlineField? site.mark with
  | none =>
    rw [hfield] at h
    cases h
  | some pair =>
    obtain ⟨key, value⟩ := pair
    simp only [hfield] at h
    by_cases hempty : ((trim key).isEmpty || (trim value).isEmpty) = true
    · simp [hempty, pure, Except.pure] at h
    · simp only [hempty, Bool.false_eq_true, if_false] at h
      obtain ⟨sense, -, h⟩ := Result.bind_eq_ok.1 h
      cases sense with
      | false => cases h
      | true =>
        cases h
        obtain ⟨⟨-, hkey⟩, -, hstarts⟩ := inlineField?_eq_some_iff.1 hfield
        simp only [Bool.or_eq_true, List.isEmpty_iff, not_or] at hempty
        have htext : ∀ c ∈ fieldText key value, c ≠ '\n' := by
          rintro c hc rfl
          exact hline (List.mem_append_left _ (hstarts.mem hc))
        have hkeyLine : '\n' ∉ trim key :=
          fun hc => htext _ (by simp [fieldText, mem_of_mem_trim hc]) rfl
        refine ⟨⟨fun hc => htext _ (by simp [fieldText, mem_of_mem_trim hc]) rfl,
          fun _ => isTrimmed_trim hempty.2, fun own hown => ?_⟩,
          List.suffix_rfl⟩
        have hsame := inlineSlot_eq_custom hown
        rw [← hsame]
        exact ⟨⟨hempty.1, fun c hc => hkey c (mem_of_mem_trim hc)⟩, isTrimmed_trim hempty.1,
          hkeyLine, hsame ▸ hown, isTrimmed_trim hempty.2⟩

theorem staysOnLine_emoji : (emoji .standard today).StaysOnLine := by
  intro previous site verdict hmark h hline
  simp only [emoji] at h
  cases hsymbol : symbol? (plainSymbols .standard) site.mark with
  | none => simp [hsymbol] at h
  | some symbol => cases hfield : (plainSymbols .standard).lookup symbol with
    | none => simp [hsymbol, hfield] at h
    | some field =>
      simp only [hsymbol, hfield] at h
      split at h
      · cases h
      · obtain ⟨undated, -, h⟩ := Result.bind_eq_ok.1 h
        cases undated with
        | true => cases h
        | false =>
          cases h
          obtain ⟨hvalue, hafter⟩ :=
            symbolValue_suffix field symbol site.after (lastOr previous site.mark)
          have htags : Slot.field field ≠ .field .tags := by
            rintro heq
            cases heq
            rcases field_of_lookup hfield with hno | hno | ⟨kind, hno⟩ <;> cases hno
          refine ⟨⟨fun hmem => hline ?_, fun heq => absurd heq htags, nofun⟩, hafter⟩
          rcases hvalue _ hmem with hmem | hmem
          · cases hmark : site.mark with
            | nil =>
              rw [hmark, plainSymbols_default] at hsymbol
              cases hsymbol
            | cons c rest =>
              rw [hmark, symbol?_cons, Option.ite_none_right_eq_some, Option.some.injEq] at hsymbol
              rw [← hsymbol.2, List.mem_singleton] at hmem
              exact List.mem_append_left _ (hmem ▸ List.mem_cons_self)
          · exact List.mem_append_right _ hmem

theorem isTagBody_of_marks {site : Site} (h : (tags .standard).Marks site) :
    site.mark.drop 1 ≠ [] ∧ ∀ c ∈ site.mark.drop 1, isTagBody c = true := by
  obtain ⟨previous, n, hlength, hmark⟩ := h
  obtain ⟨tag, htag, rfl⟩ := Option.map_eq_some_iff.1 hlength
  obtain ⟨htext, -⟩ := Option.filter_eq_some_iff.1 htag
  obtain ⟨-, hne, rest, hs, rfl⟩ := signed?_eq_some_iff.1 htext
  have hdrop : site.mark.drop 1 = rest.takeWhile isTagBody := by
    rw [hmark, hs, List.take_succ_cons, List.drop_succ_cons, List.drop_zero]
    exact (List.prefix_iff_eq_take.1 (List.takeWhile_prefix _)).symm
  rw [hdrop]
  exact ⟨hne, forall_mem_takeWhile _ _⟩

theorem isBlank_of_isTagBody {c : Char} (h : isTagBody c = true) : isBlank c = false := by
  by_contra hblank
  have hno := forall_blank (p := fun c => !isTagBody c) (by decide +kernel)
    (by decide +kernel) (Bool.not_eq_false _ ▸ hblank)
  simp [h] at hno

theorem staysOnLine_tags : (tags .standard).StaysOnLine := by
  intro previous site verdict hmark h hline
  obtain ⟨hne, hbody⟩ := isTagBody_of_marks hmark
  simp only [tags] at h
  rcases hmeaning : tagMeaning .standard (site.mark.drop 1) with ⟨slot, value, repeats⟩
  rw [hmeaning] at h
  cases h
  obtain ⟨⟨field, rfl⟩, hvalueNe, hvalue⟩ := tagMeaning_eq hmeaning hne
  have hsolid : ∀ c ∈ value, isBlank c = false :=
    fun c hc => isBlank_of_isTagBody (hbody c (hvalue c hc))
  exact ⟨⟨fun hmem => absurd (hsolid _ hmem) (by decide),
    fun _ => isTrimmed_of_forall hvalueNe hsolid, nofun⟩, List.suffix_rfl⟩

theorem staysOnLine_contexts : contexts.StaysOnLine := by
  intro previous site verdict hmark h hline
  cases h
  exact ⟨⟨fun hmem => hline (List.mem_append_left _ ((List.drop_suffix _ _).mem hmem)), nofun,
    nofun⟩, List.suffix_rfl⟩

theorem staysOnLine_grammarOf (today : Date) (kind : TokenKind) :
    (grammarOf .standard today kind).StaysOnLine := by
  cases kind with
  | dataview => exact staysOnLine_dataview
  | emoji => exact staysOnLine_emoji
  | tag => exact staysOnLine_tags
  | context => exact staysOnLine_contexts

theorem Grammar.StaysOnLine.consume {grammar : Grammar} (hgrammar : grammar.StaysOnLine)
    {budget : Nat} {previous : Option Char} {s : Text}
    {consumed : Consumed} (h : grammar.consume budget previous s = .ok consumed)
    (hline : '\n' ∉ s) :
    (∀ entry ∈ consumed.tokens, entry.1.IsOnLine) ∧ '\n' ∉ consumed.text := by
  have hconsumes := Grammar.consumes_of_consume h
  clear h
  induction hconsumes with
  | stop => exact ⟨by simp, hline⟩
  | @token _ _ site verdict rest hsite hverdict _ ih =>
    rw [locate?_eq_some hsite, List.append_assoc] at hline
    obtain ⟨hbefore, hrest⟩ := not_or.1 (List.mem_append.not.1 hline)
    obtain ⟨htoken, hafter⟩ :=
      hgrammar _ site verdict (Grammar.marks_of_locate? hsite) hverdict hrest
    obtain ⟨htokens, htext⟩ := ih fun hmem => hrest (List.mem_append_right _ (hafter.mem hmem))
    refine ⟨List.forall_mem_cons.2 ⟨htoken, htokens⟩, fun hmem => ?_⟩
    rcases List.mem_append.1 hmem with hmem | hmem
    · exact hbefore hmem
    · exact htext ((List.mem_cons.1 hmem).resolve_left (by decide))
  | @mark _ _ site rest hsite _ _ ih =>
    rw [locate?_eq_some hsite] at hline
    obtain ⟨hkept, hrest⟩ := not_or.1 (List.mem_append.not.1 hline)
    obtain ⟨htokens, htext⟩ := ih hrest
    exact ⟨htokens, fun hmem => (List.mem_append.1 hmem).elim hkept htext⟩

theorem isOnLine_of_consumeAll {grammars : List Grammar}
    (hgrammars : ∀ grammar ∈ grammars, grammar.StaysOnLine) {budget : Nat} {s : Text}
    {consumed : Consumed} (h : consumeAll grammars budget s = .ok consumed) (hline : '\n' ∉ s) :
    ∀ entry ∈ consumed.tokens, entry.1.IsOnLine := by
  induction grammars generalizing budget s consumed with
  | nil =>
    cases h
    simp
  | cons grammar grammars ih =>
    obtain ⟨first, others, hfirst, hothers, rfl⟩ := consumeAll_cons_eq_ok_iff.1 h
    obtain ⟨htokens, htext⟩ := (hgrammars grammar List.mem_cons_self).consume hfirst hline
    have hrest :=
      ih (fun other hother => hgrammars other (List.mem_cons_of_mem _ hother)) hothers htext
    intro entry hentry
    rcases List.mem_append.1 hentry with hentry | hentry
    · obtain ⟨token, htoken, rfl⟩ := List.mem_map.1 hentry
      obtain ⟨found, hfound, rfl⟩ := mem_of_mem_firsts htoken
      exact htokens found hfound
    · exact hrest entry hentry

/-! ## Spans put back -/

theorem notMem_mask {s : Text} (hline : '\n' ∉ s) (number : Nat) :
    '\n' ∉ mask number (pieces s) := by
  intro hmem
  rcases mem_mask hmem with hplain | hmasking
  · exact hline (mem_of_plain hplain)
  · exact absurd hmasking (by decide)

theorem isSpan_of_mem_store {s span : Text} (h : span ∈ (protect s).store) : IsSpan span := by
  have hcut := (isCut_pieces s).1
  have hmem : span ∈ spans (pieces s) := h
  generalize pieces s = parts at hcut hmem
  induction hcut with
  | nil => cases hmem
  | plain _ _ ih => exact ih hmem
  | span hs _ ih =>
    rcases List.mem_cons.1 hmem with rfl | hmem
    · exact hs
    · exact ih hmem

theorem restore_of_notMem {store : List Text} {s : Text} (h : openMark ∉ s) :
    restore store s = .ok s := by
  unfold restore
  split
  · rfl
  · exact restoreAfter_eq_ok_iff.2 (restores_of_notMem h)

theorem notMem_restore {s t result : Text} (h : restore (protect s).store t = .ok result)
    (hline : '\n' ∉ t) : '\n' ∉ result := by
  rcases restores_of_restore h with ⟨-, rfl⟩ | ⟨-, hrestores⟩
  · exact hline
  · intro hmem
    rcases hrestores.mem hmem with hmem | ⟨span, hspan, hmem⟩
    · exact hline hmem
    · exact (isSpan_of_mem_store hspan).isTrimmed.2 hmem

theorem isTrimmed_restore {s t result : Text} (h : restore (protect s).store t = .ok result)
    (htrimmed : IsTrimmed t) : IsTrimmed result := by
  rcases restores_of_restore h with ⟨-, rfl⟩ | ⟨-, hrestores⟩
  · exact htrimmed
  · exact hrestores.isTrimmed (fun span hspan => (isSpan_of_mem_store hspan).isTrimmed.1) htrimmed

theorem Token.IsOnLine.restore {s : Text} {token restored : Token} (hline : token.IsOnLine)
    (h : Token.restore (protect s).store token = .ok restored) : restored.IsOnLine := by
  obtain ⟨value, raw, hvalue, -, rfl⟩ := Token.restore_eq_ok_iff.1 h
  refine ⟨notMem_restore hvalue hline.value, fun htag => isTrimmed_restore hvalue (hline.tag htag),
    fun key hkey => ?_⟩
  obtain ⟨hisKey, htrimmed, hkeyLine, hslot, hvalueTrimmed⟩ := hline.custom key hkey
  exact ⟨hisKey, htrimmed, hkeyLine, hslot, isTrimmed_restore hvalue hvalueTrimmed⟩

/-- No token of a line reaches over its end. -/
theorem isOnLine_of_extract {settings : Settings} (hmarks : KeepsMarks settings) {content : Text}
    {extraction : Extraction}
    (h : extract settings today content = .ok extraction) (hline : '\n' ∉ content) : ∃ tokens,
      (∀ token ∈ tokens, token.IsOnLine) ∧ extraction.fields = fieldValues (winners tokens) ∧
      extraction.custom = customValues (winners tokens) ∧ extraction.tags = tagValues tokens := by
  rw [extract_eq_ok_iff, hmarks.grammars_eq] at h
  obtain ⟨consumed, text, tokens, hconsumed, -, htokens, rfl⟩ := h
  have hstays : ∀ grammar ∈ (kinds settings).map (grammarOf .standard today),
      grammar.StaysOnLine := by
    intro grammar hgrammar
    obtain ⟨kind, -, rfl⟩ := List.mem_map.1 hgrammar
    exact staysOnLine_grammarOf today kind
  have hall := isOnLine_of_consumeAll hstays hconsumed (notMem_mask hline 0)
  refine ⟨tokens, fun token htoken => ?_, rfl, rfl, rfl⟩
  obtain ⟨masked, hmasked, hrestore⟩ :=
    Result.exists_left_of_mem (Result.mapM_eq_ok.1 htokens) htoken
  obtain ⟨entry, hentry, rfl⟩ := List.mem_map.1 hmasked
  exact (hall entry hentry).restore hrestore

theorem isTrimmed_content {settings : Settings} {content : Text} {extraction : Extraction}
    (h : extract settings today content = .ok extraction) :
    (extraction.content = [] ∨ IsTrimmed extraction.content) ∧ '\n' ∉ extraction.content := by
  obtain ⟨consumed, text, tokens, -, htext, -, rfl⟩ := extract_eq_ok_iff.1 h
  refine ⟨?_, notMem_restore htext (notMem_squeeze (by decide) (by decide) _)⟩
  rcases squeeze_eq_nil_or consumed.text with hempty | htrimmed
  · left
    rw [hempty] at htext
    rcases restores_of_restore htext with ⟨-, hsame⟩ | ⟨-, hrestores⟩
    · exact hsame
    · cases hrestores
      rfl
  · exact .inr (isTrimmed_restore htext htrimmed)

end Markup
end Checklist
