import Checklist.Proofs.Markup.Foremost
import Checklist.Proofs.Markup.OnLine
import Checklist.Proofs.Markup.Verdicts
import Checklist.Proofs.Table
import Checklist.Proofs.Task.OfLine

/-! # Markup that means something

A date has to be one, and a priority a level. Inline fields and the symbols for dates are asked for
that before they count as markup; tags and the symbols for levels are not. Main statement: where no
tag fills a date or the priority, and every symbol for a level names one, whatever is read from a
line means something for its field (`isMeaningful_of_extract`). -/

namespace Checklist
set_option autoImplicit false
open Text

/-! ## What literals are made of -/

section Literals

variable {c : Char} {s rest : Text}

/-- A character that no literal of a date holds. -/
structure IsForeign (c : Char) : Prop where
  digit : isDecimal c = false
  hyphen : c ≠ '-'
  colon : c ≠ ':'
  gap : c ≠ ' ' ∧ c ≠ 'T'

theorem Date.mem_of_digits? {count n : Nat} (hc : isDecimal c = false)
    (h : digits? count s = some (n, rest)) (hmem : c ∈ s) : c ∈ rest := by
  simp only [digits?, Option.ite_none_right_eq_some, Bool.and_eq_true,
    Option.some.injEq, Prod.mk.injEq] at h
  obtain ⟨⟨-, hread⟩, -, rfl⟩ := h
  rw [← List.take_append_drop count s, List.mem_append] at hmem
  refine hmem.resolve_left fun htake => ?_
  rw [List.all_eq_true.1 hread c htake] at hc
  cases hc

theorem Date.mem_of_mark? {mark : Char} (hc : c ≠ mark) (h : mark? mark s = some rest)
    (hmem : c ∈ s) : c ∈ rest := by
  cases s with
  | nil => cases h
  | cons d s =>
    simp only [mark?, Option.ite_none_right_eq_some, beq_iff_eq, Option.some.injEq] at h
    obtain ⟨rfl, rfl⟩ := h
    exact (List.mem_cons.1 hmem).resolve_left hc

theorem Date.mem_of_scan? {day : Nat × Nat × Nat} (hc : IsForeign c)
    (h : scan? s = some (day, rest)) (hmem : c ∈ s) : c ∈ rest := by
  simp only [scan?, Option.bind_eq_bind, Option.bind_eq_some_iff] at h
  obtain ⟨⟨year, s₁⟩, h₁, s₂, h₂, ⟨month, s₃⟩, h₃, s₄, h₄, ⟨last, s₅⟩, h₅, h⟩ := h
  cases h
  have hmonth := mem_of_mark? hc.hyphen h₂ (mem_of_digits? hc.digit h₁ hmem)
  exact mem_of_digits? hc.digit h₅ (mem_of_mark? hc.hyphen h₄ (mem_of_digits? hc.digit h₃ hmonth))

theorem DateText.mem_of_hour? {n : Nat} (hc : isDecimal c = false) (h : hour? s = some (n, rest))
    (hmem : c ∈ s) : c ∈ rest := by
  simp only [hour?, Option.ite_none_right_eq_some, Option.some.injEq, Prod.mk.injEq] at h
  obtain ⟨-, -, rfl⟩ := h
  rw [← List.takeWhile_append_dropWhile (p := isDecimal) (l := s), List.mem_append] at hmem
  refine hmem.resolve_left fun htake => ?_
  rw [forall_mem_takeWhile _ _ c htake] at hc
  cases hc

theorem DateText.mem_of_time? {time : Nat × Nat × Nat} (hc : IsForeign c)
    (h : time? s = some (time, rest)) (hmem : c ∈ s) : c ∈ rest := by
  simp only [time?, Option.bind_eq_bind, Option.bind_eq_some_iff] at h
  obtain ⟨⟨hour, s₁⟩, h₁, s₂, h₂, ⟨minute, s₃⟩, h₃, h⟩ := h
  have hfirst : c ∈ s₃ :=
    Date.mem_of_digits? hc.digit h₃ (Date.mem_of_mark? hc.colon h₂ (mem_of_hour? hc.digit h₁ hmem))
  split at h
  · cases h
    exact hfirst
  · rename_i second s₄ hseconds
    cases h
    obtain ⟨s₅, h₅, h₄⟩ := Option.bind_eq_some_iff.1 hseconds
    exact Date.mem_of_digits? hc.digit h₄ (Date.mem_of_mark? hc.colon h₅ hfirst)

theorem DateText.notMem_of_moment? {moment : Moment} (hc : IsForeign c)
    (h : moment? s = some moment) : c ∉ s := by
  intro hmem
  obtain ⟨parts, hparts, -⟩ := Option.bind_eq_some_iff.1 h
  obtain ⟨⟨day, behind⟩, hscan, hparts⟩ := Option.bind_eq_some_iff.1 hparts
  have hbehind := Date.mem_of_scan? hc hscan hmem
  cases behind with
  | nil => cases hbehind
  | cons mark behind =>
    simp only [Option.ite_none_right_eq_some, Bool.or_eq_true, beq_iff_eq] at hparts
    obtain ⟨hmark, hparts⟩ := hparts
    obtain ⟨⟨time, left⟩, htime, hparts⟩ := Option.bind_eq_some_iff.1 hparts
    simp only [Option.ite_none_right_eq_some, List.isEmpty_iff] at hparts
    obtain ⟨rfl, -⟩ := hparts
    have hrest : c ∈ behind := (List.mem_cons.1 hbehind).resolve_left fun heq =>
      hmark.elim (fun hspace => hc.gap.1 (heq.trans hspace)) fun hletter =>
        hc.gap.2 (heq.trans hletter)
    cases mem_of_time? hc htime hrest

end Literals

namespace Markup

/-! ## Values that mean something -/

/-- The value means something for the slot: for a date it is one, and for the priority it
is a level. -/
def IsMeaningful (today : Date) (slot : Slot) (value : Text) : Prop :=
  match slot with
  | .field (.date _) => ∃ timestamp, DateText.resolve today value = .ok (some timestamp)
  | .field .priority => ∃ level, Priority.resolve value = .ok (some level) ∧ 1 ≤ level ∧ level ≤ 5
  | _ => True

variable {settings : Settings} {today : Date} {slot : Slot} {value : Text}

theorem isMeaningful_level {level : Nat} (h : Priority.resolve value = .ok (some level)) :
    IsMeaningful today (.field .priority) value :=
  ⟨level, h, Priority.inRange_of_resolve h⟩

theorem isMeaningful_of_not_isTried (h : ∀ field, slot = .field field → isTried field = false) :
    IsMeaningful today slot value := by
  cases slot with
  | custom key => trivial
  | field field => cases field with
    | date kind => cases h _ rfl
    | priority => cases h _ rfl
    | _ => trivial

theorem isMeaningful_of_makesSense (h : makesSense today slot value = .ok true) :
    IsMeaningful today slot value := by
  cases slot with
  | custom key => trivial
  | field field => cases field with
    | date kind =>
      obtain ⟨found, hfound, hsome⟩ := Result.map_eq_ok.1 h
      obtain ⟨timestamp, rfl⟩ := Option.isSome_iff_exists.1 hsome
      exact ⟨timestamp, hfound⟩
    | priority =>
      obtain ⟨found, hfound, hsome⟩ := Result.map_eq_ok.1 h
      obtain ⟨level, rfl⟩ := Option.isSome_iff_exists.1 hsome
      exact isMeaningful_level hfound
    | _ => trivial

/-! ## Placeholders mean nothing -/

theorem openMark_mem_lower {s : Text} (h : openMark ∈ s) : openMark ∈ lower s := by
  have hmem := mem_lower (by decide) (by decide) h
  rwa [show lowerChar openMark = openMark by decide +kernel] at hmem

theorem openMark_notMem_of_date {timestamp : Int}
    (h : DateText.resolve today value = .ok (some timestamp)) : openMark ∉ value := by
  intro hmem
  have htrim : openMark ∈ trim value := mem_trim (by decide +kernel) hmem
  obtain ⟨found, hfound, h⟩ := Result.bind_eq_ok.1 h
  cases found with
  | some found =>
    unfold DateText.relative at hfound
    cases hkeyword : DateText.keyword? (trim value) with
    | none =>
      rw [hkeyword] at hfound
      cases hfound
    | some keyword =>
      have hwords := List.find?_some hkeyword
      have hsqueeze : openMark ∈ squeeze (lower (trim value)) :=
        mem_squeeze (by decide +kernel) (openMark_mem_lower htrim)
      rw [← beq_iff_eq.1 hwords] at hsqueeze
      cases keyword <;> exact absurd hsqueeze (by decide)
  | none =>
    replace h : DateText.literal (trim value) = .ok (some timestamp) := h
    unfold DateText.literal at h
    cases hmoment : DateText.moment? (trim value) with
    | none =>
      rw [hmoment] at h
      cases h
    | some moment =>
      exact DateText.notMem_of_moment?
        ⟨by decide +kernel, by decide, by decide, by decide, by decide⟩ hmoment htrim

theorem openMark_notMem_of_lookup {table : List (Text × Nat)}
    (htable : ∀ entry ∈ table, openMark ∉ entry.1) {s : Text} {level : Nat}
    (h : table.lookup s = some level) : openMark ∉ s :=
  htable (s, level) (Table.mem_of_lookup h)

theorem openMark_notMem_of_level
    {level : Nat} (h : Priority.resolve value = .ok (some level)) : openMark ∉ value := by
  intro hmem
  have hplain : openMark ∈ Priority.plain
      (trim value) := List.mem_filter.2 ⟨mem_trim (by decide +kernel) hmem, by decide⟩
  simp only [Priority.resolve] at h
  split at h
  · rename_i hsymbol
    exact openMark_notMem_of_lookup (by decide) hsymbol hplain
  · rename_i hbracket
    unfold Priority.bracketLevel? at hbracket
    split at hbracket
    · rename_i letter htext
      rw [htext] at hplain
      obtain rfl : openMark =
        letter := by simpa [show openMark ≠ '[' by decide, show openMark ≠ '#' by decide,
          show openMark ≠ ']' by decide] using hplain
      cases hbracket
    · cases hbracket
  · rename_i hword
    exact openMark_notMem_of_lookup (by decide) hword (openMark_mem_lower hplain)
  · split at h
    · rename_i hdigits
      have hdigit :=
        List.all_eq_true.1 (Bool.and_eq_true_iff.1 hdigits).2 openMark (openMark_mem_lower hplain)
      exact absurd hdigit (by decide +kernel)
    · cases h

/-- What means something for a date or the priority holds no placeholder, so it stays as it is when
spans are put back. -/
theorem IsMeaningful.restore {store : List Text} {result : Text} (h : IsMeaningful today slot value)
    (hrestore : restore store value = .ok result) :
    IsMeaningful today slot result := by
  have hsame : openMark ∉ value → result = value := fun hmem =>
    Except.ok.inj (hrestore.symm.trans (restore_of_notMem hmem))
  cases slot with
  | custom key => trivial
  | field field => cases field with
    | date kind =>
      obtain ⟨timestamp, hresolve⟩ := h
      exact hsame (openMark_notMem_of_date hresolve) ▸ ⟨timestamp, hresolve⟩
    | priority =>
      obtain ⟨level, hresolve, hrange⟩ := h
      exact hsame (openMark_notMem_of_level hresolve) ▸ ⟨level, hresolve, hrange⟩
    | _ => trivial

/-! ## Markup in its grammar -/

/-- Markup that fills a date or the priority is asked what it means wherever it is read: no
tag fills such a field where tags are read, and every symbol for a level names one where
symbols are read. -/
structure HasMeaningfulMarks (settings : Settings) : Prop where
  tags : settings.readsTags = true → ∀ key name, settings.tagKeys.lookup key = some name → ∀ field,
    Slot.ofName name = .field field → isTried field = false
  symbols : settings.readsMetadata = true → settings.grammars.allowsEmoji = true →
    ∀ symbol, (plainSymbols settings).lookup symbol = some .priority → ∃ level,
      Priority.resolve symbol = .ok (some level)

variable {kind : TokenKind} {previous : Option Char} {site : Site} {verdict : Verdict}

theorem isMeaningful_dataview
    (h : (dataview settings today).judge previous site = .ok (some verdict)) :
    IsMeaningful today verdict.token.slot verdict.token.value := by
  obtain ⟨key, value, -, -, -, hsense, rfl⟩ := judge_dataview_eq_some_iff.1 h
  exact isMeaningful_of_makesSense hsense

theorem exists_level_of_levelWord? {s word after : Text} (h : levelWord? s = some (word, after)) :
    ∃ level, Priority.resolve word = .ok (some level) := by
  simp only [levelWord?, Option.ite_none_right_eq_some, Bool.and_eq_true,
    Option.some.injEq, Prod.mk.injEq] at h
  obtain ⟨⟨⟨hne, -⟩, hword⟩, rfl, -⟩ := h
  obtain ⟨level, hlevel⟩ := Option.isSome_iff_exists.1 hword
  -- letters are no blanks and no variants of symbols
  have hletters : ∀ c ∈ (trimStart s).takeWhile Char.isAlpha, isBlank c = false ∧
      c ≠ Priority.variationSelector := by
    intro c hc
    have hletter := forall_mem_takeWhile Char.isAlpha (trimStart s) c hc
    refine ⟨?_, ?_⟩
    · by_contra hblank
      have hno := forall_blank (p := fun c => !c.isAlpha) (by decide +kernel)
        (by decide +kernel) (Bool.not_eq_false _ ▸ hblank)
      simp [hletter] at hno
    · rintro rfl
      exact absurd hletter (by decide)
  generalize (trimStart s).takeWhile Char.isAlpha = word at *
  have htrim : trim word = word :=
    (isTrimmed_of_forall (by simpa using hne) fun c hc => (hletters c hc).1).trim_eq
  have hplain : Priority.plain word = word :=
    List.filter_eq_self.2 fun c hc => by simpa using (hletters c hc).2
  rw [htrim] at hlevel
  unfold Priority.resolve
  simp only [htrim, hplain, hlevel]
  cases Priority.symbols.lookup word with
  | some found => exact ⟨found, rfl⟩
  | none => cases Priority.bracketLevel? word with
    | some found => exact ⟨found, rfl⟩
    | none => exact ⟨level, rfl⟩

theorem isMeaningful_emoji
    (hsymbols : ∀ symbol, (plainSymbols settings).lookup symbol = some .priority → ∃ level,
      Priority.resolve symbol = .ok (some level))
    (h : (emoji settings today).judge previous site = .ok (some verdict)) :
    IsMeaningful today verdict.token.slot verdict.token.value := by
  obtain ⟨symbol, field, -, hfield, -, hundated, rfl⟩ := judge_emoji_eq_some_iff.1 h
  cases field with
  | date kind =>
    obtain ⟨found, hfound, hnone⟩ := Result.map_eq_ok.1 hundated
    cases found with
    | none => cases hnone
    | some timestamp => exact ⟨timestamp, hfound⟩
  | priority =>
    show IsMeaningful today (.field .priority) ((levelWord? site.after).getD (symbol, site.after)).1
    cases hword : levelWord? site.after with
    | none =>
      obtain ⟨level, hlevel⟩ := hsymbols symbol hfield
      exact isMeaningful_level hlevel
    | some found =>
      obtain ⟨level, hlevel⟩ := exists_level_of_levelWord? hword
      exact isMeaningful_level hlevel
  | _ => trivial

theorem slot_tagMeaning {tag : Text} {field : Field}
    (h : (tagMeaning settings tag).1 = .field field) :
    field = .tags ∨ ∃ key name, settings.tagKeys.lookup key = some name ∧
      Slot.ofName name = .field field := by
  unfold tagMeaning at h
  split at h
  · split at h
    · rename_i name hname
      split at h
      · exact .inl (Slot.field.inj h).symm
      · exact .inr ⟨_, _, hname, h⟩
    · exact .inl (Slot.field.inj h).symm
  · exact .inl (Slot.field.inj h).symm

theorem isMeaningful_tags (htags : ∀ key name, settings.tagKeys.lookup key = some name → ∀ field,
    Slot.ofName name = .field field → isTried field = false)
    (h : (Markup.tags settings).judge previous site = .ok (some verdict)) :
    IsMeaningful today verdict.token.slot verdict.token.value := by
  cases h
  refine isMeaningful_of_not_isTried fun field hfield => ?_
  rcases slot_tagMeaning hfield with rfl | ⟨key, name, hlookup, hname⟩
  · rfl
  · exact htags key name hlookup field hname

theorem isMeaningful_of_judge (hmarks : HasMeaningfulMarks settings) (hkind : kind ∈ kinds settings)
    (h : (grammarOf settings today kind).judge previous site = .ok (some verdict)) :
    IsMeaningful today verdict.token.slot verdict.token.value := by
  cases kind with
  | dataview => exact isMeaningful_dataview h
  | emoji =>
    obtain ⟨hreads, hallows⟩ : settings.readsMetadata = true ∧
      settings.grammars.allowsEmoji = true := by simpa [kinds] using hkind
    exact isMeaningful_emoji (hmarks.symbols hreads hallows) h
  | tag =>
    have hreads : settings.readsTags = true := by simpa [kinds] using hkind
    exact isMeaningful_tags (hmarks.tags hreads) h
  | context =>
    cases h
    trivial

/-! ## Lines -/

/-- Where no tag fills a date or the priority and every symbol for a level names one, all that is
read from a line means something for its field: dates are dates, and priorities are levels. -/
theorem isMeaningful_of_extract (hmarks : HasMeaningfulMarks settings) {content : Text}
    {extraction : Extraction} (h : extract settings today content = .ok extraction) :
    ∀ token ∈ extraction.tokens, IsMeaningful today token.slot token.value := by
  obtain ⟨consumed, text, tokens, hconsumed, -, htokens, rfl⟩ := exists_of_extract h
  intro token htoken
  obtain ⟨masked, hmasked, hrestore⟩ :=
    Result.exists_left_of_mem (Result.mapM_eq_ok.1 htokens) htoken
  obtain ⟨value, raw, hvalue, -, rfl⟩ := Token.restore_eq_ok_iff.1 hrestore
  have hall :=
      forall_mem_consumeAll_of_marks (P := fun token => IsMeaningful today token.slot token.value)
    (List.forall_mem_map.2 fun kind hkind previous site verdict _ =>
      isMeaningful_of_judge hmarks hkind) hconsumed
  exact (hall masked hmasked).restore hvalue

end Markup
end Checklist
