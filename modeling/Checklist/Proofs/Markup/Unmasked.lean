import Checklist.Proofs.Markup.Foremost
import Checklist.Proofs.Markup.Removal
import Checklist.Proofs.Markup.Verdicts

/-! # Where placeholders stay behind

The grammars read a text in which placeholders stand for spans, and what they take out of it is put
back span by span. Main statement: where the content of a line holds no character of a placeholder,
neither does anything that is read from it but the keys of inline fields, and these do not exactly
if each is what was written (`isUnmasked_iff`). -/

namespace Checklist.Markup
set_option autoImplicit false
open Text

variable {today : Date} {store : List Text} {parts : List Piece}

/-! ## What is meant -/

/-- The text holds neither of the characters that placeholders begin and end with. -/
def IsUnmasked (s : Text) : Prop :=
  openMark ∉ s ∧ closeMark ∉ s

/-- What is read from a line is unmasked, and its keys are as they should be. -/
structure Extraction.IsUnmasked (extraction : Extraction) (isKey : Text → Prop) : Prop where
  content : Markup.IsUnmasked extraction.content
  fields : ∀ entry ∈ extraction.fields, Markup.IsUnmasked entry.1.name ∧ Markup.IsUnmasked entry.2
  custom : ∀ entry ∈ extraction.custom, isKey entry.1 ∧ Markup.IsUnmasked entry.2
  tags : ∀ tag ∈ extraction.tags, Markup.IsUnmasked tag
  slots : ∀ token ∈ extraction.tokens, match token.slot with
    | .field field => Markup.IsUnmasked field.name
    | .custom key => isKey key
  tokens : ∀ token ∈ extraction.tokens, Markup.IsUnmasked token.value ∧ Markup.IsUnmasked token.raw

/-! ## Pieces -/

theorem isUnmasked_chars (h : ∀ part ∈ parts, IsUnmasked part.chars) :
    IsUnmasked (chars parts) := by
  refine ⟨fun hmem => ?_, fun hmem => ?_⟩
  · obtain ⟨part, hpart, hmem⟩ := List.mem_flatMap.1 hmem
    exact (h part hpart).1 hmem
  · obtain ⟨part, hpart, hmem⟩ := List.mem_flatMap.1 hmem
    exact (h part hpart).2 hmem

theorem isUnmasked_space : IsUnmasked [' '] := by
  unfold IsUnmasked
  decide

theorem isUnmasked_of_mem_pieces {content : Text} (h : IsUnmasked content) :
    ∀ part ∈ pieces content, IsUnmasked part.chars := by
  intro part hpart
  have hwithin : ∀ c ∈ part.chars, c ∈ content := fun c hc => by
    rw [← (isCut_pieces content).2]
    exact List.mem_flatMap.2 ⟨part, hpart, hc⟩
  exact ⟨fun hmem => h.1 (hwithin _ hmem), fun hmem => h.2 (hwithin _ hmem)⟩

theorem isUnmasked_name (field : Field) : IsUnmasked field.name := by
  unfold IsUnmasked
  cases field with
  | date kind => cases kind <;> decide
  | _ => decide

theorem CutOut.mem {α : Type} {gap : α} {segments : List (List α)} {xs left : List α}
    (h : CutOut gap segments xs left) :
    (∀ x ∈ left, x ∈ xs ∨ x = gap) ∧ ∀ segment ∈ segments, ∀ x ∈ segment, x ∈ xs := by
  induction h with
  | nil => exact ⟨nofun, nofun⟩
  | @keep y segments xs left _ ih =>
    refine ⟨fun x hx => ?_, fun segment hsegment x hx =>
      List.mem_cons_of_mem _ (ih.2 segment hsegment x hx)⟩
    rcases List.mem_cons.1 hx with rfl | hx
    · exact .inl List.mem_cons_self
    · exact (ih.1 x hx).imp_left (List.mem_cons_of_mem _)
  | @cut segment segments xs left _ ih =>
    refine ⟨fun x hx => ?_, fun other hother x hx => ?_⟩
    · rcases List.mem_cons.1 hx with rfl | hx
      · exact .inr rfl
      · exact (ih.1 x hx).imp_left (List.mem_append_right _)
    · rcases List.mem_cons.1 hother with rfl | hother
      · exact List.mem_append_left _ hx
      · exact List.mem_append_right _ (ih.2 other hother x hx)

theorem mem_of_mem_splitOnP {α : Type} {p : α → Bool} {xs run : List α} (hrun : run ∈ xs.splitOnP p)
    {x : α} (hx : x ∈ run) : x ∈ xs := by
  induction xs generalizing run with
  | nil =>
    obtain rfl : run = [] := by simpa using hrun
    cases hx
  | cons y xs ih =>
    rw [List.splitOnP_cons_eq_if_modifyHead] at hrun
    split at hrun
    · rcases List.mem_cons.1 hrun with rfl | hrun
      · cases hx
      · exact List.mem_cons_of_mem _ (ih hrun hx)
    · cases hruns : xs.splitOnP p with
      | nil =>
        rw [hruns] at hrun
        cases hrun
      | cons first rest =>
        rw [hruns] at hrun
        rcases List.mem_cons.1 hrun with rfl | hrun
        · rcases List.mem_cons.1 hx with rfl | hx
          · exact List.mem_cons_self
          · exact List.mem_cons_of_mem _ (ih (hruns ▸ List.mem_cons_self) hx)
        · exact List.mem_cons_of_mem _ (ih (hruns ▸ List.mem_cons_of_mem _ hrun) hx)

theorem mem_of_mem_intercalate {α : Type} {gap x : α} {runs : List (List α)}
    (h : x ∈ [gap].intercalate runs) : x = gap ∨ ∃ run ∈ runs, x ∈ run := by
  induction runs with
  | nil => cases h
  | cons run runs ih => cases runs with
    | nil =>
      rw [List.intercalate_singleton] at h
      exact .inr ⟨run, List.mem_singleton_self _, h⟩
    | cons next rest =>
      rw [List.intercalate_cons_cons, List.mem_append, List.mem_append] at h
      rcases h with (h | h) | h
      · exact .inr ⟨run, List.mem_cons_self, h⟩
      · exact .inl (List.mem_singleton.1 h)
      · exact (ih h).imp_right fun ⟨other, hother, hx⟩ => ⟨other, List.mem_cons_of_mem _ hother, hx⟩

theorem mem_of_mem_tidy {part : Piece} (h : part ∈ tidy parts) :
    part ∈ parts ∨ part = .plain ' ' := by
  rcases mem_of_mem_intercalate h with rfl | ⟨run, hrun, hpart⟩
  · exact .inr rfl
  · exact .inl (mem_of_mem_splitOnP (List.mem_of_mem_filter hrun) hpart)

/-- What holds of the pieces of a line holds of what the grammars leave, and of what the tokens were
written as. -/
theorem Stages.forall_part {P : Piece → Prop} {kinds : List TokenKind} {tokens : List Token}
    {before after : Masked store}
    (h : Stages today kinds tokens before after) (hspace : P (.plain ' '))
    (hbefore : ∀ part ∈ before.parts, P part) :
    (∀ part ∈ after.parts, P part) ∧ ∀ token ∈ tokens, ∃ written, Masks store written token.raw ∧
      ∀ part ∈ written, P part := by
  induction h with
  | nil => exact ⟨hbefore, nofun⟩
  | @cons kind kinds segments removed tokens others before between after first rest ih =>
    obtain ⟨hleft, hremoved⟩ := first.parts.mem
    have hbetween : ∀ part ∈ between.parts, P part :=
      fun part hpart => (hleft part hpart).elim (hbefore part) fun heq => heq ▸ hspace
    refine ⟨(ih hbetween).1, List.forall_mem_append.2 ⟨fun token htoken => ?_, (ih hbetween).2⟩⟩
    obtain ⟨written, hwritten, hmasks⟩ :=
      Result.exists_left_of_mem first.masks (first.raws.subset (List.mem_map_of_mem htoken))
    exact ⟨written, hmasks, fun part hpart => hbefore part (hremoved written hwritten part hpart)⟩

/-! ## Parts of a masked text -/

/-- The part stands in the text with nothing next to it that can belong to a placeholder. -/
def StandsApart (part whole : Text) : Prop :=
  ∃ before after, whole = before ++ (part ++ after) ∧
    (∀ c, before.getLast? = some c → isMasking c = false) ∧
    ∀ c, after.head? = some c → isMasking c = false

theorem Masks.part {part whole : Text} (h : Masks store parts whole)
    (hpart : StandsApart part whole) :
    ∃ inner, inner <:+: parts ∧ Masks store inner part := by
  obtain ⟨before, after, rfl, hbefore, hafter⟩ := hpart
  obtain ⟨front, others, rfl, -, hothers⟩ := h.of_append_last hbefore
  obtain ⟨inner, behind, rfl, hinner, -⟩ := hothers.of_append_head hafter
  exact ⟨inner, ⟨front, behind, by rw [List.append_assoc]⟩, hinner⟩

/-! ## Values and keys in their markup -/

/-- What the token says stands apart in what it was written as, or holds nothing of a
placeholder. -/
structure Token.IsApart (token : Token) : Prop where
  value : IsUnmasked token.value ∨ StandsApart token.value token.raw
  custom : ∀ key, token.slot = .custom key → StandsApart key token.raw

theorem isMasking_of_getLast? {before blanks : Text} (hblanks : ∀ c ∈ blanks, isBlank c = true)
    (hbefore : ∀ c, before.getLast? = some c → isMasking c = false) :
    ∀ c, (before ++ blanks).getLast? = some c → isMasking c = false := by
  intro c hc
  rw [List.getLast?_append, Option.or_eq_some_iff] at hc
  rcases hc with hc | ⟨-, hc⟩
  · exact isMasking_of_isBlank (hblanks c (List.mem_of_getLast? hc))
  · exact hbefore c hc

theorem isMasking_of_head? {blanks after : Text} (hblanks : ∀ c ∈ blanks, isBlank c = true)
    (hafter : ∀ c, after.head? = some c → isMasking c = false) :
    ∀ c, (blanks ++ after).head? = some c → isMasking c = false := by
  intro c hc
  rw [List.head?_append, Option.or_eq_some_iff] at hc
  rcases hc with hc | ⟨-, hc⟩
  · exact isMasking_of_isBlank (hblanks c (List.mem_of_mem_head? hc))
  · exact hafter c hc

theorem standsApart_trim {before s after : Text}
    (hbefore : ∀ c, before.getLast? = some c → isMasking c = false)
    (hafter : ∀ c, after.head? = some c → isMasking c = false) :
    StandsApart (trim s) (before ++ (s ++ after)) := by
  obtain ⟨ends, hends, hsplit⟩ := exists_trimEnd_append (trimStart s)
  refine ⟨before ++ s.takeWhile isBlank, ends ++ after, ?_,
    isMasking_of_getLast? (forall_mem_takeWhile _ _) hbefore, isMasking_of_head? hends hafter⟩
  have hstart : s.takeWhile isBlank ++ trimStart s = s := List.takeWhile_append_dropWhile
  conv_lhs => rw [← hstart, hsplit]
  simp only [List.append_assoc, trim]

theorem isUnmasked_of_forall {p : Char → Bool} {s : Text} (hopen : p openMark = false)
    (hclose : p closeMark = false) (h : ∀ c ∈ s, p c = true) :
    IsUnmasked s := by
  refine ⟨fun hmem => ?_, fun hmem => ?_⟩
  · rw [h _ hmem] at hopen
    cases hopen
  · rw [h _ hmem] at hclose
    cases hclose

variable {previous : Option Char} {site : Site} {verdict : Verdict}

theorem isApart_dataview (h : (dataview .standard today).judge previous site = .ok (some verdict)) :
    verdict.token.IsApart := by
  obtain ⟨key, value, hfield, -, -, -, rfl⟩ := judge_dataview_eq_some_iff.1 h
  obtain ⟨-, -, ⟨more, hmore⟩⟩ := inlineField?_eq_some_iff.1 hfield
  have hvalue : site.mark = ('[' :: key ++ "::".toList) ++
      (value ++ ']' :: more) := by rw [← hmore]; simp [fieldText]
  have hkey : site.mark = ['['] ++
      (key ++ (':' :: ':' :: value ++ ']' :: more)) := by rw [← hmore]; simp [fieldText]
  refine ⟨.inr ?_, fun own hown => ?_⟩
  · show StandsApart (trim value) site.mark
    rw [hvalue]
    refine standsApart_trim (fun c hc => ?_) (by rintro c ⟨⟩; decide)
    rw [List.getLast?_append_of_ne_nil _ (by simp)] at hc
    obtain rfl : ':' = c := Option.some.inj hc
    decide
  · show StandsApart own site.mark
    rw [← inlineSlot_eq_custom hown, hkey]
    exact standsApart_trim (by rintro c ⟨⟩; decide) (by rintro c ⟨⟩; decide)

theorem isApart_emoji (hmarks : (emoji .standard today).Marks site)
    (h : (emoji .standard today).judge previous site = .ok (some verdict)) :
    verdict.token.IsApart := by
  obtain ⟨before, n, hlength, hmark⟩ := hmarks
  obtain ⟨c, selector, hsplit, hsign, hselector⟩ :=
    @mark_of_symbolLength? before site n hlength hmark
  obtain ⟨symbol, field, hsymbol, hfield, -, -, rfl⟩ := judge_emoji_eq_some_iff.1 h
  rw [hsplit, List.singleton_append, symbol?_cons, if_pos hsign] at hsymbol
  obtain rfl := Option.some.inj hsymbol
  have hsolid : isMasking c = false := isMasking_of_isSign (by simp [isSign, hsign])
  have hlast : ∀ d, site.mark.getLast? = some d → isMasking d = false := by
    rw [hsplit]
    rcases hselector with rfl | rfl
    · rintro d ⟨⟩
      exact hsolid
    · intro d hd
      obtain rfl : Priority.variationSelector = d := by simpa using hd
      decide
  refine ⟨?_, by rintro own ⟨⟩⟩
  rcases field_of_lookup hfield with rfl | rfl | ⟨kind, rfl⟩
  · left
    show IsUnmasked ((levelWord? site.after).getD ([c], site.after)).1
    cases hword : levelWord? site.after with
    | none =>
      exact isUnmasked_of_forall (p := fun d => !isMasking d) (by decide)
        (by decide) (by simpa using hsolid)
    | some found =>
      obtain ⟨word, behind⟩ := found
      simp only [levelWord?, Option.ite_none_right_eq_some, Option.some.injEq, Prod.mk.injEq] at hword
      obtain ⟨-, rfl, -⟩ := hword
      exact isUnmasked_of_forall (by decide) (by decide) (forall_mem_takeWhile Char.isAlpha _)
  · right
    have htake :=
      take_length_sub (phrase (plainSymbols .standard) (lastOr previous site.mark) site.after).1
      (phrase (plainSymbols .standard) (lastOr previous site.mark) site.after).2
    rw [phrase_eq] at htake
    have hpart :=
      @standsApart_trim site.mark
        (phrase (plainSymbols .standard) (lastOr previous site.mark) site.after).1 [] hlast
          (by rintro d ⟨⟩)
    rw [List.append_nil] at hpart
    show StandsApart _
      (site.mark ++
        site.after.take
          (site.after.length -
            (phrase (plainSymbols .standard) (lastOr previous site.mark) site.after).2.length))
    rw [htake]
    exact hpart
  · right
    have htake :=
      take_length_sub (site.after.takeWhile isBlank ++ (dateWord site.after).1)
        (dateWord site.after).2
    rw [← (dateWord_eq site.after).1] at htake
    refine ⟨site.mark ++ site.after.takeWhile isBlank, [], ?_,
      isMasking_of_getLast? (forall_mem_takeWhile _ _) hlast, by rintro d ⟨⟩⟩
    show site.mark ++ site.after.take (site.after.length - (dateWord site.after).2.length) = _
    rw [htake, ← List.append_assoc, List.append_nil]
    rfl

theorem isUnmasked_of_isTagBody {s : Text} (h : ∀ c ∈ s, isTagBody c = true) : IsUnmasked s :=
  isUnmasked_of_forall (by decide +kernel) (by decide +kernel) h

theorem isApart_tags (hmarks : (tags .standard).Marks site)
    (h : (tags .standard).judge previous site = .ok (some verdict)) : verdict.token.IsApart := by
  obtain ⟨hne, hbody⟩ := isTagBody_of_marks hmarks
  simp only [tags] at h
  rcases hmeaning : tagMeaning .standard (site.mark.drop 1) with ⟨slot, value, repeats⟩
  rw [hmeaning] at h
  cases h
  obtain ⟨⟨field, rfl⟩, -, hvalue⟩ := tagMeaning_eq hmeaning hne
  exact ⟨.inl (isUnmasked_of_isTagBody fun c hc => hbody c (hvalue c hc)), by rintro own ⟨⟩⟩

theorem isApart_contexts (hmarks : contexts.Marks site)
    (h : contexts.judge previous site = .ok (some verdict)) : verdict.token.IsApart := by
  obtain ⟨before, n, hlength, hmark⟩ := hmarks
  obtain ⟨name, hname, rfl⟩ :=
    Option.map_eq_some_iff.1
      (show (contextText? before (site.mark ++ site.after)).map (·.length + 1) =
        some n from hlength)
  obtain ⟨hraw, hbody, -⟩ := mark_of_signed? hname hmark
  cases h
  refine ⟨.inl ?_, by rintro own ⟨⟩⟩
  show IsUnmasked (site.mark.drop 1)
  rw [hraw]
  exact isUnmasked_of_forall (p := isContextBody) (by decide +kernel) (by decide +kernel) hbody

theorem isApart_of_judge {kind : TokenKind} (hmarks : (grammarOf .standard today kind).Marks site)
    (h : (grammarOf .standard today kind).judge previous site = .ok (some verdict)) :
    verdict.token.IsApart := by
  cases kind with
  | dataview => exact isApart_dataview h
  | emoji => exact isApart_emoji hmarks h
  | tag => exact isApart_tags hmarks h
  | context => exact isApart_contexts hmarks h

/-! ## What is put back -/

theorem IsRestorable.of_within {s t : Text} (h : IsRestorable store t) (hwithin : s <:+: t) :
    IsRestorable store s :=
  fun hstore digits hne hall hoccurs => h hstore digits hne hall (hoccurs.trans hwithin)

theorem StandsApart.within {part whole : Text} (h : StandsApart part whole) : part <:+: whole := by
  obtain ⟨before, after, rfl, -, -⟩ := h
  exact ⟨before, after, List.append_assoc _ _ _⟩

theorem chars_within {inner : List Piece} (h : inner <:+: parts) :
    chars inner <:+: chars parts := by
  obtain ⟨before, after, rfl⟩ := h
  rw [chars_append, chars_append]
  exact ⟨chars before, chars after, rfl⟩

theorem StandsApart.restore {part whole written result : Text} (h : StandsApart part whole)
    (hmasks : Masks store parts whole)
    (hparts : ∀ piece ∈ parts, IsUnmasked piece.chars) (hwhole : restore store whole = .ok written)
    (hpart : restore store part = .ok result) :
    IsUnmasked result ∧ result <:+: written := by
  obtain ⟨inner, hinner, hmasked⟩ := hmasks.part h
  rw [hmasked.eq_of_restore hpart, hmasks.eq_of_restore hwhole]
  exact ⟨isUnmasked_chars fun piece hpiece => hparts piece (hinner.subset hpiece), chars_within hinner⟩

/-- What is said of a token with its spans put back, by what it was written as. -/
structure Token.IsRead (store : List Text) (token : Token) : Prop where
  value : Markup.IsUnmasked token.value
  raw : Markup.IsUnmasked token.raw
  custom : ∀ key, token.slot = .custom key → ∃ own, Markup.restore store key = .ok own ∧
    own <:+: token.raw

theorem Token.IsApart.isRead {masked token : Token} (h : masked.IsApart)
    (hmasks : Masks store parts masked.raw)
    (hparts : ∀ piece ∈ parts, Markup.IsUnmasked piece.chars)
    (hrestore : masked.restore store = .ok token) : token.IsRead store := by
  obtain ⟨value, raw, hvalue, hraw, rfl⟩ := Markup.Token.restore_eq_ok_iff.1 hrestore
  refine ⟨?_, ?_, fun key hkey => ?_⟩
  · show Markup.IsUnmasked value
    rcases h.value with hplain | hapart
    · rw [restore_of_notMem hplain.1] at hvalue
      exact Except.ok.inj hvalue ▸ hplain
    · exact (hapart.restore hmasks hparts hraw hvalue).1
  · show Markup.IsUnmasked raw
    rw [hmasks.eq_of_restore hraw]
    exact isUnmasked_chars hparts
  · have hapart := h.custom key hkey
    obtain ⟨own, hown⟩ :=
      restore_isOk_iff.2 ((restore_isOk_iff.1 ⟨raw, hraw⟩).of_within hapart.within)
    exact ⟨own, hown, (hapart.restore hmasks hparts hraw hown).2⟩

theorem Token.IsRead.isUnmasked_key_iff {token : Token} (h : token.IsRead store) {key : Text}
    (hkey : token.slot = .custom key) :
    Markup.IsUnmasked key ↔ key <:+: token.raw := by
  constructor
  · intro hplain
    obtain ⟨own, hown, hwithin⟩ := h.custom key hkey
    rw [restore_of_notMem hplain.1] at hown
    exact Except.ok.inj hown ▸ hwithin
  · exact fun hwithin =>
      ⟨fun hmem => h.raw.1 (hwithin.subset hmem), fun hmem => h.raw.2 (hwithin.subset hmem)⟩

/-! ## Lines -/

variable {content : Text} {extraction : Extraction}

theorem isRead_of_extract (hcontent : IsUnmasked content)
    (h : extract .standard today content = .ok extraction) :
    IsUnmasked extraction.content ∧ ∀ token ∈ extraction.tokens,
      token.IsRead (protect content).store := by
  obtain ⟨consumed, text, tokens, hconsumed, htext, htokens, rfl⟩ := exists_of_extract h
  obtain ⟨last, hstages, hlast⟩ := exists_stages_of_consumeAll rfl (.ofContent hcontent.1) hconsumed
  obtain ⟨hleft, hwritten⟩ := hstages.forall_part (P := fun part => IsUnmasked part.chars)
    isUnmasked_space (isUnmasked_of_mem_pieces hcontent)
  constructor
  · show IsUnmasked text
    rw [← hlast] at htext
    rw [last.masks.tidy.eq_of_restore htext]
    refine isUnmasked_chars fun part hpart => ?_
    rcases mem_of_mem_tidy hpart with hpart | rfl
    · exact hleft part hpart
    · exact isUnmasked_space
  · intro token htoken
    obtain ⟨masked, hmasked, hrestore⟩ :=
      Result.exists_left_of_mem (Result.mapM_eq_ok.1 htokens) htoken
    obtain ⟨parts, hmasks, hparts⟩ := hwritten masked hmasked
    exact (forall_mem_consumeAll_of_marks (List.forall_mem_map.2 fun _ _ _ _ _ => isApart_of_judge)
      hconsumed masked hmasked).isRead hmasks hparts hrestore

theorem Extraction.isUnmasked_of_tokens {settings : Settings}
    (h : extract settings today content = .ok extraction) {isKey : Text → Prop}
    (hcontent : Markup.IsUnmasked extraction.content)
    (htokens : ∀ token ∈ extraction.tokens, Markup.IsUnmasked token.value ∧
      Markup.IsUnmasked token.raw)
    (hkeys : ∀ token ∈ extraction.tokens, ∀ key, token.slot = .custom key → isKey key) :
    extraction.IsUnmasked isKey := by
  have hranked := isRanked_of_extract h
  refine ⟨hcontent, fun entry hentry => ?_, fun entry hentry => ?_, fun tag htag => ?_,
    fun token htoken => ?_, htokens⟩
  · obtain ⟨-, token, hforemost, -, hvalue⟩ :=
      (hranked.mem_entries_iff _ _).1 (Extraction.field_mem_entries.2 hentry)
    exact ⟨isUnmasked_name _, hvalue ▸ (htokens token hforemost.mem).1⟩
  · obtain ⟨-, token, hforemost, hslot, hvalue⟩ :=
      (hranked.mem_entries_iff _ _).1 (Extraction.custom_mem_entries.2 hentry)
    exact ⟨hkeys token hforemost.mem _ hslot, hvalue ▸ (htokens token hforemost.mem).1⟩
  · obtain ⟨token, htoken, rfl⟩ := List.mem_map.1 ((hranked.tags.mem_iff tag).1 htag)
    exact (htokens token (List.mem_of_mem_filter htoken)).1
  · cases hslot : token.slot with
    | field field => exact isUnmasked_name field
    | custom key => exact hkeys token htoken key hslot

/-- Where the content of a line holds no character of a placeholder, neither does anything that is
read from it but the keys of inline fields: spans are put back in the content, in values, in tags
and in what tokens were written as. A key stands for part of what its token was written as, and all
that is read is without placeholders exactly if every key is such a part itself. -/
theorem isUnmasked_iff (hopen : openMark ∉ content) (hclose : closeMark ∉ content)
    (h : extract .standard today content = .ok extraction) :
    extraction.IsUnmasked (fun _ => True) ∧
      (∀ token ∈ extraction.tokens, ∀ key, token.slot = .custom key →
        ∃ written, restore (protect content).store key = .ok written ∧ written <:+: token.raw) ∧
      (extraction.IsUnmasked IsUnmasked ↔ ∀ token ∈ extraction.tokens, ∀ key,
        token.slot = .custom key → key <:+: token.raw) := by
  obtain ⟨hcontent, hread⟩ := isRead_of_extract ⟨hopen, hclose⟩ h
  have htokens : ∀ token ∈ extraction.tokens, IsUnmasked token.value ∧ IsUnmasked token.raw :=
    fun token htoken => ⟨(hread token htoken).value, (hread token htoken).raw⟩
  refine ⟨Extraction.isUnmasked_of_tokens h hcontent htokens fun _ _ _ _ => trivial,
    fun token htoken => (hread token htoken).custom, ?_⟩
  constructor
  · intro hall token htoken key hkey
    have hslot := hall.slots token htoken
    rw [hkey] at hslot
    exact ((hread token htoken).isUnmasked_key_iff hkey).1 hslot
  · intro hkeys
    exact Extraction.isUnmasked_of_tokens h hcontent htokens fun token htoken key hkey =>
      ((hread token htoken).isUnmasked_key_iff hkey).2 (hkeys token htoken key hkey)

/-- A line with code in its text, in a value and in a tag's neighbourhood. -/
def spanned : Text :=
  "Read `a` [see:: [[B]]] 🔁 after `c` #home".toList

/-- No key of the line stands for a span. -/
theorem isUnmasked_spanned : ∃ extraction,
    extract .standard ⟨2024, 3, 13, rfl⟩ spanned = .ok extraction ∧ extraction.tokens.length = 3 ∧
    extraction.IsUnmasked IsUnmasked := by
  have hread : ((extract .standard ⟨2024, 3, 13, rfl⟩ spanned).map fun extraction =>
      (extraction.tokens.length, extraction.tokens.all fun token => match token.slot with
        | .field _ => true
        | .custom key => decide (key <:+: token.raw))).toOption = some (3, true) := by
    decide +kernel
  obtain ⟨extraction, hextraction, hresult⟩ := Result.exists_of_map hread
  obtain ⟨hcount, hkeys⟩ := Prod.mk.inj hresult
  refine ⟨extraction, hextraction, hcount,
    (isUnmasked_iff (by decide +kernel) (by decide +kernel) hextraction).2.2.2 ?_⟩
  intro token htoken key hkey
  have hwithin := List.all_eq_true.1 hkeys token htoken
  rw [hkey] at hwithin
  exact of_decide_eq_true hwithin

/-- The key of an inline field may keep the placeholder of the code that it was written as. -/
theorem not_isUnmasked_of_code_key : ¬∀ (today : Date) (content : Text) (extraction : Extraction),
    openMark ∉ content → closeMark ∉ content →
    extract .standard today content = .ok extraction → extraction.IsUnmasked IsUnmasked := by
  intro hall
  have hread :
      ((extract .standard ⟨2024, 3, 13, rfl⟩ "[`a`:: b]".toList).map Extraction.custom).toOption =
      some [(placeholder 0, ['b'])] := by
    decide +kernel
  obtain ⟨extraction, hextraction, hcustom⟩ := Result.exists_of_map hread
  have hclean := hall _ _ extraction (by decide +kernel) (by decide +kernel) hextraction
  have hentry : (placeholder 0, ['b']) ∈ extraction.custom := hcustom ▸ List.mem_singleton_self _
  exact absurd (hclean.custom _ hentry).1.1 (by decide)

end Checklist.Markup
