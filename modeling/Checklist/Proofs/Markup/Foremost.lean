import Checklist.Proofs.Markup.Reading
import Checklist.Proofs.Markup.Winners
import Checklist.Proofs.Markup.Consume

/-! # Which token counts

Inline fields outrank emoji, and emoji outrank tags and contexts. Main statements: the tokens that
count are the first ones of the highest rank for their slots (`mem_winners_iff`), tags come in the
order in which they were first written (`areFirsts_tagValues`), and what an inline field says is
said whatever other grammars read the line (`entries_of_dataview`). -/

namespace Checklist.Markup
set_option autoImplicit false
open Text

variable {tokens others : List Token} {token last : Token}

/-! ## The first token of the highest rank -/

/-- Of the tokens for its slot none ranks higher, and none before it ranks as high. -/
def IsForemost (tokens : List Token) (token : Token) : Prop :=
  ∃ before after, tokens = before ++ token :: after ∧
    (∀ other ∈ before, other.slot = token.slot → other.kind.rank < token.kind.rank) ∧
    ∀ other ∈ after, other.slot = token.slot → other.kind.rank ≤ token.kind.rank

theorem IsForemost.mem (h : IsForemost tokens token) : token ∈ tokens := by
  obtain ⟨before, after, rfl, -⟩ := h
  simp

theorem IsForemost.rank_le (h : IsForemost tokens token) {other : Token} (hother : other ∈ tokens)
    (hslot : other.slot = token.slot) :
    other.kind.rank ≤ token.kind.rank := by
  obtain ⟨before, after, rfl, hbefore, hafter⟩ := h
  rcases List.mem_append.1 hother with hmem | hmem
  · exact Nat.le_of_lt (hbefore other hmem hslot)
  · rcases List.mem_cons.1 hmem with rfl | hmem
    · exact Nat.le_refl _
    · exact hafter other hmem hslot

theorem IsForemost.append (h : IsForemost tokens token)
    (hothers : ∀ other ∈ others, other.slot = token.slot → other.kind.rank ≤ token.kind.rank) :
    IsForemost (tokens ++ others) token := by
  obtain ⟨before, after, rfl, hbefore, hafter⟩ := h
  refine ⟨before, after ++ others, by simp, hbefore, fun other hother => ?_⟩
  exact (List.mem_append.1 hother).elim (hafter other) (hothers other)

theorem isForemost_concat : IsForemost (tokens ++ [last]) token ↔
    (IsForemost tokens token ∧ (last.slot = token.slot → last.kind.rank ≤ token.kind.rank)) ∨
      (token = last ∧ ∀ other ∈ tokens, other.slot = last.slot → other.kind.rank < last.kind.rank) := by
  constructor
  · rintro ⟨before, after, hsplit, hbefore, hafter⟩
    rcases List.eq_nil_or_concat after with rfl | ⟨after, other, rfl⟩
    · obtain ⟨rfl, hlast⟩ := List.append_inj' hsplit rfl
      obtain rfl := List.singleton_inj.1 hlast
      exact .inr ⟨rfl, hbefore⟩
    · rw [List.concat_eq_append, ← List.cons_append, ← List.append_assoc] at hsplit
      obtain ⟨rfl, hlast⟩ := List.append_inj' hsplit rfl
      obtain rfl := List.singleton_inj.1 hlast
      refine .inl ⟨⟨before, after, rfl, hbefore, fun other hother => hafter other ?_⟩,
        hafter last ?_⟩ <;> simp [*]
  · rintro (⟨hforemost, hlast⟩ | ⟨rfl, hbefore⟩)
    · exact hforemost.append fun other hother => by
        obtain rfl := List.mem_singleton.1 hother
        exact hlast
    · exact ⟨tokens, [], rfl, hbefore, nofun⟩

theorem IsForemost.exists_concat (h : IsForemost tokens token) (last : Token) :
    ∃ winner, IsForemost (tokens ++ [last]) winner ∧ winner.slot = token.slot := by
  by_cases hlast : last.slot = token.slot ∧ token.kind.rank < last.kind.rank
  · obtain ⟨hslot, hrank⟩ := hlast
    refine ⟨last, isForemost_concat.2 (.inr ⟨rfl, fun other hother hsame => ?_⟩), hslot⟩
    exact Nat.lt_of_le_of_lt (h.rank_le hother (hsame.trans hslot)) hrank
  · rw [not_and, Nat.not_lt] at hlast
    exact ⟨token, isForemost_concat.2 (.inl ⟨h, hlast⟩), rfl⟩

theorem exists_isForemost {slot : Slot} (h : ∃ token ∈ tokens, token.slot = slot) :
    ∃ winner, IsForemost tokens winner ∧ winner.slot = slot := by
  induction tokens using List.reverseRecOn with
  | nil => simp at h
  | append_singleton tokens last ih =>
    by_cases hearlier : ∃ token ∈ tokens, token.slot = slot
    · obtain ⟨winner, hwinner, rfl⟩ := ih hearlier
      exact hwinner.exists_concat last
    · obtain ⟨token, htoken, rfl⟩ := h
      have hlast : token = last := by
        rcases List.mem_append.1 htoken with hmem | hmem
        · exact absurd ⟨token, hmem, rfl⟩ hearlier
        · exact List.mem_singleton.1 hmem
      refine ⟨last, isForemost_concat.2 (.inr ⟨rfl, fun other hother hslot => ?_⟩), by rw [hlast]⟩
      exact absurd ⟨other, hother, by rw [hslot, hlast]⟩ hearlier

/-! ## The tokens that count -/

theorem mem_fileToken_iff {filed : List Token} (hnodup : (filed.map Token.slot).Nodup) :
    token ∈ fileToken filed last ↔
    (token ∈ filed ∧ (last.slot = token.slot → last.kind.rank ≤ token.kind.rank)) ∨
      (token = last ∧ ∀ other ∈ filed, other.slot = last.slot → other.kind.rank < last.kind.rank) := by
  unfold fileToken
  cases hfind : filed.find? fun winner => winner.slot == last.slot with
  | none =>
    have hnew : ∀ other ∈ filed, other.slot ≠ last.slot := by simpa using hfind
    rw [List.mem_append, List.mem_singleton]
    refine or_congr (iff_self_and.2 fun hmem hslot => absurd hslot.symm (hnew token hmem))
      (iff_self_and.2 fun _ other hother hslot => ?_)
    exact absurd hslot (hnew other hother)
  | some winner =>
    have hslot : winner.slot = last.slot := by simpa using List.find?_some hfind
    have hmem := List.mem_of_find?_eq_some hfind
    have hunique : ∀ other ∈ filed, other.slot = last.slot → other = winner :=
      fun other hother hsame =>
        List.inj_on_of_nodup_map hnodup hother hmem (hsame.trans hslot.symm)
    simp only
    split
    · rename_i hrank
      have hbeaten : ∀ other ∈ filed, other.slot = last.slot → other.kind.rank < last.kind.rank :=
        fun other hother hsame => hunique other hother hsame ▸ hrank
      rw [List.mem_map]
      constructor
      · rintro ⟨other, hother, rfl⟩
        split
        · exact .inr ⟨rfl, hbeaten⟩
        · rename_i hne
          exact .inl ⟨hother, fun hsame => absurd hsame.symm (by simpa using hne)⟩
      · rintro (⟨htoken, hlast⟩ | ⟨rfl, -⟩)
        · refine ⟨token, htoken, if_neg fun hsame => ?_⟩
          rw [beq_iff_eq] at hsame
          exact absurd (hbeaten token htoken hsame) (Nat.not_lt.2 (hlast hsame.symm))
        · exact ⟨winner, hmem, if_pos (by simpa using hslot)⟩
    · rename_i hrank
      constructor
      · exact fun htoken =>
          .inl ⟨htoken, fun hsame => hunique token htoken hsame.symm ▸ Nat.not_lt.1 hrank⟩
      · rintro (⟨htoken, -⟩ | ⟨rfl, hbeaten⟩)
        · exact htoken
        · exact absurd (hbeaten winner hmem hslot) hrank

theorem winners_concat : winners (tokens ++ [last]) = if last.slot = .field .tags then
    winners tokens else fileToken (winners tokens) last := by
  unfold winners
  rw [List.filter_append]
  by_cases hslot : last.slot = .field .tags
  · simp [hslot]
  · rw [List.filter_cons_of_pos (by simpa using hslot), List.foldl_append, if_neg hslot]
    rfl

/-- The tokens that count are the first ones of the highest rank for their slots. -/
theorem mem_winners_iff : token ∈ winners tokens ↔ token.slot ≠ .field .tags ∧
    IsForemost tokens token := by
  induction tokens using List.reverseRecOn generalizing token with
  | nil => simp [winners, IsForemost]
  | append_singleton tokens last ih =>
    rw [winners_concat, isForemost_concat]
    by_cases htags : last.slot = .field .tags
    · rw [if_pos htags, ih]
      refine and_congr_right fun hslot => ?_
      have hother : last.slot ≠ token.slot := fun hsame => hslot (hsame.symm.trans htags)
      have hnotLast : token ≠ last := fun heq => hother (by rw [heq])
      simp [hother, hnotLast]
    · have hbeaten :
          (∀ other ∈ winners tokens, other.slot = last.slot → other.kind.rank < last.kind.rank) ↔
          ∀ other ∈ tokens, other.slot = last.slot → other.kind.rank < last.kind.rank := by
        constructor
        · intro h other hother hslot
          obtain ⟨winner, hwinner, hsame⟩ := exists_isForemost ⟨other, hother, hslot⟩
          have hcounts := ih.2 ⟨fun heq => htags (hsame.symm.trans heq), hwinner⟩
          exact (hwinner.rank_le hother (hslot.trans hsame.symm)).trans_lt (h winner hcounts hsame)
        · exact fun h other hother => h other (ih.1 hother).2.mem
      rw [if_neg htags, mem_fileToken_iff (nodup_winners tokens), ih, hbeaten]
      constructor
      · rintro (⟨⟨hslot, hforemost⟩, hlast⟩ | ⟨rfl, h⟩)
        · exact ⟨hslot, .inl ⟨hforemost, hlast⟩⟩
        · exact ⟨htags, .inr ⟨rfl, h⟩⟩
      · rintro ⟨hslot, ⟨hforemost, hlast⟩ | h⟩
        · exact .inl ⟨⟨hslot, hforemost⟩, hlast⟩
        · exact .inr h

/-! ## What a line says under its slots -/

/-- What a line says under fields and keys: each slot with its value. -/
def Extraction.entries (extraction : Extraction) : List (Slot × Text) :=
  extraction.fields.map (fun entry => (.field entry.1, entry.2)) ++ extraction.custom.map
    fun entry => (.custom entry.1, entry.2)

theorem Extraction.field_mem_entries {extraction : Extraction} {field : Field} {value : Text} :
    (.field field, value) ∈ extraction.entries ↔ (field, value) ∈ extraction.fields := by
  simp [entries]

theorem Extraction.custom_mem_entries {extraction : Extraction} {key value : Text} :
    (.custom key, value) ∈ extraction.entries ↔ (key, value) ∈ extraction.custom := by
  simp [entries]

/-- The slots and values of tokens, fields before keys of the author's own. -/
def slotValues (tokens : List Token) : List (Slot × Text) :=
  (fieldValues tokens).map (fun entry => (.field entry.1, entry.2)) ++ (customValues tokens).map
    fun entry => (.custom entry.1, entry.2)

theorem mem_slotValues_iff {slot : Slot} {value : Text} : (slot, value) ∈ slotValues tokens ↔
    ∃ token ∈ tokens, token.slot = slot ∧ token.value = value := by
  cases slot with
  | field field => simp [slotValues, mem_fieldValues_iff]
  | custom key => simp [slotValues, mem_customValues_iff]

theorem nodup_slotValues (tokens : List Token) :
    ((slotValues (winners tokens)).map (·.1)).Nodup := by
  have hfields : ((fieldValues (winners tokens)).map fun entry => Slot.field entry.1).Nodup :=
    (nodup_winners tokens).sublist (slots_fieldValues _)
  have hkeys : ((customValues (winners tokens)).map fun entry => Slot.custom entry.1).Nodup :=
    (nodup_winners tokens).sublist (slots_customValues _)
  rw [slotValues, List.map_append, List.map_map, List.map_map]
  refine List.nodup_append.2 ⟨hfields, hkeys, fun slot hslot other hother heq => ?_⟩
  obtain ⟨_, -, rfl⟩ := List.mem_map.1 hslot
  obtain ⟨_, -, rfl⟩ := List.mem_map.1 hother
  cases heq

/-! ## Tags in their order -/

/-- Values without repetition, in the order in which they came first. -/
structure AreFirsts (values firsts : List Text) : Prop where
  nodup : firsts.Nodup
  mem_iff : ∀ value, value ∈ firsts ↔ value ∈ values
  order : firsts.Pairwise fun earlier later => values.idxOf earlier < values.idxOf later

theorem areFirsts_eraseDups (values : List Text) : AreFirsts values values.eraseDups := by
  refine ⟨nodup_eraseDups values, fun value => List.mem_eraseDups, ?_⟩
  induction values using List.reverseRecOn with
  | nil => exact .nil
  | append_singleton values last ih =>
    have hfront : values.eraseDups.Pairwise fun earlier later =>
        (values ++ [last]).idxOf earlier < (values ++ [last]).idxOf later := by
      refine ih.imp_of_mem fun {earlier later} hearlier hlater hlt => ?_
      rwa [List.idxOf_append_of_mem (List.mem_eraseDups.1 hearlier),
        List.idxOf_append_of_mem (List.mem_eraseDups.1 hlater)]
    rw [List.eraseDups_append]
    by_cases hmem : last ∈ values
    · simpa [List.removeAll, hmem] using hfront
    · have hlast : [last].removeAll values = [last] := by simp [List.removeAll, hmem]
      rw [hlast]
      refine List.pairwise_append.2 ⟨hfront, List.pairwise_singleton _ _,
        fun earlier hearlier later hlater => ?_⟩
      obtain rfl : later = last := by simpa using hlater
      have hearlier := List.mem_eraseDups.1 hearlier
      rw [List.idxOf_append_of_mem hearlier, List.idxOf_append_of_notMem hmem]
      exact Nat.lt_add_right _ (List.idxOf_lt_length_iff.2 hearlier)

/-! ## Kinds and names of tokens -/

variable {settings : Settings} {today : Date} {content : Text} {extraction : Extraction}

/-- The slot is the one that its name stands for. -/
def IsNamed (slot : Slot) : Prop :=
  Slot.ofName slot.name = slot

theorem isNamed_field (field : Field) : IsNamed (.field field) := by
  rw [IsNamed, Slot.ofName, Slot.name, Field.ofName?_name]

theorem isNamed_ofName (s : Text) : IsNamed (.ofName s) := by
  rw [IsNamed, Slot.name_ofName]

theorem isNamed_inlineSlot (key : Text) : IsNamed (inlineSlot settings key) := by
  unfold inlineSlot
  split
  · exact isNamed_field _
  · exact isNamed_ofName _
  · exact isNamed_ofName _

theorem isNamed_tagMeaning (tag : Text) : IsNamed (tagMeaning settings tag).1 := by
  unfold tagMeaning
  split
  · split
    · split
      · exact isNamed_field _
      · exact isNamed_ofName _
    · exact isNamed_field _
  · exact isNamed_field _

theorem token_of_judge (kind : TokenKind) {previous : Option Char} {site : Site} {verdict : Verdict}
    (h : (grammarOf settings today kind).judge previous site = .ok (some verdict)) :
    verdict.token.kind = kind ∧ IsNamed verdict.token.slot := by
  cases kind with
  | dataview =>
    simp only [grammarOf, dataview] at h
    split at h
    · cases h
    · split at h
      · cases h
      · obtain ⟨sense, -, h⟩ := Result.bind_eq_ok.1 h
        cases sense <;> cases h
        exact ⟨rfl, isNamed_inlineSlot _⟩
  | emoji =>
    simp only [grammarOf, emoji] at h
    split at h
    · cases h
    · split at h
      · cases h
      · split at h
        · cases h
        · obtain ⟨undated, -, h⟩ := Result.bind_eq_ok.1 h
          cases undated <;> cases h
          exact ⟨rfl, isNamed_field _⟩
  | tag =>
    cases h
    exact ⟨rfl, isNamed_tagMeaning _⟩
  | context =>
    cases h
    exact ⟨rfl, isNamed_field _⟩

abbrev AreRanked (tokens : List Token) : Prop :=
  tokens.Pairwise fun earlier later => later.kind.rank ≤ earlier.kind.rank

theorem token_of_consumeAll {kinds : List TokenKind} {budget : Nat} {s : Text} {consumed : Consumed}
    (h : consumeAll (kinds.map (grammarOf settings today)) budget s = .ok consumed) :
    ∀ token ∈ consumed.tokens.map (·.1), token.kind ∈ kinds ∧ IsNamed token.slot := by
  refine forall_mem_consumeAll_of_marks (List.forall_mem_map.2 fun kind hkind _ _ _ _ hverdict => ?_) h
  obtain ⟨hkind', hnamed⟩ := token_of_judge kind hverdict
  exact ⟨hkind' ▸ hkind, hnamed⟩

theorem areRanked_of_consumeAll {kinds : List TokenKind} {budget : Nat}
    {s : Text} {consumed : Consumed}
    (hkinds : kinds.Pairwise fun earlier later => later.rank ≤ earlier.rank)
    (h : consumeAll (kinds.map (grammarOf settings today)) budget s = .ok consumed) :
    AreRanked (consumed.tokens.map (·.1)) := by
  induction kinds generalizing budget s consumed with
  | nil =>
    cases h
    exact .nil
  | cons kind kinds ih =>
    obtain ⟨hkind, hkinds⟩ := List.pairwise_cons.1 hkinds
    obtain ⟨first, others, hfirst, hothers, rfl⟩ := consumeAll_cons_eq_ok_iff.1 h
    have htaken := forall_mem_firsts_of_marks (P := fun token => token.kind = kind)
      (fun _ _ _ _ hverdict => (token_of_judge kind hverdict).1) hfirst
    simp only [List.map_append, List.map_map, Function.comp_def, List.map_id']
    refine List.pairwise_append.2 ⟨?_, ih hkinds hothers, fun token htoken other hother => ?_⟩
    · exact List.pairwise_of_forall_mem_list
        fun token htoken other hother => by rw [htaken token htoken, htaken other hother]
    · rw [htaken token htoken]
      exact hkind _ (token_of_consumeAll hothers other hother).1

theorem areRanked_kinds (settings : Settings) : (kinds settings).Pairwise fun earlier later =>
    later.rank ≤ earlier.rank := by
  unfold kinds
  split <;> split <;> split <;> decide

theorem of_restore_eq_ok {store : List Text} {restored : Token}
    (h : token.restore store = .ok restored) :
    restored.kind = token.kind ∧ restored.slot = token.slot := by
  obtain ⟨value, raw, -, -, rfl⟩ := Token.restore_eq_ok_iff.1 h
  exact ⟨rfl, rfl⟩

/-! ## Lines -/

theorem exists_of_extract (h : extract settings today content = .ok extraction) :
    ∃ consumed text tokens,
    consumeAll ((kinds settings).map (grammarOf settings today)) settings.metadataLimit
      (protect content).text = .ok consumed ∧
      restore (protect content).store (squeeze consumed.text) = .ok text ∧
      (consumed.tokens.map (·.1)).mapM (Token.restore (protect content).store) = .ok tokens ∧
      extraction = ⟨text, fieldValues (winners tokens), customValues (winners tokens),
        tagValues tokens, tokens, consumed.exhausted⟩ := by
  rw [extract_eq_ok_iff, grammars_eq_map] at h
  obtain ⟨consumed, text, tokens, hconsumed, htext, htokens, rfl⟩ := h
  exact ⟨consumed, text, tokens, hconsumed, htext, htokens, rfl⟩

theorem token_of_extract (h : extract settings today content = .ok extraction) :
    ∀ token ∈ extraction.tokens, token.kind ∈ kinds settings ∧ IsNamed token.slot := by
  obtain ⟨consumed, text, tokens, hconsumed, -, htokens, rfl⟩ := exists_of_extract h
  intro token htoken
  obtain ⟨masked, hmasked, hrestore⟩ :=
    Result.exists_left_of_mem (Result.mapM_eq_ok.1 htokens) htoken
  obtain ⟨hkind, hslot⟩ := of_restore_eq_ok hrestore
  rw [hkind, hslot]
  exact token_of_consumeAll hconsumed masked hmasked

theorem entries_of_extract (h : extract settings today content = .ok extraction) :
    extraction.entries = slotValues (winners extraction.tokens) := by
  obtain ⟨consumed, text, tokens, -, -, -, rfl⟩ := exists_of_extract h
  rfl

/-- One value stands under each name for which there is a token, and it is that of the first token
of the highest rank; tags come without repetition in the order in which they were first written. -/
structure Extraction.IsRanked (extraction : Extraction) : Prop where
  names : (extraction.entries.map fun entry => entry.1.name).Nodup
  mem_entries_iff : ∀ slot value, (slot, value) ∈ extraction.entries ↔
    slot ≠ .field .tags ∧ ∃ token, IsForemost extraction.tokens token ∧
      token.slot = slot ∧ token.value = value
  exists_entry : ∀ token ∈ extraction.tokens, token.slot ≠ .field .tags → ∃ value,
    (token.slot, value) ∈ extraction.entries
  tags : AreFirsts ((extraction.tokens.filter (·.slot == .field .tags)).map Token.value) extraction.tags

theorem isRanked_of_extract (h : extract settings today content = .ok extraction) :
    extraction.IsRanked := by
  have hentries := entries_of_extract h
  have hmem : ∀ slot value, (slot, value) ∈ extraction.entries ↔
      slot ≠ .field .tags ∧ ∃ token, IsForemost extraction.tokens token ∧ token.slot = slot ∧
          token.value = value := by
    intro slot value
    rw [hentries, mem_slotValues_iff]
    constructor
    · rintro ⟨token, htoken, rfl, rfl⟩
      obtain ⟨hslot, hforemost⟩ := mem_winners_iff.1 htoken
      exact ⟨hslot, token, hforemost, rfl, rfl⟩
    · rintro ⟨hslot, token, hforemost, rfl, rfl⟩
      exact ⟨token, mem_winners_iff.2 ⟨hslot, hforemost⟩, rfl, rfl⟩
  refine ⟨?_, hmem, fun token htoken hslot => ?_, ?_⟩
  · -- a name stands for one slot
    have hnamed : ∀ slot ∈ extraction.entries.map Prod.fst, IsNamed slot := by
      intro slot hslot
      obtain ⟨⟨slot, value⟩, hentry, rfl⟩ := List.mem_map.1 hslot
      obtain ⟨-, token, hforemost, rfl, -⟩ := (hmem slot value).1 hentry
      exact (token_of_extract h token hforemost.mem).2
    have hnames : ((extraction.entries.map Prod.fst).map Slot.name).Nodup := by
      refine List.Nodup.map_on (fun slot hslot other hother hname => ?_) (hentries ▸ nodup_slotValues _)
      rw [← hnamed slot hslot, ← hnamed other hother, hname]
    rwa [List.map_map] at hnames
  · obtain ⟨winner, hwinner, hsame⟩ := exists_isForemost ⟨token, htoken, rfl⟩
    exact ⟨winner.value, (hmem _ _).2 ⟨hslot, winner, hwinner, hsame, rfl⟩⟩
  · obtain ⟨consumed, text, tokens, -, -, -, rfl⟩ := exists_of_extract h
    exact areFirsts_eraseDups _

/-! ## Inline fields whatever else is read -/

def inlineTokens (settings : Settings) (today : Date) (content : Text) :
    Except Failure (List Token) := do
  let consumed ← (dataview settings today).consume settings.metadataLimit none (protect content).text
  (firsts [] consumed.tokens).mapM (Token.restore (protect content).store)

/-- Where inline fields are read their tokens come first, and no other grammar has any
say in them. -/
theorem exists_inlineTokens {later : List TokenKind} (hkinds : kinds settings = .dataview :: later)
    (hlater : .dataview ∉ later) (h : extract settings today content = .ok extraction) :
    ∃ inline others, inlineTokens settings today content = .ok inline ∧
      extraction.tokens = inline ++ others ∧ (∀ token ∈ inline, token.kind = .dataview) ∧
        ∀ token ∈ others, token.kind ≠ .dataview := by
  obtain ⟨consumed, text, tokens, hconsumed, -, htokens, rfl⟩ := exists_of_extract h
  rw [hkinds] at hconsumed
  obtain ⟨first, hfirst, hconsumed⟩ := Result.bind_eq_ok.1 hconsumed
  obtain ⟨rest, hrest, hconsumed⟩ := Result.bind_eq_ok.1 hconsumed
  cases hconsumed
  simp only [List.map_append, List.map_map, Function.comp_def, List.map_id'] at htokens
  rw [List.mapM_append] at htokens
  obtain ⟨inline, hinline, htokens⟩ := Result.bind_eq_ok.1 htokens
  obtain ⟨others, hothers, htokens⟩ := Result.bind_eq_ok.1 htokens
  cases htokens
  have htaken := forall_mem_firsts_of_marks (P := fun token => token.kind = .dataview)
    (fun _ _ _ _ hverdict => (token_of_judge .dataview hverdict).1) hfirst
  refine ⟨inline, others, Result.bind_eq_ok.2 ⟨first, hfirst, hinline⟩, rfl, fun token htoken => ?_,
    fun token htoken heq => ?_⟩
  · obtain ⟨masked, hmasked, hrestore⟩ :=
      Result.exists_left_of_mem (Result.mapM_eq_ok.1 hinline) htoken
    rw [(of_restore_eq_ok hrestore).1, htaken masked hmasked]
  · obtain ⟨masked, hmasked, hrestore⟩ :=
      Result.exists_left_of_mem (Result.mapM_eq_ok.1 hothers) htoken
    refine hlater ?_
    rw [← heq, (of_restore_eq_ok hrestore).1]
    exact (token_of_consumeAll hrest masked hmasked).1

theorem exists_entry_of_inlineTokens {inline : List Token}
    (hinline : ∀ token ∈ inline, token.kind = .dataview) (htoken : token ∈ inline)
    (htags : token.slot ≠ .field .tags) :
    ∃ value, ∀ (extraction : Extraction) (others : List Token), extraction.IsRanked →
      extraction.tokens = inline ++ others → (token.slot, value) ∈ extraction.entries := by
  obtain ⟨winner, hwinner, hslot⟩ := exists_isForemost ⟨token, htoken, rfl⟩
  refine ⟨winner.value, fun extraction others hranked htokens =>
    (hranked.mem_entries_iff _ _).2 ⟨htags, winner, ?_, hslot, rfl⟩⟩
  rw [htokens]
  refine hwinner.append fun other _ _ => ?_
  rw [hinline winner hwinner.mem]
  cases other.kind <;> decide

/-- What counts of a line. Fields and keys hold one value for each name that a token is for, that of
the first token of the highest rank; tags come once each in the order in which they were first
written; and what an inline field sets where emoji and inline fields are read has the same value
where emoji are not read. -/
theorem foremost_of_extract (h : extract settings today content = .ok extraction) :
    extraction.IsRanked ∧
    (settings.grammars = .both → ∀ only,
      extract { settings with grammars := .dataviewOnly } today content = .ok only →
      ∀ token ∈ extraction.tokens, token.kind = .dataview → token.slot ≠ .field .tags →
        ∃ value, (token.slot, value) ∈ extraction.entries ∧
          (token.slot, value) ∈ only.entries) := by
  have hranked := isRanked_of_extract h
  refine ⟨hranked, fun hboth only honly token htoken hkind htags => ?_⟩
  have hread : settings.readsMetadata = true := by
    have hmem := (token_of_extract h token htoken).1
    rw [hkind] at hmem
    by_contra hno
    simp [kinds, hno] at hmem
  have hlater : ∀ allowed : Grammars, allowed.allowsDataview = true → ∃ later : List TokenKind,
      kinds { settings with grammars := allowed } = .dataview :: later ∧ .dataview ∉ later := by
    intro allowed hallowed
    refine ⟨(if settings.readsMetadata && allowed.allowsEmoji then [.emoji] else []) ++
      if settings.readsTags then [.tag, .context] else [], ?_, ?_⟩
    · simp [kinds, hread, hallowed]
    · split <;> split <;> simp
  obtain ⟨later, hkinds, hnot⟩ := hlater settings.grammars (by rw [hboth]; rfl)
  obtain ⟨laterOnly, hkindsOnly, hnotOnly⟩ := hlater .dataviewOnly rfl
  obtain ⟨inline, others, hinline, htokens, hdataview, hothers⟩ := exists_inlineTokens hkinds hnot h
  obtain ⟨inlineOnly, othersOnly, hinlineOnly, htokensOnly, -, -⟩ :=
    exists_inlineTokens hkindsOnly hnotOnly honly
  obtain rfl : inline = inlineOnly := Except.ok.inj (hinline.symm.trans hinlineOnly)
  have hmem : token ∈ inline := by
    rw [htokens] at htoken
    exact (List.mem_append.1 htoken).resolve_right fun hother => hothers token hother hkind
  obtain ⟨value, hvalue⟩ := exists_entry_of_inlineTokens hdataview hmem htags
  exact ⟨value, hvalue extraction others hranked htokens,
    hvalue only othersOnly (isRanked_of_extract honly) htokensOnly⟩

/-- A line that gives a date in two grammars and twice in one, a project in two grammars, and
a tag twice. -/
def trip : Text :=
  "Pack #home 📅 2024-02-02 [due:: 2024-01-15] #project/tent [due:: 2024-03-03] [project:: sea] #travel @car #home".toList

theorem foremost_of_extract_trip : ∃ extraction only,
    extract {} ⟨2024, 3, 13, rfl⟩ trip = .ok extraction ∧
    extract { grammars := .dataviewOnly } ⟨2024, 3, 13, rfl⟩ trip = .ok only ∧ extraction.IsRanked ∧
      (∃ token ∈ extraction.tokens, token.kind = .dataview ∧ token.slot = .field (.date .due) ∧
        ∃ value, (token.slot, value) ∈ extraction.entries ∧
          (token.slot, value) ∈ only.entries) := by
  have hboth : ∃ extraction, extract {} ⟨2024, 3, 13, rfl⟩ trip = .ok extraction ∧
      (extraction.tokens.any fun token => token.kind == .dataview && token.slot ==
          .field (.date .due)) = true :=
    Result.exists_of_map (by decide +kernel)
  have honly : ∃ only, extract { grammars := .dataviewOnly } ⟨2024, 3, 13, rfl⟩ trip = .ok only ∧
      only.truncated = false :=
    Result.exists_of_map (by decide +kernel)
  obtain ⟨extraction, hextraction, hany⟩ := hboth
  obtain ⟨only, honly, -⟩ := honly
  obtain ⟨token, htoken, hfits⟩ := List.any_eq_true.1 hany
  obtain ⟨hkind, hslot⟩ : token.kind = .dataview ∧
    token.slot = .field (.date .due) := by simpa using hfits
  obtain ⟨hranked, hvalue⟩ := foremost_of_extract hextraction
  exact ⟨extraction, only, hextraction, honly, hranked, token, htoken, hkind, hslot,
    hvalue rfl only honly token htoken hkind (by rw [hslot]; decide)⟩

end Checklist.Markup
