import Checklist.Proofs.Markup.Recognition
import Checklist.Proofs.Markup.Sense
import Checklist.Proofs.Note.Completion
import Checklist.Proofs.Task.Rendered
import Checklist.Settings.Data

/-! # Markup is heeded

A mark for a date or the priority that is taken out of a line should set that field of the task.
Main statement: it does under all settings in which no tag fills such a field and every symbol for a
level names one, and of settings whose marks can be written in a line only under these
(`heedsMarkup_of_hasMeaningfulMarks`). -/

namespace Checklist
set_option autoImplicit false
open Text

/-! ## What is taken out of a line -/

namespace Markup

/-- Reading the content of a line takes the token out of it. -/
def Removes (settings : Settings) (today : Date) (content : Text) (token : Token) : Prop :=
  ∃ kind before mark verdict, Meets settings today (kinds settings) settings.metadataLimit
    (protect content).text kind before mark ∧
    (grammarOf settings today kind).judge before mark = .ok (some verdict) ∧ verdict.token = token

variable {settings : Settings} {today : Date} {kind : TokenKind} {before : Option Char}
  {mark : Site} {verdict : Verdict} {consumed : Consumed}

theorem Grammar.Meets.mem_of_consume {grammar : Grammar} {budget : Nat}
    {previous : Option Char} {s : Text} (hmeets : grammar.Meets budget previous s before mark)
    (hverdict : grammar.judge before mark = .ok (some verdict))
    (h : grammar.consume budget previous s = .ok consumed) :
    (verdict.token, verdict.repeats) ∈ consumed.tokens := by
  induction hmeets generalizing consumed with
  | first hsite =>
    obtain ⟨found, rest, hfound, -, rfl⟩ := (consume_succ_eq_ok_iff hsite).1 h
    obtain rfl : some verdict = found := Except.ok.inj (hverdict.symm.trans hfound)
    exact List.mem_cons_self
  | afterToken hsite hfirst _ ih =>
    obtain ⟨found, rest, hfound, hrest, rfl⟩ := (consume_succ_eq_ok_iff hsite).1 h
    obtain rfl := Except.ok.inj (hfirst.symm.trans hfound)
    exact List.mem_cons_of_mem _ (ih hverdict hrest)
  | afterMark hsite hfirst _ ih =>
    obtain ⟨found, rest, hfound, hrest, rfl⟩ := (consume_succ_eq_ok_iff hsite).1 h
    obtain rfl := Except.ok.inj (hfirst.symm.trans hfound)
    exact (ih hverdict hrest :)

theorem exists_mem_firsts {entries : List (Token × Bool)} {entry : Token × Bool}
    (h : entry ∈ entries) (seen : List Slot) :
    entry.1.slot ∈ seen ∨ ∃ token ∈ firsts seen entries, token.slot = entry.1.slot := by
  induction entries generalizing seen with
  | nil => cases h
  | cons first entries ih =>
    obtain ⟨token, repeats⟩ := first
    unfold firsts
    split
    · rcases List.mem_cons.1 h with rfl | h
      · exact .inr ⟨token, List.mem_cons_self, rfl⟩
      · rcases ih h seen with hseen | ⟨found, hfound, hslot⟩
        · exact .inl hseen
        · exact .inr ⟨found, List.mem_cons_of_mem _ hfound, hslot⟩
    · split
      · rename_i hseen
        rcases List.mem_cons.1 h with rfl | h
        · exact .inl (List.contains_iff_mem.1 hseen)
        · exact ih h seen
      · rcases List.mem_cons.1 h with rfl | h
        · exact .inr ⟨token, List.mem_cons_self, rfl⟩
        · rcases ih h (token.slot :: seen) with hseen | ⟨found, hfound, hslot⟩
          · rcases List.mem_cons.1 hseen with hsame | hseen
            · exact .inr ⟨token, List.mem_cons_self, hsame.symm⟩
            · exact .inl hseen
          · exact .inr ⟨found, List.mem_cons_of_mem _ hfound, hslot⟩

theorem Meets.exists_mem {kinds : List TokenKind} {budget : Nat} {s : Text}
    (hmeets : Meets settings today kinds budget s kind before mark)
    (hverdict : (grammarOf settings today kind).judge before mark = .ok (some verdict))
    (h : consumeAll (kinds.map (grammarOf settings today)) budget s = .ok consumed) :
    ∃ token ∈ consumed.tokens.map (·.1), token.slot = verdict.token.slot := by
  induction hmeets generalizing consumed with
  | now hmeets =>
    obtain ⟨first, others, hfirst, -, rfl⟩ := consumeAll_cons_eq_ok_iff.1 h
    have hfound := exists_mem_firsts (hmeets.mem_of_consume hverdict hfirst) []
    obtain ⟨token, htoken, hslot⟩ := hfound.resolve_left List.not_mem_nil
    exact ⟨token, by simpa using .inl htoken, hslot⟩
  | later hconsumed _ ih =>
    obtain ⟨first, others, hfirst, hothers, rfl⟩ := consumeAll_cons_eq_ok_iff.1 h
    obtain rfl := Except.ok.inj (hconsumed.symm.trans hfirst)
    obtain ⟨token, htoken, hslot⟩ := ih hverdict hothers
    refine ⟨token, ?_, hslot⟩
    rw [List.map_append]
    exact List.mem_append_right _ htoken

theorem Removes.exists_mem {content : Text} {token : Token} {extraction : Extraction}
    (h : Removes settings today content token)
    (hextract : extract settings today content = .ok extraction) :
    ∃ kept ∈ extraction.tokens, kept.slot = token.slot := by
  obtain ⟨kind, before, mark, verdict, hmeets, hverdict, rfl⟩ := h
  obtain ⟨consumed, text, tokens, hconsumed, -, htokens, rfl⟩ := exists_of_extract hextract
  obtain ⟨masked, hmasked, hslot⟩ := hmeets.exists_mem hverdict hconsumed
  obtain ⟨kept, hkept, hrestore⟩ := Result.exists_right_of_mem (Result.mapM_eq_ok.1 htokens) hmasked
  exact ⟨kept, hkept, (of_restore_eq_ok hrestore).2.trans hslot⟩

end Markup

/-! ## Fields that are set -/

namespace Note

variable {settings : Settings} {today : Date} {metadata result : Metadata}
  {field : Field} {raw : Text}

theorem has_of_isMeaningful (hmeaning : Markup.IsMeaningful today (.field field) raw)
    (htried : Markup.isTried field = true)
    (h : setField today metadata field raw = .ok result) : result.has field = true := by
  cases field with
  | date kind =>
    obtain ⟨timestamp, hresolve⟩ := hmeaning
    obtain ⟨found, hfound, h⟩ := Result.bind_eq_ok.1 h
    obtain rfl := Except.ok.inj (hresolve.symm.trans hfound)
    cases h
    rw [Metadata.has, Dates.get_set]
    rfl
  | priority =>
    obtain ⟨level, hresolve, -⟩ := hmeaning
    obtain ⟨found, hfound, h⟩ := Result.bind_eq_ok.1 h
    obtain rfl := Except.ok.inj (hresolve.symm.trans hfound)
    cases h
    rfl
  | project | context | area | recurrence | tags => cases htried

theorem has_of_setField {other : Field} (htried : Markup.isTried field = true)
    (hhas : metadata.has field = true)
    (h : setField today metadata other raw = .ok result) : result.has field = true := by
  by_cases hsame : field = other
  · subst hsame
    cases field with
    | date kind =>
      obtain ⟨found, -, h⟩ := Result.bind_eq_ok.1 h
      cases found <;> cases h
      · exact hhas
      · rw [Metadata.has, Dates.get_set]
        rfl
    | priority =>
      obtain ⟨found, -, h⟩ := Result.bind_eq_ok.1 h
      cases found <;> cases h
      · exact hhas
      · rfl
    | project | context | area | recurrence | tags => cases htried
  · have hkept : metadata.Agrees result field := by
      rw [(eq_copy_of_setField h).1]
      exact Metadata.agrees_copy_of_ne hsame
    rw [hkept.has_eq, hhas]

theorem has_of_foldlM {fields : List (Field × Text)} (htried : Markup.isTried field = true)
    (hhas : metadata.has field = true)
    (h : fields.foldlM (fun metadata (field, raw) => setField today metadata field raw) metadata =
      .ok result) : result.has field = true := by
  induction fields generalizing metadata with
  | nil =>
    cases h
    exact hhas
  | cons entry fields ih =>
    rw [List.foldlM_cons] at h
    obtain ⟨next, hnext, h⟩ := Result.bind_eq_ok.1 h
    exact ih (has_of_setField htried hhas hnext) h

theorem has_of_mem_fields {heading : Option Heading} {extraction : Markup.Extraction}
    (htried : Markup.isTried field = true) (hmem : (field, raw) ∈ extraction.fields)
    (hmeaning : Markup.IsMeaningful today (.field field) raw)
    (h : lineMetadata today heading extraction = .ok metadata) : metadata.has field = true := by
  obtain ⟨before, after, hsplit⟩ := List.append_of_mem hmem
  rw [lineMetadata, hsplit, List.foldlM_append] at h
  obtain ⟨first, -, h⟩ := Result.bind_eq_ok.1 h
  rw [List.foldlM_cons] at h
  obtain ⟨next, hnext, h⟩ := Result.bind_eq_ok.1 h
  exact has_of_foldlM htried (has_of_isMeaningful hmeaning htried hnext) h

end Note

/-! ## Markup that is taken out -/

/-- Whatever is read under the settings is heeded: what is read for a date is one and what is read
for the priority is a level, and a task has every date and the priority for which a token was taken
out of its line. -/
structure HeedsMarkup (settings : Settings) : Prop where
  meaningful : ∀ (today : Date) (content : Text) (extraction : Markup.Extraction),
    Markup.extract settings today content = .ok extraction →
    ∀ token ∈ extraction.tokens, Markup.IsMeaningful today token.slot token.value
  sets : ∀ (today : Date) (path : Text) (found : Note.Found) (task : Task),
    Note.taskOf settings today path found = .ok task →
    ∀ (token : Markup.Token) (field : Field),
      Markup.Removes settings today found.parts.content token → token.slot = .field field →
      Markup.isTried field = true → task.metadata.has field = true

variable {settings : Settings}

theorem heedsMarkup_of_meaningful
    (h : ∀ (today : Date) (content : Text) (extraction : Markup.Extraction),
    Markup.extract settings today content = .ok extraction → ∀ token ∈ extraction.tokens,
      Markup.IsMeaningful today token.slot token.value) :
    HeedsMarkup settings := by
  refine ⟨h, fun today path found task htask token field hremoves hslot htried => ?_⟩
  obtain ⟨extraction, metadata, hextraction, hmetadata, rfl⟩ := Note.taskOf_eq_ok_iff.1 htask
  have hranked := Markup.isRanked_of_extract hextraction
  have htags : Slot.field field ≠ .field .tags := by
    rintro heq
    rw [Slot.field.inj heq] at htried
    cases htried
  obtain ⟨kept, hkept, hsame⟩ := hremoves.exists_mem hextraction
  rw [hslot] at hsame
  obtain ⟨value, hvalue⟩ := hranked.exists_entry kept hkept (hsame ▸ htags)
  rw [hsame] at hvalue
  obtain ⟨-, winner, hwinner, hwins, rfl⟩ := (hranked.mem_entries_iff _ _).1 hvalue
  refine Note.has_of_mem_fields htried (Markup.Extraction.field_mem_entries.1 hvalue) ?_ hmetadata
  rw [← hwins]
  exact h today _ extraction hextraction winner hwinner.mem

/-! ## Marks of settings in a line -/

namespace Markup

variable {settings : Settings} {today : Date} {symbol key name : Text} {field : Field}

/-- The marks of the settings can be written in a line: symbols are clear and hold no character of a
tag, tag keys are made of these, and at least one mark is read. -/
structure HasWritableMarks (settings : Settings) : Prop where
  limit : 0 < settings.metadataLimit
  symbols : HasClearSymbols settings
  apart : ∀ entry ∈ settings.symbols, ∀ c ∈ entry.1, isTagBody c = false
  keys : ∀ key ∈ Table.keys settings.tagKeys, key ≠ [] ∧ (∀ c ∈ key, isTagBody c = true ∧ c ≠ '/') ∧
    lower key = key

theorem HasClearSymbols.exists_of_mem (h : HasClearSymbols settings)
    (hsymbol : symbol ∈ Table.keys (plainSymbols settings)) :
    symbol ≠ [] ∧ ∃ entry ∈ settings.symbols, ∀ c ∈ symbol, c ∈ entry.1 := by
  rw [keys_plainSymbols h.distinct] at hsymbol
  obtain ⟨entry, hentry, rfl⟩ := List.mem_map.1 hsymbol
  exact ⟨h.nonempty entry hentry, entry, hentry, fun c hc => List.mem_of_mem_filter hc⟩

theorem extract_level (hmarks : HasWritableMarks settings)
    (hmetadata : settings.readsMetadata = true) (hemoji : settings.grammars.allowsEmoji = true)
    (h : (plainSymbols settings).lookup symbol = some .priority) :
    extract settings today symbol =
      .ok (singleExtraction ⟨.emoji, .field .priority, symbol, symbol⟩) := by
  have hmem : symbol ∈ Table.keys (plainSymbols settings) :=
    Table.isSome_lookup_iff.1 (by rw [h]; rfl)
  have hfound : symbol? (plainSymbols settings) symbol = some symbol :=
    symbol?_eq_some_iff.2 ⟨hmem, List.prefix_rfl, fun other _ hprefix => hprefix.length_le⟩
  have hmark : symbolLength? (plainSymbols settings) none symbol = some symbol.length := by
    rw [symbolLength?, hfound, Option.map_some, List.drop_length]
    rfl
  have hjudge : (emoji settings today).judge none ⟨[], symbol, []⟩ =
      .ok (some ⟨⟨.emoji, .field .priority, symbol, symbol⟩, false, []⟩) := by
    have hword : levelWord? [] = none := by decide
    rw [judge_emoji_eq_some_iff]
    refine ⟨symbol, .priority, hfound, h, fun _ => rfl, rfl, ?_⟩
    simp [valueAt, symbolValue, hword]
  obtain ⟨-, entry, hentry, hwithin⟩ := hmarks.symbols.exists_of_mem hmem
  refine extract_of_emoji hmarks.symbols (fun c hc =>
    (hmarks.symbols.clear entry hentry c (hwithin c hc)).2) hmetadata hemoji hmarks.limit hmark ?_
  rw [List.take_length, List.drop_length]
  exact hjudge

/-- A tag with the key in front of a value that means nothing. -/
def vagueTag (key : Text) : Text :=
  '#' :: (key ++ ['/', 'x'])

theorem forall_mem_vagueTag (hkey : ∀ c ∈ key, isTagBody c = true) :
    ∀ c ∈ vagueTag key, c = '#' ∨ isTagBody c = true := by
  have hvalue : ∀ c ∈ ['/', 'x'], isTagBody c = true := by decide +kernel
  intro c hc
  rcases List.mem_cons.1 hc with rfl | hc
  · exact .inl rfl
  · exact .inr ((List.mem_append.1 hc).elim (hkey c) (hvalue c))

theorem isFlat_vagueTag (hkey : ∀ c ∈ key, isTagBody c = true) : IsFlat (vagueTag key) := by
  refine isFlat_of_forall fun c hc => ?_
  rcases forall_mem_vagueTag hkey c hc with rfl | hbody
  · decide
  · refine ⟨isInner_of_isTagBody hbody, ?_⟩
    rintro rfl
    exact absurd hbody (by decide +kernel)

theorem HasWritableMarks.symbolLength?_eq_none (h : HasWritableMarks settings) {c : Char}
    (hc : c = '#' ∨ isTagBody c = true) (previous : Option Char) (rest : Text) :
    symbolLength? (plainSymbols settings) previous (c :: rest) = none := by
  cases hfound : symbol? (plainSymbols settings) (c :: rest) with
  | none => rw [symbolLength?, hfound, Option.map_none]
  | some symbol =>
    obtain ⟨hmem, hstarts, -⟩ := symbol?_eq_some_iff.1 hfound
    obtain ⟨hne, entry, hentry, hwithin⟩ := h.symbols.exists_of_mem hmem
    obtain ⟨d, others, rfl⟩ := List.exists_cons_of_ne_nil hne
    obtain ⟨rfl, -⟩ := List.cons_prefix_cons.1 hstarts
    have hd := hwithin d List.mem_cons_self
    rcases hc with rfl | hbody
    · exact absurd (by decide) (h.symbols.clear entry hentry '#' hd).2
    · rw [h.apart entry hentry d hd] at hbody
      cases hbody

theorem isTagName_vague (key : Text) : isTagName (key ++ ['/', 'x']) = true := by
  have hdigit : isDigit 'x' = false := by decide +kernel
  simp [isTagName, hdigit]

theorem tagMeaning_vague (hkey : ∀ c ∈ key, isTagBody c = true ∧ c ≠ '/') (hlower : lower key = key)
    (hname : settings.tagKeys.lookup key = some name) (hslot : Slot.ofName name = .field field) :
    tagMeaning settings (key ++ ['/', 'x']) = (.field field, ['x'], false) := by
  have hne : name ≠ [] := by
    rintro rfl
    cases hslot
  have hslash : '/' ∉ key := fun hmem => (hkey _ hmem).2 rfl
  have hcut : cut '/' (key ++ ['/', 'x']) = (key, some ['x']) := cut_append hslash
  simp [tagMeaning, hcut, hlower, hname, hne, hslot]

theorem extract_vagueTag (hmarks : HasWritableMarks settings) (hreads : settings.readsTags = true)
    (hname : settings.tagKeys.lookup key = some name) (hslot : Slot.ofName name = .field field) :
    extract settings today (vagueTag key) =
      .ok (singleExtraction ⟨.tag, .field field, ['x'], vagueTag key⟩) := by
  obtain ⟨-, hkey, hlower⟩ := hmarks.keys key (Table.isSome_lookup_iff.1 (by rw [hname]; rfl))
  have hbody : ∀ c ∈ key ++ ['/', 'x'], isTagBody c = true :=
    List.forall_mem_append.2 ⟨fun c hc => (hkey c hc).1, by decide +kernel⟩
  have hmark : tagLength? none (vagueTag key) = some (vagueTag key).length := by
    have htext := @tagText?_cons none [] _ (by simp) hbody rfl nofun
    rw [List.append_nil] at htext
    rw [tagLength?, vagueTag, htext]
    simp [isTagName_vague]
  have hjudge : (tags settings).judge none ⟨[], vagueTag key, []⟩ =
      .ok (some ⟨⟨.tag, .field field, ['x'], vagueTag key⟩, false, []⟩) := by
    simp only [tags, vagueTag, List.drop_succ_cons, List.drop_zero,
      tagMeaning_vague hkey hlower hname hslot]
  have hkinds : ∃ earlier : List TokenKind, kinds settings = earlier ++ .tag :: [.context] ∧
      ∀ other ∈ earlier, other = .dataview ∨ other = .emoji := by
    refine ⟨_, by rw [kinds, hreads, if_pos rfl], fun other hother => ?_⟩
    rcases List.mem_append.1 hother with hother | hother <;> split at hother
    · exact .inl (List.mem_singleton.1 hother)
    · cases hother
    · exact .inr (List.mem_singleton.1 hother)
    · cases hother
  obtain ⟨earlier, hkinds, hearlier⟩ := hkinds
  have hchars := forall_mem_vagueTag fun c hc => (hkey c hc).1
  refine extract_of_single (isFlat_vagueTag fun c hc => (hkey c hc).1) hkinds
    (fun other hother => ?_) (fun other hother => ?_) hmarks.limit hmark ?_
    fun _ => rfl
  · rcases hearlier other hother with rfl | rfl
    · refine locate?_inline fun hmem => ?_
      rcases hchars _ hmem with heq | hbracket
      · cases heq
      · exact absurd hbracket (by decide +kernel)
    · exact locate?_of_forall (symbolLength?_nil_of_clear hmarks.symbols) fun c hc =>
        hmarks.symbolLength?_eq_none (hchars c hc)
  · obtain rfl := List.mem_singleton.1 hother
    rfl
  · rw [List.take_length, List.drop_length]
    exact hjudge

theorem not_isMeaningful_vague (htried : isTried field = true) :
    ¬IsMeaningful ⟨2024, 3, 13, rfl⟩ (.field field) ['x'] := by
  cases field with
  | date kind =>
    rintro ⟨timestamp, hresolve⟩
    have hnone : DateText.resolve ⟨2024, 3, 13, rfl⟩ ['x'] = .ok none := by decide +kernel
    cases hnone.symm.trans hresolve
  | priority =>
    rintro ⟨level, hresolve, -⟩
    have hnone : Priority.resolve ['x'] = .ok none := by decide +kernel
    cases hnone.symm.trans hresolve
  | project | context | area | recurrence | tags => cases htried

end Markup

/-! ## Settings that heed what they read -/

/-- Markup is heeded under all settings in which no tag fills a date or the priority and every
symbol for a level names one: what is read for such a field means something for it, and sets it.
Settings whose marks can be written in a line heed markup only under this condition. -/
theorem heedsMarkup_of_hasMeaningfulMarks (settings : Settings) :
    (Markup.HasMeaningfulMarks settings → HeedsMarkup settings) ∧
    (Markup.HasWritableMarks settings → HeedsMarkup settings → Markup.HasMeaningfulMarks settings) := by
  refine ⟨fun hmarks => heedsMarkup_of_meaningful fun _ _ _ =>
    Markup.isMeaningful_of_extract hmarks, fun hmarks hheeds => ⟨?_, ?_⟩⟩
  · intro hreads key name hname field hslot
    have hextract :=
      @Markup.extract_vagueTag settings ⟨2024, 3, 13, rfl⟩ key name field hmarks hreads hname hslot
    have hmeaning := hheeds.meaningful _ _ _ hextract _ (List.mem_singleton_self _)
    by_contra htried
    exact Markup.not_isMeaningful_vague (by simpa using htried) hmeaning
  · intro hmetadata hemoji symbol hsymbol
    have hextract :=
      @Markup.extract_level settings ⟨2024, 3, 13, rfl⟩ symbol hmarks hmetadata hemoji hsymbol
    obtain ⟨level, hlevel, -⟩ := hheeds.meaningful _ _ _ hextract _ (List.mem_singleton_self _)
    exact ⟨level, hlevel⟩

/-- A symbol for a date, one for a level with its variant, and a tag key for a field and for a key
of the author's own. -/
def fireSettings : Settings :=
  { symbols := [("🔥".toList, .date .due), ("🔺\ufe0f".toList, .priority)],
    tagKeys := [("area".toList, "area".toList), ("who".toList, "assignee".toList)] }

theorem heedsMarkup_of_hasMeaningfulMarks_fire : Markup.HasMeaningfulMarks fireSettings ∧
    HeedsMarkup fireSettings := by
  have hmarks : Markup.HasMeaningfulMarks fireSettings := by
    refine ⟨fun _ key name hname field hslot => ?_, fun _ _ symbol hsymbol => ?_⟩
    · have hall : ∀ entry ∈ fireSettings.tagKeys, Slot.ofName entry.2 = .field .area ∨
          Slot.ofName entry.2 = .custom "assignee".toList := by decide
      rcases hall _ (Table.mem_of_lookup hname) with harea | hcustom
      · cases harea.symm.trans hslot
        rfl
      · cases hcustom.symm.trans hslot
    · have hall : ∀ entry ∈ Markup.plainSymbols fireSettings, entry.2 = .priority →
          Priority.resolve entry.1 = .ok (some 5) := by decide +kernel
      exact ⟨5, hall _ (Table.mem_of_lookup hsymbol) rfl⟩
  exact ⟨hmarks, (heedsMarkup_of_hasMeaningfulMarks fireSettings).1 hmarks⟩

/-- With a tag key for a date a tag that names no date is taken out of the line. -/
theorem not_heedsMarkup_of_tag_key : ¬∀ (data : Value) (settings : Settings),
    Settings.load data = .ok settings → HeedsMarkup settings := by
  intro h
  have hload : ∃ settings,
      Settings.load
        (.map [(.str "special_tag_prefixes".toList,
          .map [(.str "due".toList, .str "dueDate".toList)])]) = .ok settings ∧
      settings = { tagKeys := [("due".toList, "dueDate".toList)] } :=
        Result.exists_of_map (by decide +kernel)
  obtain ⟨settings, hload, rfl⟩ := hload
  have hread : ∃ extraction, Markup.extract { tagKeys := [("due".toList, "dueDate".toList)] }
      ⟨2024, 3, 13, rfl⟩ "#due/someday".toList = .ok extraction ∧
      extraction.tokens = [⟨.tag, .field (.date .due), "someday".toList, "#due/someday".toList⟩] :=
        Result.exists_of_map (by decide +kernel)
  obtain ⟨extraction, hread, htokens⟩ := hread
  have hmeaning := (h _ _ hload).meaningful _ _ extraction hread
  rw [htokens] at hmeaning
  obtain ⟨timestamp, hresolve⟩ := hmeaning _ (List.mem_singleton_self _)
  have hnone : DateText.resolve ⟨2024, 3, 13, rfl⟩ "someday".toList = .ok none := by decide +kernel
  cases hnone.symm.trans hresolve

end Checklist
