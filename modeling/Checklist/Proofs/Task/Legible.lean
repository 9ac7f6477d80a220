import Checklist.Proofs.Task.Items

/-! # Legible tasks

A task is legible in a style if each of its items is read as it is written there, and its line has
no spans but theirs. Main statements: the items of such metadata are readable (`isReadable_items`),
and the line of a legible task is read as its content and its items (`IsLegible.isLine`). -/

namespace Checklist
set_option autoImplicit false
open Text

namespace Task

variable {style : Style} {metadata : Metadata}

/-! ## Every item is read as it is written -/

/-- A tag that is read as a tag without a meaning of its own. -/
structure IsPlainTag (tag : Text) : Prop where
  body : ∀ c ∈ tag, Markup.isTagBody c = true
  name : Markup.isTagName tag = true
  meaning : Markup.tagMeaning .standard tag = (.field .tags, tag, true)

/-- Metadata whose items are read as they are written in a style: tags are plain, years have four
digits, a context is no path, a phrase holds no mark, and between the brackets of an inline field
stand no others. -/
structure IsWritable (style : Style) (metadata : Metadata) : Prop where
  tags : ∀ tag ∈ metadata.tags, IsPlainTag tag
  years : HasLongYears metadata
  context : style = .emoji → ∀ name, metadata.context = some name → isPlain name = true → '/' ∉ name
  phrase : style = .emoji → ∀ phrase, metadata.recurrence = some (.phrase phrase) →
    Markup.locate? Markup.marks (some ' ') (Markup.protect phrase).text = none
  brackets : ∀ item ∈ items style metadata, item.kind = .dataview → ∀ c,
    .plain c ∈ Markup.pieces item.value → Markup.isInner c = true

variable {today : Date}

theorem isReadable_inlineItem {field : Field} {key value : Text}
    (hslot : Markup.inlineSlot .standard key = .field field) (htags : field ≠ .tags)
    (hkey : Markup.IsKey key) (hkeyTrimmed : IsTrimmed key) (hvalue : IsTrimmed value)
    (hsense : ∀ number,
      Markup.makesSense today (.field field) (Markup.mask number (Markup.pieces value)) = .ok true)
    (hbrackets : ∀ c, .plain c ∈ Markup.pieces value → Markup.isInner c = true) :
    (inlineItem (.field field) key value).IsReadable today :=
  .inline hslot (by simpa using htags) hkey hkeyTrimmed hbrackets hvalue hsense

theorem isReadable_tagItem {tag : Text} (h : IsPlainTag tag) : (tagItem tag).IsReadable today :=
  @Markup.Item.IsReadable.tag today [] tag _ h.body h.name h.meaning

/-- The fields whose names may stand before a slash in a tag. -/
def isFiled (field : Field) : Prop :=
  field = .project ∨ field = .area ∨ field = .context

theorem isTagBody_of_isPlain {name : Text} (h : isPlain name = true) (hline : '\n' ∉ name) :
    ∀ c ∈ name, Markup.isTagBody c = true := by
  have hbody : (fun c => isWord c || c == '/' || c == '-') = Markup.isTagBody := rfl
  simp only [isPlain, hbody, Bool.and_eq_true, Bool.or_eq_true, List.all_eq_true, beq_iff_eq] at h
  rcases h.2 with h | h
  · exact h
  · have hmem : '\n' ∈ name :=
      (List.dropWhile_sublist _).subset (by rw [h]; exact List.mem_singleton_self _)
    exact absurd hmem hline

theorem isReadable_filedTag {field : Field} {name : Text} (hfield : isFiled field) (hne : name ≠ [])
    (hbody : ∀ c ∈ name, Markup.isTagBody c = true) :
    Markup.Item.IsReadable today ⟨.tag, .field field, '#' :: (field.name ++ ['/']), name, []⟩ := by
  have hkey : (∀ c ∈ field.name ++ ['/'], Markup.isTagBody c = true) ∧
      '/' ∉ field.name ∧ field.name ≠ [] ∧
      Settings.standard.tagKeys.lookup (lower field.name) = some field.name ∧
        Slot.ofName field.name = .field field ∧
      (field.name.head?.any fun c => !isDigit c && c != '/') = true ∧ field ≠ .tags := by
    rcases hfield with rfl | rfl | rfl <;> decide +kernel
  obtain ⟨hkeyBody, hslash, hkeyNe, hlookup, hslot, hletter, htags⟩ := hkey
  refine .tag (List.forall_mem_append.2 ⟨hkeyBody, hbody⟩) ?_ ?_
  · cases hname : field.name with
    | nil => exact absurd hname hkeyNe
    | cons c rest =>
      rw [hname, List.head?_cons, Option.any_some, Bool.and_eq_true, Bool.not_eq_true',
        bne_iff_ne] at hletter
      simp [Markup.isTagName, hletter]
  · have hcut : cut '/' (field.name ++ ['/'] ++ name) = (field.name, some name) := by
      rw [List.append_assoc]
      exact cut_append hslash
    have hempty : name.isEmpty = false := by simpa using hne
    have hkeyEmpty : field.name.isEmpty = false := by simpa using hkeyNe
    have hfalse : (Slot.field field == Slot.field Field.tags) = false :=
      beq_false_of_ne (by simpa using htags)
    simp only [Markup.tagMeaning, hcut, hlookup, hempty, hkeyEmpty, hslot, hfalse, Bool.or_self,
      Bool.false_eq_true, if_false]

theorem value_filedItem (style : Style) (field : Field) (name : Text) :
    (filedItem style field name).value = name := by
  unfold filedItem
  split
  · split <;> rfl
  · rfl

theorem isReadable_filedItem {field : Field} {name : Text}
    (hfield : isFiled field) (hname : IsName name)
    (hcontext : style = .emoji → field = .context → isPlain name = true → '/' ∉ name)
    (hbrackets : (filedItem style field name).kind = .dataview → ∀ c,
      .plain c ∈ Markup.pieces name → Markup.isInner c = true) :
    (filedItem style field name).IsReadable today := by
  unfold filedItem at hbrackets ⊢
  split
  · rename_i hplain
    rw [Bool.and_eq_true, beq_iff_eq] at hplain
    have hbody := isTagBody_of_isPlain hplain.2 hname.2
    split
    · rename_i hfield
      rw [beq_iff_eq] at hfield
      have hslash := hcontext hplain.1 hfield hplain.2
      refine .context hname.1.ne_nil fun c hc => ?_
      have hc' := hbody c hc
      simp only [Markup.isTagBody, Bool.or_eq_true, beq_iff_eq] at hc'
      simp only [Markup.isContextBody, Bool.or_eq_true, beq_iff_eq]
      rcases hc' with (hword | rfl) | hhyphen
      · exact .inl hword
      · exact absurd hc hslash
      · exact .inr hhyphen
    · exact isReadable_filedTag hfield hname.1.ne_nil hbody
  · rename_i hplain
    rw [if_neg hplain] at hbrackets
    have hkey : Markup.inlineSlot .standard field.name = .field field ∧
        field ≠ .tags ∧ field.name ≠ [] ∧
        (∀ c ∈ field.name, (Markup.isInner c && c != ':') = true ∧ isBlank c = false) := by
      rcases hfield with rfl | rfl | rfl <;> decide +kernel
    obtain ⟨hslot, htags, hne, hchars⟩ := hkey
    have hsense : ∀ value, Markup.makesSense today (.field field) value = .ok true := by
      intro value
      rcases hfield with rfl | rfl | rfl <;> rfl
    exact isReadable_inlineItem hslot htags ⟨hne, fun c hc => (hchars c hc).1⟩
      (isTrimmed_of_forall hne fun c hc => (hchars c hc).2) hname.1
      (fun number => hsense _) (hbrackets rfl)

theorem levels {level : Int} (h : 1 ≤ level ∧ level ≤ 5) :
    level = 1 ∨ level = 2 ∨ level = 3 ∨ level = 4 ∨ level = 5 := by
  omega

theorem exists_levelSymbol {level : Int} (h : 1 ≤ level ∧ level ≤ 5) :
    ∃ symbol, Priority.symbol? level = some [symbol] ∧
    (Markup.plainSymbols .standard).lookup [symbol] = some .priority ∧
      Priority.resolve [symbol] = .ok (some level.toNat) := by
  rw [Markup.plainSymbols_default]
  rcases levels h with rfl | rfl | rfl | rfl | rfl <;> exact ⟨_, rfl, by decide, by decide +kernel⟩

theorem exists_levelName {level : Int} (h : 1 ≤ level ∧ level ≤ 5) :
    ∃ name, Priority.name? level = some name ∧ name ≠ [] ∧
    (∀ c ∈ name, Markup.isOpener c = false ∧ Markup.isInner c = true ∧ isBlank c = false) ∧
    Priority.resolve name = .ok (some level.toNat) := by
  rcases levels h with rfl | rfl | rfl | rfl |
    rfl <;> exact ⟨_, rfl, by decide, by decide, by decide +kernel⟩

theorem isReadable_levelItem {level : Int} (h : 1 ≤ level ∧ level ≤ 5) :
    (levelItem style level).IsReadable today := by
  cases style with
  | emoji =>
    obtain ⟨symbol, hsymbol, hfield, -⟩ := exists_levelSymbol h
    rw [levelItem, hsymbol]
    exact .level hfield
  | dataview =>
    obtain ⟨name, hname, hne, hchars, hresolve⟩ := exists_levelName h
    rw [levelItem, hname]
    have hopener : ∀ c ∈ name, Markup.isOpener c = false := fun c hc => (hchars c hc).1
    refine isReadable_inlineItem (by decide +kernel) (by decide) (by constructor <;> decide)
      (isTrimmed_of_forall (by decide) (by decide))
      (isTrimmed_of_forall hne fun c hc => (hchars c hc).2.2) (fun number => ?_) fun c hc =>
        (hchars c (Markup.mem_of_plain hc)).2.1
    rw [Option.getD_some, Markup.mask_of_forall hopener, Markup.makesSense, hresolve]
    rfl

theorem locate?_of_forall {previous : Option Char} {s : Text}
    (h : ∀ c ∈ s, Markup.isSign c = false) :
    Markup.locate? Markup.marks previous s = none := by
  induction s generalizing previous with
  | nil => rfl
  | cons c rest ih =>
    rw [Markup.locate?, Markup.marks_eq_none (h c List.mem_cons_self),
      ih fun d hd => h d (List.mem_cons_of_mem _ hd)]
    rfl

theorem isPlain_of_isAlphanum {c : Char} (h : c = ' ' ∨ c.isAlphanum = true) :
    Markup.isSign c = false ∧ Markup.isOpener c = false ∧ Markup.isInner c = true := by
  rcases h with rfl | h
  · decide
  · have hno : ∀ {d : Char}, d.isAlphanum = false → c ≠ d := by
      rintro d hd rfl
      rw [hd] at h
      cases h
    refine ⟨?_, ?_, ?_⟩
    · by_contra hsign
      have hd : c.isAlphanum = false :=
          Markup.forall_sign (P := fun c => c.isAlphanum = false) (by decide) (by simpa using hsign)
      exact hno hd rfl
    · simp [Markup.isOpener, hno (d := '\x60') (by decide), hno (d := '[') (by decide),
        hno (d := '!') (by decide)]
    · simp [Markup.isInner, hno (d := '[') (by decide), hno (d := ']') (by decide)]

/-- The text of a recurrence has no mark in it, unless it is a phrase of the author's own. -/
theorem locate?_text {recurrence : Recurrence} {text : Text} (htext : recurrence.text = .ok text)
    (hparse : Recurrence.parse text = .ok (some recurrence)) :
    (∀ number, Markup.locate? Markup.marks (some ' ') (Markup.mask number (Markup.pieces text)) =
      none) ∨ recurrence = .phrase text := by
  rcases Recurrence.isPhrase_of_parse hparse with ⟨words, rule, hphrase, rfl⟩ | ⟨rfl, -⟩
  · left
    intro number
    obtain rfl := Except.ok.inj (hphrase.phrase_eq.symm.trans htext)
    rw [Markup.mask_of_forall fun c hc => (isPlain_of_isAlphanum (hphrase.forall_char c hc)).2.1]
    exact locate?_of_forall fun c hc => (isPlain_of_isAlphanum (hphrase.forall_char c hc)).1
  · right
    rw [Except.ok.inj htext]

theorem isReadable_recurrenceItem {recurrence : Recurrence} (h : recurrence.IsRestated)
    (hphrase : style = .emoji → ∀ phrase, recurrence = .phrase phrase →
      Markup.locate? Markup.marks (some ' ') (Markup.protect phrase).text = none)
    (hbrackets : ∀ c, style = .dataview →
      .plain c ∈ Markup.pieces (recurrenceItem style recurrence).value → Markup.isInner c = true) :
    (recurrenceItem style recurrence).IsReadable today := by
  obtain ⟨text, htext, hparse, htrimmed, -⟩ := h
  have hvalue : recurrence.text.toOption.getD [] = text := by
    rw [htext]
    rfl
  cases style with
  | emoji =>
    rw [recurrenceItem, hvalue]
    refine .phrase ?_ htrimmed ?_
    · rw [Markup.plainSymbols_default]
      decide
    · rcases locate?_text htext hparse with hnone | hown
      · exact hnone
      · exact fun number => Markup.locate?_mask rfl (hphrase rfl text hown)
  | dataview =>
    rw [recurrenceItem, hvalue] at hbrackets ⊢
    exact isReadable_inlineItem (by decide +kernel) (by decide) (by constructor <;> decide)
      (isTrimmed_of_forall (by decide) (by decide)) htrimmed
      (fun number => rfl) fun c hc => hbrackets c rfl hc

/-! ### Dates -/

/-- A moment begins with a digit, and so with no word of a keyword. -/
theorem afterKeyword?_momentText (moment : Moment) :
    Markup.afterKeyword? (moment.date.text ++ DateText.clockText moment) = none := by
  obtain ⟨c, rest, hcons, hdigit⟩ := DateText.cons_text moment
  have hfirst : (moment.date.text ++ DateText.clockText moment).takeWhile (!isBlank ·) =
      c :: rest.takeWhile (!isBlank ·) := by
    rw [hcons, List.takeWhile_cons_of_pos (by simp [isBlank_of_isDigit hdigit])]
  obtain ⟨lowered, hlower⟩ := @lower_digit c (rest.takeWhile (!isBlank ·)) hdigit
  have hnoWord : ["next".toList, "last".toList].contains (c :: lowered) = false := by
    have hletters : c ≠ 'n' ∧ c ≠ 'l' :=
        forall_digit (P := fun c => c ≠ 'n' ∧ c ≠ 'l') (by decide) hdigit
    simp [hletters]
  simp only [Markup.afterKeyword?, hfirst, hlower, hnoWord, Bool.false_and,
    Bool.false_eq_true, if_false]

theorem afterMoment?_momentText (moment : Moment) :
    Markup.afterMoment? (moment.date.text ++ DateText.clockText moment) =
    if DateText.clockText moment = [] then none else some [] := by
  simp only [Markup.afterMoment?, DateText.scan?_text, Option.bind_eq_bind, Option.bind_some]
  split
  case isTrue hmidnight =>
    rw [hmidnight]
    rfl
  case isFalse hclock =>
    have htime := @DateText.time?_clock moment [] (by simp)
    unfold DateText.clockText at hclock ⊢
    split at hclock
    · exact absurd rfl hclock
    · rename_i hzero
      rw [List.append_nil] at htime
      have hmark : ∀ s : Text, Date.mark? ' ' (' ' :: s) = some s := fun s => rfl
      simp only [if_neg hzero, List.cons_append, hmark, Option.bind_some] at htime ⊢
      rw [htime]
      rfl

theorem dateWord_text (moment : Moment) :
    Markup.dateWord (' ' :: (moment.date.text ++ DateText.clockText moment)) =
      (moment.date.text ++ DateText.clockText moment, []) := by
  have hstart : trimStart (' ' :: (moment.date.text ++ DateText.clockText moment)) =
      moment.date.text ++ DateText.clockText moment := by
    rw [trimStart, List.dropWhile_cons_of_pos (by decide)]
    exact trimStart_eq_self (DateText.isTrimmed_textWith 4 moment).head
  simp only [Markup.dateWord, hstart, afterMoment?_momentText, afterKeyword?_momentText]
  by_cases hmidnight : DateText.clockText moment = []
  · have hsolid : ∀ c ∈ moment.date.text ++ DateText.clockText moment, (!isBlank c) = true := by
      intro c hc
      rw [hmidnight, List.append_nil] at hc
      rcases DateText.forall_char_day _ _ c hc with hdigit | rfl
      · rw [isBlank_of_isDigit hdigit]
        rfl
      · decide
    simp only [hmidnight, if_true, Option.none_or] at hsolid ⊢
    rw [List.takeWhile_eq_self_iff.2 hsolid, List.dropWhile_eq_nil_iff.2 hsolid]
  · simp [hmidnight]

theorem isReadable_dateItem (h : metadata.IsOfLine) (hyears : HasLongYears metadata)
    {field : DateField} {key : Text} {timestamp : Int}
    (hdate : metadata.dates.get field = some timestamp) (hkey : (field, key) ∈ dateOrder) :
    (dateItem style field key timestamp).IsReadable today := by
  obtain ⟨moment, hwhole, hfirst, rfl, htext⟩ := exists_timestampText h hyears hdate
  have hvalue : (Moment.timestampText (moment.seconds * 1000)).toOption.getD [] =
      moment.date.text ++ DateText.clockText moment := by
    rw [htext]
    rfl
  have hchars : ∀ c ∈ moment.date.text ++ DateText.clockText moment, Markup.isInner c = true ∧
      Markup.isOpener c = false :=
    DateText.forall_char_of_date (by decide) 4 moment
  have hresolve := @DateText.resolve_timestampText today moment hwhole hfirst
  have htrimmed : IsTrimmed (moment.date.text ++ DateText.clockText moment) :=
    DateText.isTrimmed_textWith 4 moment
  cases style with
  | emoji =>
    have hsymbol : ∃ symbol, symbolOf (.date field) = [symbol] ∧
        (Markup.plainSymbols .standard).lookup [symbol] = some (.date field) := by
      rw [Markup.plainSymbols_default]
      cases field <;> exact ⟨_, rfl, by decide⟩
    obtain ⟨symbol, hsymbol, hfield⟩ := hsymbol
    rw [dateItem, hvalue, hsymbol]
    refine .date hfield htrimmed.ne_nil hchars (dateWord_text moment) ?_
    rw [Markup.isUndated, hresolve]
    rfl
  | dataview =>
    rw [dateItem, hvalue]
    have hentry : ∀ entry ∈ dateOrder,
        Markup.inlineSlot .standard entry.2 = .field (.date entry.1) ∧ entry.2 ≠ [] ∧
        ∀ c ∈ entry.2, (Markup.isInner c && c != ':') = true ∧
          isBlank c = false := by decide +kernel
    obtain ⟨hslot, hne, hkeyChars⟩ := hentry _ hkey
    refine isReadable_inlineItem hslot (by simp) ⟨hne, fun c hc => (hkeyChars c hc).1⟩
      (isTrimmed_of_forall hne fun c hc => (hkeyChars c hc).2)
      htrimmed (fun number => ?_) fun c hc => (hchars c (Markup.mem_of_plain hc)).1
    rw [Markup.mask_of_forall fun c hc => (hchars c hc).2, Markup.makesSense, hresolve]
    rfl

theorem isReadable_customItem {key value : Text} (h : IsCustom key value)
    (hbrackets : ∀ c, .plain c ∈ Markup.pieces value → Markup.isInner c = true) :
    (customItem (.str key, .str value)).IsReadable today :=
  .inline h.slot (by simp) h.isKey h.isName.1 hbrackets h.value.1 fun number => rfl

/-- Every item is read as it is written. -/
theorem isReadable_items (h : metadata.IsOfLine) (hwritable : IsWritable style metadata) :
    ∀ item ∈ items style metadata, item.IsReadable today := by
  intro item hitem
  have hbrackets := hwritable.brackets item hitem
  cases mem_items_iff.1 hitem with
  | tag htag => exact isReadable_tagItem (hwritable.tags _ htag)
  | project hname =>
    rw [value_filedItem] at hbrackets
    exact isReadable_filedItem (.inl rfl) (h.project _ hname) (fun _ => nofun) hbrackets
  | area hname =>
    rw [value_filedItem] at hbrackets
    exact isReadable_filedItem (.inr (.inl rfl)) (h.area _ hname) (fun _ => nofun) hbrackets
  | context hname =>
    rw [value_filedItem] at hbrackets
    exact isReadable_filedItem (.inr (.inr rfl)) (h.context _ hname)
      (fun hstyle _ => hwritable.context hstyle _ hname) hbrackets
  | level hlevel => exact isReadable_levelItem (h.priority _ hlevel)
  | recurrence hrecurrence =>
    refine isReadable_recurrenceItem (h.recurrence _ hrecurrence)
      (fun hstyle phrase hphrase => ?_) fun c hstyle hc => ?_
    · exact hwritable.phrase hstyle phrase (hphrase ▸ hrecurrence)
    · subst hstyle
      exact hbrackets rfl c hc
  | date hkey hdate => exact isReadable_dateItem h hwritable.years hdate hkey
  | custom hentry =>
    obtain ⟨entries, hentries, -, hown⟩ := h.custom
    rw [hentries] at hentry
    obtain ⟨found, hfound, rfl⟩ := List.mem_map.1 hentry
    exact isReadable_customItem (hown found hfound) (hbrackets rfl)

/-! ## Lines of tasks -/

theorem isApart_recurrenceItem {content : Text} {recurrence : Recurrence}
    (h : recurrence.IsRestated) (hphrase : style = .emoji → ∀ phrase, recurrence = .phrase phrase →
      Markup.IsApart (Markup.protect content).text (Markup.protect phrase).text)
    (number : Nat) : Markup.IsApart (Markup.protect content).text
      (Markup.mask number (recurrenceItem style recurrence).parts) := by
  obtain ⟨text, htext, hparse, -⟩ := h
  have hvalue : recurrence.text.toOption.getD [] = text := by
    rw [htext]
    rfl
  rw [Markup.Item.mask_parts]
  cases style with
  | dataview =>
    exact .inr (by simp [recurrenceItem, inlineItem, Markup.firstBracket?, Markup.isInner])
  | emoji =>
    have hfirst : Markup.firstBracket? (Markup.mask number (Markup.pieces text)) =
        Markup.firstBracket? (Markup.protect text).text :=
      Markup.firstBracket?_mask _ _ _
    have hbefore : Markup.firstBracket? (symbolOf .recurrence ++ [' ']) = none := by decide
    simp only [recurrenceItem, hvalue, List.append_nil]
    unfold Markup.IsApart
    rw [Markup.firstBracket?_append, hbefore, Option.none_or, hfirst]
    rcases Recurrence.isPhrase_of_parse hparse with ⟨words, rule, hwords, rfl⟩ | ⟨rfl, -⟩
    · obtain rfl := Except.ok.inj (hwords.phrase_eq.symm.trans htext)
      have hchars := fun c hc => isPlain_of_isAlphanum (hwords.forall_char c hc)
      have hmask := @Markup.mask_of_forall 0 _ fun c hc => (hchars c hc).2.1
      rw [Markup.protect, Markup.protect, hmask,
        Markup.firstBracket?_eq_none_iff.2 fun c hc => (hchars c hc).2.2]
      exact .inr (by simp)
    · have hsame : trim text = text := Except.ok.inj htext
      exact hphrase rfl text (by rw [hsame])

/-- A task whose line, written in a style, is read as it was meant: nothing is read in its
content, its metadata can be written in that style, and the pieces of the line are the pieces
of its parts. -/
structure IsLegible (today : Date) (style : Style) (task : Task) : Prop where
  settled : Markup.IsSettled today task.content
  writable : IsWritable style task.metadata
  apart : style = .emoji → ∀ phrase, task.metadata.recurrence = some (.phrase phrase) →
    Markup.IsApart (Markup.protect task.content).text (Markup.protect phrase).text
  pieces : Markup.pieces (Markup.line task.content (items style task.metadata)) =
    Markup.lineParts task.content (items style task.metadata)
  plain : Markup.spans (Markup.pieces (Markup.line task.content (items style task.metadata))) = [] ∨
    Markup.openMark ∉ Markup.line task.content (items style task.metadata)
  count : (Markup.spans
    (Markup.pieces (Markup.line task.content (items style task.metadata)))).length ≤ 10 ^ digitLimit
  budget : ∀ consumed, Markup.consumeAll (Markup.grammars .standard today)
    Settings.standard.metadataLimit (Markup.protect task.content).text =
    .ok consumed → (items style task.metadata).length ≤ consumed.left

theorem IsLegible.isLine {task : Task} (h : IsLegible today style task)
    (hline : task.metadata.IsOfLine) :
    Markup.IsLine today task.content (items style task.metadata) where
  settled := h.settled
  readable := isReadable_items hline h.writable
  kinds := kinds_items
  slots := nodup_slots hline
  apart := by
    intro item hitem hslot number
    obtain ⟨recurrence, hrecurrence, rfl⟩ := eq_recurrenceItem hitem hslot
    exact isApart_recurrenceItem (hline.recurrence recurrence hrecurrence)
      (fun hstyle phrase hphrase => h.apart hstyle phrase (hphrase ▸ hrecurrence)) number
  pieces := h.pieces
  plain := h.plain
  count := h.count
  budget := h.budget

end Task
end Checklist
