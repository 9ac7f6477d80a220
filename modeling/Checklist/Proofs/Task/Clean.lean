import Checklist.Proofs.Markup.Flat
import Checklist.Proofs.Note.Lead
import Checklist.Proofs.Task.RoundTrip

/-! # Records that can be written in brackets

A record need not come from a line. It is clean if its content holds nothing that could be read as
markup, and its values nothing that could end the brackets around them. Main statement: a clean task
is read from the line that it is written as with inline fields, unless its own line had so many line
feeds in its indent that the limit is used up above the task (`exists_again_of_isClean`). -/

namespace Checklist
set_option autoImplicit false
open Text

/-! ## Clean records -/

/-- What can stand in brackets: a text on one line, with no blanks around it, and without brackets
and backticks. -/
structure IsPlainValue (value : Text) : Prop where
  trimmed : IsTrimmed value
  chars : ∀ c ∈ value, c ∉ ['\n', '[', ']', '\x60']

/-- What can stand behind a hash sign and names no field before a slash. -/
structure IsPlainTagName (tag : Text) : Prop where
  body : ∀ c ∈ tag, Markup.isTagBody c = true
  name : Markup.isTagName tag = true
  unfiled : ∀ key value, tag = key ++ '/' :: value →
    lower key ∈ ["project".toList, "area".toList, "context".toList] → value = []

/-- A key that the author can choose. -/
structure IsOwnKey (key : Text) : Prop where
  plain : IsPlainValue key
  colon : ':' ∉ key
  tags : key ≠ "tags".toList
  field : Field.ofKey? key = none

/-- Metadata with plain values, of which nothing is inherited. -/
structure Metadata.IsClean (metadata : Metadata) : Prop where
  tags : metadata.tags.Nodup
  tagNames : ∀ tag ∈ metadata.tags, IsPlainTagName tag
  project : ∀ name, metadata.project = some name → IsPlainValue name
  area : ∀ name, metadata.area = some name → IsPlainValue name
  context : ∀ name, metadata.context = some name → IsPlainValue name
  custom : ∃ entries : Table Text,
    metadata.custom = entries.map (fun entry => (.str entry.1, .str entry.2)) ∧
    (entries.map (·.1)).Nodup ∧ ∀ entry ∈ entries, IsOwnKey entry.1 ∧ IsPlainValue entry.2
  priority : ∀ level, metadata.priority = some level → 1 ≤ level ∧ level ≤ 5
  recurrence : ∀ recurrence, metadata.recurrence = some recurrence →
    (∃ rule, recurrence = .rule rule) ∧ ∃ phrase, Recurrence.parse phrase = .ok (some recurrence)
  dates : ∀ field timestamp, metadata.dates.get field = some timestamp →
    ∃ moment : Moment, moment.micro = 0 ∧ 1000 ≤ moment.date.year ∧
      timestamp = moment.seconds * 1000
  inherited : metadata.inherited = []

/-- A task with a content that is no markup, clean metadata, and a checkbox and a list marker as
they can stand on a line. -/
structure Task.IsClean (task : Task) : Prop where
  content : squeeze task.content = task.content
  contentChars : ∀ c ∈ task.content,
    c ∉ ['[', ']', '\x60', '#', '@', Markup.openMark, Markup.closeMark]
  contentSymbols : ∀ entry ∈ defaultSymbols, ¬entry.1 <:+: task.content
  metadata : task.metadata.IsClean
  status : ∃ c, task.status = [c] ∧ c ≠ '\n'
  marker : Line.marker? task.marker = some (task.marker, [])
  count : ∀ pieces, Task.pieces task.metadata .dataview = .ok pieces →
    pieces.length ≤ Settings.standard.metadataLimit

/-- Metadata without what no line says: the heading above it, and a project found elsewhere. -/
def Metadata.written (metadata : Metadata) : Metadata :=
  { metadata with heading := none, inferred := none }

/-! ## Clean metadata comes from a line -/

theorem IsPlainValue.isName {value : Text} (h : IsPlainValue value) : IsName value :=
  ⟨h.trimmed, fun hmem => h.chars _ hmem (by decide)⟩

theorem IsPlainValue.isInner {value : Text} (h : IsPlainValue value) :
    ∀ c ∈ value, Markup.isInner c = true ∧ c ≠ '\x60' := by
  intro c hc
  have hno := h.chars c hc
  simp only [List.mem_cons, List.not_mem_nil, or_false, not_or] at hno
  exact ⟨by simp [Markup.isInner, hno], hno.2.2.2⟩

theorem IsOwnKey.slot {key : Text} (h : IsOwnKey key) :
    Markup.inlineSlot .standard key = .custom key := by
  have hkeys : ∀ name ∈ ["project".toList, "area".toList, "context".toList],
      ((Field.words.lookup name).or
      ((Field.all.erase .tags).find? fun field => lower field.name == name)).isSome =
      true := by decide +kernel
  have hlookup : Settings.standard.tagKeys.lookup (lower key) = none := by
    rw [List.lookup_eq_none_iff]
    intro entry hentry
    rw [bne_iff_ne]
    intro heq
    have hname : lower key ∈ ["project".toList, "area".toList, "context".toList] := by
      obtain ⟨name, hname, rfl⟩ := List.mem_map.1 hentry
      exact heq ▸ hname
    have hfield := h.field
    rw [Field.ofKey?] at hfield
    exact absurd (hkeys _ hname) (by simp [hfield])
  have hname : Field.ofName? key = none := by
    rw [Option.eq_none_iff_forall_ne_some]
    intro field hfield
    obtain rfl := Field.ofName?_eq_some_iff.1 hfield
    have hall : ∀ field : Field, field ≠ .tags → Field.ofKey? field.name ≠ none := by
      intro field hne
      cases field with
      | date kind => cases kind <;> decide +kernel
      | tags => exact absurd rfl hne
      | priority | project | context | area | recurrence => decide +kernel
    exact hall field (fun htags => h.tags (by rw [htags]; rfl)) h.field
  rw [Markup.inlineSlot, h.field, hlookup, Slot.ofName, hname]

theorem IsOwnKey.isCustom {key value : Text} (h : IsOwnKey key) (hvalue : IsPlainValue value) :
    IsCustom key value := by
  refine ⟨⟨h.plain.trimmed.ne_nil, fun c hc => ?_⟩, h.plain.isName, h.slot, hvalue.isName⟩
  have hcolon : c ≠ ':' := fun heq => h.colon (heq ▸ hc)
  simp [(h.plain.isInner c hc).1, hcolon]

theorem Recurrence.isRestated_of_rule {recurrence : Recurrence}
    (hrule : ∃ rule, recurrence = .rule rule) {phrase : Text}
    (h : parse phrase = .ok (some recurrence)) : recurrence.IsRestated ∧
      ∃ text, recurrence.text = .ok text ∧ ∀ c ∈ text, c = ' ' ∨ c.isAlphanum = true := by
  obtain ⟨text, htext, hparse, htrimmed⟩ := parse_text h
  rcases isPhrase_of_parse h with ⟨words, rule, hwords, rfl⟩ | ⟨rfl, -⟩
  · obtain rfl := Except.ok.inj (hwords.phrase_eq.symm.trans htext)
    refine ⟨⟨_, htext, hparse, htrimmed, fun hmem => ?_⟩, _, htext, hwords.forall_char⟩
    rcases hwords.forall_char _ hmem with hspace | hletter
    · exact absurd hspace (by decide)
    · exact absurd hletter (by decide)
  · obtain ⟨rule, hrule⟩ := hrule
    cases hrule

namespace Metadata

variable {metadata : Metadata}

theorem IsPlainTagName.isName {tag : Text} (h : IsPlainTagName tag) : IsName tag := by
  have hblank : ∀ c ∈ tag, isBlank c = false :=
    fun c hc => Markup.isBlank_of_isTagBody (h.body c hc)
  exact ⟨isTrimmed_of_forall (Markup.ne_nil_of_isTagName h.name) hblank,
    fun hmem => absurd (hblank _ hmem) (by decide)⟩

theorem IsClean.isOfLine (h : metadata.IsClean) : metadata.written.IsOfLine where
  dates field timestamp htimestamp := by
    obtain ⟨moment, hwhole, hyear, rfl⟩ := h.dates field timestamp htimestamp
    exact ⟨moment, hwhole, Date.number_ne_zero hyear, rfl⟩
  priority := h.priority
  recurrence recurrence hrecurrence := by
    obtain ⟨hrule, phrase, hparse⟩ := h.recurrence recurrence hrecurrence
    exact (Recurrence.isRestated_of_rule hrule hparse).1
  project name hname := (h.project name hname).isName
  area name hname := (h.area name hname).isName
  context name hname := (h.context name hname).isName
  tags := h.tags
  tagNames tag htag := IsPlainTagName.isName (h.tagNames tag htag)
  custom := by
    obtain ⟨entries, hentries, hkeys, hown⟩ := h.custom
    exact ⟨entries, hentries, hkeys,
      fun entry hentry => (hown entry hentry).1.isCustom (hown entry hentry).2⟩
  heading := rfl
  inferred := rfl
  inherited := h.inherited

theorem IsClean.hasLongYears (h : metadata.IsClean) : Task.HasLongYears metadata.written := by
  intro field timestamp moment htimestamp hmoment
  obtain ⟨found, hwhole, hyear, rfl⟩ := h.dates field timestamp htimestamp
  rw [Moment.ofTimestamp_seconds hwhole (Date.number_ne_zero hyear)] at hmoment
  cases hmoment
  exact hyear

end Metadata

namespace Task

variable {metadata : Metadata} {today : Date} {task : Task}

/-! ## Clean items are flat -/

theorem bracketed_of_isClean (h : metadata.IsClean) {item : Markup.Item}
    (hitem : item ∈ items .dataview metadata.written) :
    (∃ tag ∈ metadata.tags, item = tagItem tag) ∨ ∃ slot key value,
      item = inlineItem slot key value ∧
      (∀ c ∈ key, Markup.isInner c = true ∧ c ≠ '\x60') ∧ ∀ c ∈ value,
        Markup.isInner c = true ∧ c ≠ '\x60' := by
  have hsolid : ∀ {c : Char}, Markup.isInner c = true ∧ Markup.isOpener c = false →
      Markup.isInner c = true ∧ c ≠ '\x60' := by
    rintro c ⟨hinner, hopener⟩
    refine ⟨hinner, ?_⟩
    rintro rfl
    exact absurd hopener (by decide)
  have hfiled : ∀ {field : Field} {name : Text}, isFiled field →
      IsPlainValue name → ∃ slot key value,
      filedItem .dataview field name = inlineItem slot key value ∧
        (∀ c ∈ key, Markup.isInner c = true ∧ c ≠ '\x60') ∧ ∀ c ∈ value,
            Markup.isInner c = true ∧ c ≠ '\x60' := by
    intro field name hfield hname
    refine ⟨_, _, _, rfl, ?_, hname.isInner⟩
    rcases hfield with rfl | rfl | rfl <;> decide
  cases mem_items_iff.1 hitem with
  | tag htag => exact .inl ⟨_, htag, rfl⟩
  | project hname => exact .inr (hfiled (.inl rfl) (h.project _ hname))
  | area hname => exact .inr (hfiled (.inr (.inl rfl)) (h.area _ hname))
  | context hname => exact .inr (hfiled (.inr (.inr rfl)) (h.context _ hname))
  | level hlevel =>
    obtain ⟨name, hname, -, hchars, -⟩ := exists_levelName (h.priority _ hlevel)
    refine .inr ⟨_, _, _, rfl, by decide, ?_⟩
    rw [hname]
    exact fun c hc => hsolid ⟨(hchars c hc).2.1, (hchars c hc).1⟩
  | recurrence hrecurrence =>
    obtain ⟨hrule, phrase, hparse⟩ := h.recurrence _ hrecurrence
    obtain ⟨-, text, htext, hchars⟩ := Recurrence.isRestated_of_rule hrule hparse
    refine .inr ⟨_, _, _, rfl, by decide, ?_⟩
    rw [htext]
    exact fun c hc => hsolid (isPlain_of_isAlphanum (hchars c hc)).2.symm
  | @date field key timestamp hkey hdate =>
    obtain ⟨moment, -, -, -, htext⟩ := exists_timestampText h.isOfLine h.hasLongYears hdate
    have hkeys : ∀ entry ∈ dateOrder, ∀ c ∈ entry.2, Markup.isInner c = true ∧
        c ≠ '\x60' := by decide
    refine .inr ⟨_, _, _, rfl, hkeys _ hkey, ?_⟩
    rw [htext]
    exact DateText.forall_char_of_date (by decide) 4 moment
  | custom hentry =>
    obtain ⟨entries, hentries, -, hown⟩ := h.custom
    obtain ⟨found, hfound, rfl⟩ := List.mem_map.1 (hentries ▸ hentry : _ ∈ entries.map _)
    exact .inr ⟨_, _, _, rfl, (hown found hfound).1.plain.isInner, (hown found hfound).2.isInner⟩

theorem isFlat_of_isClean (h : metadata.IsClean) : ∀ item ∈ items .dataview metadata.written,
    Markup.IsFlat item.text := by
  intro item hitem
  rcases bracketed_of_isClean h hitem with ⟨tag, htag, rfl⟩ | ⟨slot, key, value, rfl, hkey, hvalue⟩
  · refine Markup.isFlat_of_forall fun c hc => ?_
    rcases List.mem_cons.1 (by simpa [tagItem, Markup.Item.text] using hc) with rfl | hc
    · decide
    · have hbody := (h.tagNames tag htag).body c hc
      refine ⟨Markup.isInner_of_isTagBody hbody, ?_⟩
      rintro rfl
      exact absurd hbody (by decide)
  · have hbracketed :=
        Markup.isFlat_bracketed (s := key ++ "::".toList ++ value) (by simp) fun c hc => by
      rcases List.mem_append.1 hc with hc | hc
      · rcases List.mem_append.1 hc with hc | hc
        · exact hkey c hc
        · have hcolons : ∀ c ∈ "::".toList, Markup.isInner c = true ∧ c ≠ '\x60' := by decide
          exact hcolons c hc
      · exact hvalue c hc
    simpa [inlineItem, Markup.Item.text] using hbracketed

/-! ## Clean tasks are legible -/

theorem pieces_of_isClean (h : metadata.IsClean) :
    Task.pieces metadata .dataview =
      .ok ((items .dataview metadata.written).map Markup.Item.text) := by
  have hwritten : Task.pieces metadata.written .dataview = Task.pieces metadata .dataview := rfl
  rw [← hwritten]
  exact pieces_eq h.isOfLine

theorem isPlainTag_of_isPlainTagName {tag : Text} (h : IsPlainTagName tag) : IsPlainTag tag := by
  refine ⟨h.body, h.name, ?_⟩
  unfold Markup.tagMeaning
  split
  · rename_i key value hcut
    split
    · rename_i name hlookup
      obtain ⟨before, after, hsplit, -⟩ := List.lookup_eq_some_iff.1 hlookup
      have hmem : (lower key, name) ∈ Settings.standard.tagKeys := by rw [hsplit]; simp
      obtain ⟨other, hother, heq⟩ := List.mem_map.1 hmem
      have hkey : lower key ∈ ["project".toList, "area".toList, "context".toList] :=
        (Prod.mk.inj heq).1 ▸ hother
      rw [if_pos (by simp [h.unfiled key value (cut_eq_iff.1 hcut).2 hkey])]
    · rfl
  · rfl

theorem isWritable_of_isClean (h : metadata.IsClean) : IsWritable .dataview metadata.written where
  tags tag htag := isPlainTag_of_isPlainTagName (h.tagNames tag htag)
  years := h.hasLongYears
  context := nofun
  phrase := nofun
  brackets item hitem hkind c hc := by
    rcases bracketed_of_isClean h hitem with ⟨tag, -, rfl⟩ | ⟨slot, key, value, rfl, -, hvalue⟩
    · cases hkind
    · exact (hvalue c (Markup.mem_of_plain hc)).1

theorem IsClean.isSign_eq_false (h : task.IsClean) :
    ∀ c ∈ task.content, Markup.isSign c = false := by
  intro c hc
  have hchars := h.contentChars c hc
  have hsymbol : c ∉ Markup.signs := by
    intro hsign
    have hsigns : ∀ c ∈ Markup.signs, ∃ entry ∈ defaultSymbols, entry.1 = [c] := by decide
    obtain ⟨entry, hentry, hone⟩ := hsigns c hsign
    obtain ⟨before, after, hsplit⟩ := List.append_of_mem hc
    exact h.contentSymbols entry hentry ⟨before, after, by rw [hone, hsplit]; simp⟩
  simp only [List.mem_cons, List.not_mem_nil, or_false, not_or] at hchars
  simp [Markup.isSign, hsymbol, hchars]

theorem IsClean.isFlat (h : task.IsClean) : Markup.IsFlat task.content := by
  refine Markup.isFlat_of_forall fun c hc => ?_
  have hchars := h.contentChars c hc
  simp only [List.mem_cons, List.not_mem_nil, or_false, not_or] at hchars
  exact ⟨by simp [Markup.isInner, hchars], hchars.2.2.1⟩

theorem IsClean.isLegible (h : task.IsClean) :
    ({ task with metadata := task.metadata.written } : Task).IsLegible today .dataview := by
  obtain ⟨hsettled, hconsume⟩ :=
    @Markup.isSettled_of_forall today _ h.content h.isFlat h.isSign_eq_false
  obtain ⟨hplain, hparts⟩ := Markup.pieces_line h.isFlat (isFlat_of_isClean h.metadata)
  have hspans : Markup.spans
      (Markup.pieces (Markup.line task.content (items .dataview task.metadata.written))) = [] := by
    rw [hplain, Markup.spans_plain]
  constructor
  case settled => exact hsettled
  case writable => exact isWritable_of_isClean h.metadata
  case apart => exact nofun
  case pieces => exact hparts
  case plain => exact .inl hspans
  case count =>
    show (Markup.spans
      (Markup.pieces (Markup.line task.content (items .dataview task.metadata.written)))).length ≤ _
    rw [hspans]
    exact Nat.zero_le _
  case budget =>
    intro consumed hconsumed
    obtain rfl := Except.ok.inj (hconsume.symm.trans hconsumed)
    have hcount := h.count _ (pieces_of_isClean h.metadata)
    rwa [List.length_map] at hcount

/-! ## Clean tasks are read as they are written -/

theorem isIndent_lead (task : Task) : ∀ c ∈ task.lead, Line.isIndent c = true := by
  unfold lead
  split
  · rename_i parts hparts
    obtain ⟨gap, rest, -, -, -, hindent, -⟩ := Line.exists_of_split? hparts
    exact hindent
  · intro c hc
    obtain rfl := List.eq_of_mem_replicate hc
    decide

theorem notMem_of_isMarker {marker : Text} (h : Line.IsMarker marker) : '\n' ∉ marker := by
  cases h with
  | bullet hc =>
    rw [List.mem_singleton]
    rintro rfl
    exact absurd hc (by decide)
  | number _ hdigits hc =>
    intro hmem
    rcases List.mem_append.1 hmem with hdigit | hend
    · exact absurd (hdigits _ hdigit) (by decide)
    · rw [List.mem_singleton] at hend
      subst hend
      exact absurd hc (by decide)

theorem IsClean.exists_parts (h : task.IsClean) : ∃ parts :
    TaskLine, parts.IsWellFormed ∧ parts.indent = [] ∧ parts.marker = task.marker ∧
    task.status = [parts.status] ∧
      parts.content = Markup.line task.content (items .dataview task.metadata.written) ∧
    task.render .dataview = .ok (task.lead ++ Line.render parts) := by
  obtain ⟨c, hstatus, hfeed⟩ := h.status
  obtain ⟨hmarker, -⟩ := Line.marker?_eq_some_iff.1 h.marker
  have hcontent : task.content = [] ∨ IsTrimmed task.content :=
    h.content ▸ squeeze_eq_nil_or task.content
  have hends : '\n' ∉ task.content :=
    h.content ▸ notMem_squeeze (by decide) (by decide) task.content
  obtain ⟨hline, hlineEnds⟩ :=
    isTrimmed_line hcontent hends (@isName_items .dataview _ h.metadata.isOfLine)
  refine ⟨⟨[], task.marker, c, Markup.line task.content (items .dataview task.metadata.written)⟩,
    ⟨by simp, hmarker, hline, ?_⟩, rfl, rfl, hstatus, rfl, ?_⟩
  · exact Line.notMem_render_iff.2
      ⟨List.not_mem_nil, notMem_of_isMarker hmarker, by decide, by simpa using Ne.symm hfeed,
      Line.notMem_contentText hlineEnds⟩
  · refine Result.bind_eq_ok.2 ⟨_, pieces_of_isClean h.metadata, ?_⟩
    simp [Line.render, Markup.line, hstatus, pure, Except.pure]

/-- A clean task is read from the line that it is written as, unless there are so many line feeds in
its indent that the limit is used up above it. -/
theorem exists_again_of_isClean (h : task.IsClean)
    (hlead : task.lead.count '\n' < Settings.standard.lineLimit) :
    ∃ line, task.render .dataview = .ok line ∧ ∀ path number, ∃ again,
      Note.task? .standard today path number line = .ok (some again) ∧
      again.content = task.content ∧ again.status = task.status ∧ again.marker = task.marker ∧
        again.metadata = task.metadata.written := by
  obtain ⟨parts, hparts, hindent, hmarker, hstatus, hcontent, hrender⟩ := h.exists_parts
  refine ⟨_, hrender, fun path number => ?_⟩
  obtain ⟨last, hwell, hfound⟩ :=
    @Note.found_below .standard path _ hparts hindent _ task.isIndent_lead
  rw [if_pos hlead] at hfound
  obtain ⟨said, hextract, hsays⟩ :=
    Markup.exists_extraction ((@IsClean.isLegible today _ h).isLine h.metadata.isOfLine)
  have hmetadata : Note.lineMetadata today none said = .ok task.metadata.written :=
    lineMetadata_of_says h.metadata.isOfLine h.metadata.hasLongYears hsays
  obtain ⟨again, hagain, hread⟩ :=
    @Note.exists_isReadFrom_of_found today path number _ _ _ _ hfound hwell.line
      rfl (hcontent ▸ hextract) hmetadata
  exact ⟨again, hagain, by rw [hread.content, hsays.content], by rw [hread.status, hstatus],
    by rw [hread.marker, hmarker], Except.ok.inj (hread.metadata.symm.trans hmetadata)⟩

theorem IsClean.withLine (h : task.IsClean) (lineText : Text) :
    ({ task with lineText := lineText } : Task).IsClean :=
  ⟨h.content, h.contentChars, h.contentSymbols, h.metadata, h.status, h.marker, h.count⟩

/-- A task to pay the rent, with a value of nearly every kind. -/
def rent : Task where
  id := []
  path := []
  line := 0
  content := "Pay rent".toList
  status := ['/']
  category := .inProgress
  lineText := []
  metadata := {
    dates := { due := some 1705276800000 }
    priority := some 5
    project := some "Flat #2".toList
    tags := ["bills".toList, "a/b".toList]
    recurrence := some (.rule ⟨.month, 1, none, false⟩)
    custom := [(.str "n".toList, .str "1:2".toList)] }

theorem isClean_rent : rent.IsClean := by
  have hvalue : ∀ value ∈ ["Flat #2".toList, "n".toList, "1:2".toList], IsPlainValue value := by
    intro value hvalue
    have hends : value ≠ [] ∧ (value.head?.all fun c => !isBlank c) = true ∧
        (value.getLast?.all fun c => !isBlank c) = true ∧
        ∀ c ∈ value, c ∉ ['\n', '[', ']', '\x60'] := by
      revert value
      decide
    obtain ⟨hne, hhead, hlast, hchars⟩ := hends
    exact ⟨⟨hne, fun c hc => by simpa [hc] using hhead, fun c hc => by simpa [hc] using hlast⟩, hchars⟩
  constructor
  case content => decide
  case contentChars => decide
  case contentSymbols => decide
  case status => exact ⟨'/', rfl, by decide⟩
  case marker => rfl
  case count =>
    intro pieces hpieces
    have hlength : (Task.pieces rent.metadata .dataview).toOption.map List.length =
        some 7 := by decide +kernel
    rw [hpieces] at hlength
    obtain hlength : pieces.length = 7 := Option.some.inj hlength
    rw [hlength]
    decide
  case metadata =>
    constructor
    case tags => decide
    case tagNames =>
      intro tag htag
      have hread : (∀ c ∈ tag, Markup.isTagBody c = true) ∧ Markup.isTagName tag = true ∧
          lower (cut '/' tag).1 ∉ ["project".toList, "area".toList, "context".toList] := by
        revert tag
        decide +kernel
      obtain ⟨hbody, hname, hfiled⟩ := hread
      refine ⟨hbody, hname, ?_⟩
      rintro key value rfl hkey
      have hslash : '/' ∉ key := by
        intro hmem
        have hnone : ∀ name ∈ ["project".toList, "area".toList, "context".toList],
            lowerChar '/' ∉ name := by decide +kernel
        exact hnone _ hkey (mem_lower (by decide) (by decide) hmem)
      rw [cut_append hslash] at hfiled
      exact absurd hkey hfiled
    case project =>
      rintro name ⟨⟩
      exact hvalue _ (by decide)
    case area => exact nofun
    case context => exact nofun
    case custom =>
      refine ⟨[("n".toList, "1:2".toList)], rfl, by decide, fun entry hentry => ?_⟩
      obtain rfl := List.mem_singleton.1 hentry
      exact ⟨⟨hvalue _ (by decide), by decide, by decide, by decide +kernel⟩, hvalue _ (by decide)⟩
    case priority =>
      rintro level ⟨⟩
      decide
    case recurrence =>
      rintro recurrence ⟨⟩
      exact ⟨⟨_, rfl⟩, "every month".toList, by decide +kernel⟩
    case dates =>
      intro field timestamp htimestamp
      cases field with
      | due =>
        cases htimestamp
        exact ⟨.ofDate ⟨2024, 1, 15, rfl⟩, rfl, by decide, by decide +kernel⟩
      | start | scheduled | completed | created => cases htimestamp
    case inherited => rfl

theorem exists_again_rent : ∃ line, rent.render .dataview = .ok line ∧
    ∀ path number, ∃ again, Note.task? .standard ⟨2024, 3, 13, rfl⟩ path number line =
      .ok (some again) ∧ again.content = "Pay rent".toList ∧
      again.status = ['/'] ∧ again.marker = ['-'] ∧ again.metadata = rent.metadata.written :=
  exists_again_of_isClean isClean_rent (by decide)

/-- Below as many line feeds as lines are read the task is not found. -/
theorem not_again_of_long_lead :
    let long : Task := { rent with lineText := List.replicate 4000 '\n' ++ "- [ ] Pay rent".toList }
    long.IsClean ∧ ∃ line, long.render .dataview = .ok line ∧
        Note.task? .standard ⟨2024, 3, 13, rfl⟩ [] 0 line = .ok none := by
  intro long
  have hclean : long.IsClean := isClean_rent.withLine _
  have hsplit : ∀ indent : Text, (∀ c ∈ indent, Line.isIndent c = true) →
      Line.split? (indent ++ "- [ ] Pay rent".toList) =
        some ⟨indent, ['-'], ' ', "Pay rent".toList⟩ := fun indent hindent =>
    @Line.split?_append indent ['-'] " Pay rent".toList ' ' ' ' hindent (.bullet (by decide))
      (by decide) (by decide) (by decide)
  have hlead : long.lead = List.replicate 4000 '\n' := by
    have hfeeds : ∀ c ∈ List.replicate 4000 '\n', Line.isIndent c = true :=
      fun c hc => List.eq_of_mem_replicate hc ▸ (by decide)
    rw [lead, hsplit _ hfeeds]
  obtain ⟨parts, hparts, hindent, -, -, -, hrender⟩ := hclean.exists_parts
  obtain ⟨last, -, hfound⟩ := @Note.found_below .standard [] _ hparts hindent _ long.isIndent_lead
  have hmany : ¬long.lead.count '\n' < Settings.standard.lineLimit := by
    rw [hlead, List.count_replicate_self]
    decide
  rw [if_neg hmany] at hfound
  have htasks : Note.tasks .standard ⟨2024, 3, 13, rfl⟩
      { path := [], content := long.lead ++ Line.render parts, header := some [] } = .ok [] := by
    generalize long.lead ++ Line.render parts = content at hfound ⊢
    unfold Note.tasks Note.lineTasks Note.outline
    rw [hfound]
    rfl
  exact ⟨hclean, _, hrender, Result.bind_eq_ok.2 ⟨_, htasks, rfl⟩⟩

end Task
end Checklist
