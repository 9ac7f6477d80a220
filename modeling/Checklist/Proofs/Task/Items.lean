import Checklist.Proofs.Markup.Item
import Checklist.Proofs.Recurrence
import Checklist.Task.Render

/-! # The items of a task

The metadata of a task is written as a list of items. Main statements: what the line of a task says
beside its content is the texts of these items (`pieces_eq`), and no two of them fill one slot
(`nodup_slots`). -/

namespace Checklist
set_option autoImplicit false
open Text

/-! ## Metadata that a line can have given -/

/-- The timestamp is a whole second of the calendar, and not of its first day. -/
def IsWholeSecond (timestamp : Int) : Prop :=
  ∃ moment : Moment, moment.micro = 0 ∧ moment.date.number ≠ 0 ∧ timestamp = moment.seconds * 1000

/-- The recurrence is read from its own text, which stands on one line. -/
def Recurrence.IsRestated (recurrence : Recurrence) : Prop :=
  ∃ text, recurrence.text = .ok text ∧ Recurrence.parse text = .ok (some recurrence) ∧
    IsTrimmed text ∧ '\n' ∉ text

/-- A name as it can stand on a line. -/
def IsName (name : Text) : Prop :=
  IsTrimmed name ∧ '\n' ∉ name

/-- A key of the author's own with its value. -/
structure IsCustom (key value : Text) : Prop where
  isKey : Markup.IsKey key
  isName : IsName key
  slot : Markup.inlineSlot .standard key = .custom key
  value : IsName value

/-- Metadata as the markup of a line gives it. -/
structure Metadata.IsOfLine (metadata : Metadata) : Prop where
  dates : ∀ field timestamp, metadata.dates.get field = some timestamp → IsWholeSecond timestamp
  priority : ∀ level, metadata.priority = some level → 1 ≤ level ∧ level ≤ 5
  recurrence : ∀ recurrence, metadata.recurrence = some recurrence → recurrence.IsRestated
  project : ∀ name, metadata.project = some name → IsName name
  area : ∀ name, metadata.area = some name → IsName name
  context : ∀ name, metadata.context = some name → IsName name
  tags : metadata.tags.Nodup
  tagNames : ∀ tag ∈ metadata.tags, IsName tag
  custom : ∃ entries : Table Text,
    metadata.custom = entries.map (fun entry => (.str entry.1, .str entry.2)) ∧
    (entries.map (·.1)).Nodup ∧ ∀ entry ∈ entries, IsCustom entry.1 entry.2
  heading : metadata.heading = none
  inferred : metadata.inferred = none
  inherited : metadata.inherited = []

namespace Task

/-! ## Items -/

def inlineItem (slot : Slot) (key value : Text) : Markup.Item :=
  ⟨.dataview, slot, '[' :: key ++ "::".toList, value, [']']⟩

def tagItem (tag : Text) : Markup.Item :=
  ⟨.tag, .field .tags, ['#'], tag, []⟩

/-- A project, an area or a context. -/
def filedItem (style : Style) (field : Field) (name : Text) : Markup.Item :=
  if style == .emoji && isPlain name then
    if field == .context then ⟨.context, .field .context, ['@'], name, []⟩
    else ⟨.tag, .field field, '#' :: (field.name ++ ['/']), name, []⟩
  else inlineItem (.field field) field.name name

def levelItem (style : Style) (level : Int) : Markup.Item :=
  match style with
  | .emoji => ⟨.emoji, .field .priority, [], (Priority.symbol? level).getD [], []⟩
  | .dataview => inlineItem (.field .priority) "priority".toList ((Priority.name? level).getD [])

def recurrenceItem (style : Style) (recurrence : Recurrence) : Markup.Item :=
  let phrase := recurrence.text.toOption.getD []
  match style with
  | .emoji => ⟨.emoji, .field .recurrence, symbolOf .recurrence ++ [' '], phrase, []⟩
  | .dataview => inlineItem (.field .recurrence) "repeat".toList phrase

def dateItem (style : Style) (field : DateField) (key : Text) (timestamp : Int) : Markup.Item :=
  let date := (Moment.timestampText timestamp).toOption.getD []
  match style with
  | .emoji => ⟨.emoji, .field (.date field), symbolOf (.date field) ++ [' '], date, []⟩
  | .dataview => inlineItem (.field (.date field)) key date

def customItem (entry : Value × Value) : Markup.Item :=
  inlineItem (.custom entry.1.display) entry.1.display entry.2.display

/-- The items of a task in the order in which they are written. -/
def items (style : Style) (metadata : Metadata) : List Markup.Item :=
  metadata.tags.map tagItem
    ++ metadata.project.toList.map (filedItem style .project)
    ++ metadata.area.toList.map (filedItem style .area)
    ++ metadata.context.toList.map (filedItem style .context)
    ++ metadata.priority.toList.map (levelItem style)
    ++ metadata.recurrence.toList.map (recurrenceItem style)
    ++ dateOrder.flatMap (fun entry =>
      (metadata.dates.get entry.1).toList.map (dateItem style entry.1 entry.2))
    ++ metadata.custom.map customItem

/-- Where an item comes from. -/
inductive IsItem (style : Style) (metadata : Metadata) : Markup.Item → Prop where
  | tag {tag : Text} (h : tag ∈ metadata.tags) : IsItem style metadata (tagItem tag)
  | project {name : Text} (h : metadata.project = some name) :
      IsItem style metadata (filedItem style .project name)
  | area {name : Text} (h : metadata.area = some name) :
      IsItem style metadata (filedItem style .area name)
  | context {name : Text} (h : metadata.context = some name) :
      IsItem style metadata (filedItem style .context name)
  | level {level : Int} (h : metadata.priority = some level) :
      IsItem style metadata (levelItem style level)
  | recurrence {recurrence : Recurrence} (h : metadata.recurrence = some recurrence) :
      IsItem style metadata (recurrenceItem style recurrence)
  | date {field : DateField} {key : Text} {timestamp : Int} (hkey : (field, key) ∈ dateOrder)
      (h : metadata.dates.get field = some timestamp) :
      IsItem style metadata (dateItem style field key timestamp)
  | custom {entry : Value × Value} (h : entry ∈ metadata.custom) :
      IsItem style metadata (customItem entry)

theorem mem_items_iff {style : Style} {metadata : Metadata} {item : Markup.Item} :
    item ∈ items style metadata ↔ IsItem style metadata item := by
  simp only [items, List.mem_append, List.mem_map, List.mem_flatMap, Option.mem_toList]
  constructor
  · rintro (((((((⟨tag, h, rfl⟩ | ⟨name, h, rfl⟩) | ⟨name, h, rfl⟩) | ⟨name, h, rfl⟩) |
      ⟨level, h, rfl⟩) | ⟨recurrence, h, rfl⟩) |
      ⟨entry, hkey, timestamp, h, rfl⟩) | ⟨entry, h, rfl⟩)
    · exact .tag h
    · exact .project h
    · exact .area h
    · exact .context h
    · exact .level h
    · exact .recurrence h
    · exact .date hkey h
    · exact .custom h
  · intro h
    cases h with
    | tag h => exact .inl (.inl (.inl (.inl (.inl (.inl (.inl ⟨_, h, rfl⟩))))))
    | project h => exact .inl (.inl (.inl (.inl (.inl (.inl (.inr ⟨_, h, rfl⟩))))))
    | area h => exact .inl (.inl (.inl (.inl (.inl (.inr ⟨_, h, rfl⟩)))))
    | context h => exact .inl (.inl (.inl (.inl (.inr ⟨_, h, rfl⟩))))
    | level h => exact .inl (.inl (.inl (.inr ⟨_, h, rfl⟩)))
    | recurrence h => exact .inl (.inl (.inr ⟨_, h, rfl⟩))
    | date hkey h => exact .inl (.inr ⟨_, hkey, _, h, rfl⟩)
    | custom h => exact .inr ⟨_, h, rfl⟩

/-! ## What is written -/

variable {style : Style} {metadata : Metadata}

theorem mapM_eq_map {α : Type} {xs : List α} {write : α → Except Failure Text}
    {item : α → Markup.Item} (h : ∀ x ∈ xs, write x = .ok (item x).text) :
    xs.mapM write = .ok ((xs.map item).map Markup.Item.text) := by
  rw [Result.mapM_eq_ok]
  induction xs with
  | nil => exact .nil
  | cons x xs ih =>
    exact .cons (h x List.mem_cons_self) (ih fun y hy => h y (List.mem_cons_of_mem _ hy))

theorem levelText_eq {level : Int} (h : 1 ≤ level ∧ level ≤ 5) :
    levelText style level = .ok (levelItem style level).text := by
  have hlevel : level = 1 ∨ level = 2 ∨ level = 3 ∨ level = 4 ∨ level = 5 := by omega
  rcases hlevel with rfl | rfl | rfl | rfl | rfl <;> cases style <;> decide

theorem recurrenceText_eq {recurrence : Recurrence} (h : recurrence.IsRestated) :
    recurrenceText style recurrence = .ok (recurrenceItem style recurrence).text := by
  obtain ⟨text, htext, -⟩ := h
  cases style <;>
    simp [recurrenceText, recurrenceItem, htext, Markup.Item.text, inlineItem, inlineField,
      Except.toOption, bind, Except.bind, pure, Except.pure]

theorem dateText_eq {field : DateField} {key : Text} {timestamp : Int} {text : Text}
    (h : Moment.timestampText timestamp = .ok text) :
    dateText style field key timestamp = .ok (dateItem style field key timestamp).text := by
  cases style <;>
    simp [dateText, dateItem, h, Markup.Item.text, inlineItem, inlineField, Except.toOption, bind,
      Except.bind, pure, Except.pure]

theorem tagged_eq (field : Field) (name : Text) :
    tagged style field name = (filedItem style field name).text := by
  unfold tagged filedItem
  split
  · split <;> simp [Markup.Item.text]
  · simp [Markup.Item.text, inlineItem, inlineField]

theorem customText_eq (key value : Text) :
    customText (.str key, .str value) = .ok (customItem (.str key, .str value)).text := by
  have hwritten : ∀ s : Text, (Value.str s).written = .ok s := fun s => rfl
  simp [customText, hwritten, customItem, Value.display, Markup.Item.text, inlineItem, inlineField,
    bind, Except.bind, pure, Except.pure]

/-- The day of every date has a year of four digits. -/
def HasLongYears (metadata : Metadata) : Prop :=
  ∀ field timestamp moment, metadata.dates.get field = some timestamp →
    Moment.ofTimestamp timestamp = .ok moment → 1000 ≤ moment.date.year

theorem exists_timestampText (h : metadata.IsOfLine) (hyears : HasLongYears metadata)
    {field : DateField} {timestamp : Int}
    (hdate : metadata.dates.get field = some timestamp) : ∃ moment :
    Moment, moment.micro = 0 ∧ moment.date.number ≠ 0 ∧
      timestamp = moment.seconds * 1000 ∧
        Moment.timestampText timestamp = .ok (moment.date.text ++ DateText.clockText moment) := by
  obtain ⟨moment, hwhole, hfirst, rfl⟩ := h.dates field timestamp hdate
  have hyear := hyears field _ moment hdate (Moment.ofTimestamp_seconds hwhole hfirst)
  refine ⟨moment, hwhole, hfirst, rfl, ?_⟩
  rw [DateText.timestampText_seconds hwhole hfirst, DateText.textWith_one hyear]

theorem authored_eq {α : Type} (h : metadata.inherited = []) (field : Field) (value : Option α) :
    metadata.authored field value = value := by
  simp [Metadata.authored, Metadata.inherits, h]

theorem mapM_dateText (h : metadata.IsOfLine) :
    (dateOrder.mapM fun entry =>
      (metadata.dates.get entry.1).toList.mapM (dateText style entry.1 entry.2)) =
      .ok (dateOrder.map fun entry =>
        ((metadata.dates.get entry.1).toList.map (dateItem style entry.1 entry.2)).map
          Markup.Item.text) := by
  have hdate : ∀ entry : DateField × Text,
      (metadata.dates.get entry.1).toList.mapM (dateText style entry.1 entry.2) =
      .ok (((metadata.dates.get entry.1).toList.map (dateItem style entry.1 entry.2)).map
          Markup.Item.text) := by
    intro entry
    refine mapM_eq_map fun timestamp hmem => ?_
    obtain ⟨moment, hwhole, hfirst, rfl⟩ := h.dates entry.1 timestamp (by simpa using hmem)
    exact dateText_eq (DateText.timestampText_seconds hwhole hfirst)
  rw [Result.mapM_eq_ok]
  induction dateOrder with
  | nil => exact .nil
  | cons entry rest ih => exact .cons (hdate entry) ih

theorem mapM_customText (h : metadata.IsOfLine) : metadata.custom.mapM customText =
    .ok ((metadata.custom.map customItem).map Markup.Item.text) := by
  refine mapM_eq_map fun entry hentry => ?_
  obtain ⟨entries, hentries, -⟩ := h.custom
  rw [hentries] at hentry
  obtain ⟨found, -, rfl⟩ := List.mem_map.1 hentry
  exact customText_eq found.1 found.2

/-- What is written behind the content is the texts of the items. -/
theorem pieces_eq (h : metadata.IsOfLine) :
    pieces metadata style = .ok ((items style metadata).map Markup.Item.text) := by
  have hlevel : metadata.priority.toList.mapM (levelText style) =
      .ok ((metadata.priority.toList.map (levelItem style)).map Markup.Item.text) :=
    mapM_eq_map fun level hlevel => levelText_eq (h.priority level (by simpa using hlevel))
  have hrecurrence : metadata.recurrence.toList.mapM (recurrenceText style) =
      .ok ((metadata.recurrence.toList.map (recurrenceItem style)).map Markup.Item.text) :=
    mapM_eq_map fun recurrence hmem =>
      recurrenceText_eq (h.recurrence recurrence (by simpa using hmem))
  have hown : (metadata.custom.filter fun entry => !metadata.inherits entry.1) =
      metadata.custom := by
    simp [Metadata.inherits, h.inherited]
  have hdates :
      (dateOrder.map fun entry =>
        ((metadata.dates.get entry.1).toList.map (dateItem style entry.1 entry.2)).map
          Markup.Item.text).flatten =
      (dateOrder.flatMap fun entry => (metadata.dates.get entry.1).toList.map
          (dateItem style entry.1 entry.2)).map Markup.Item.text := by
    rw [List.map_flatMap, List.flatMap]
  have htagged : ∀ field (name : Option Text), name.toList.map (tagged style field) =
      (name.toList.map (filedItem style field)).map Markup.Item.text := by
    intro field name
    rw [List.map_map]
    exact List.map_congr_left fun name _ => tagged_eq field name
  have htags : metadata.tags.map ('#' :: ·) = (metadata.tags.map tagItem).map Markup.Item.text := by
    rw [List.map_map]
    refine List.map_congr_left fun tag _ => ?_
    simp [Markup.Item.text, tagItem]
  unfold pieces
  simp only [authored_eq h.inherited, hown]
  rw [hlevel, hrecurrence, mapM_dateText h, mapM_customText h]
  simp only [bind, Except.bind, pure, Except.pure, hdates, htags, htagged, items, List.map_append]

/-! ## Items lie on a line -/

theorem isName_append {c : Char} {middle value : Text} (hc : isBlank c = false)
    (hmiddle : '\n' ∉ middle) (hvalue : IsName value) :
    IsName (c :: middle ++ value) := by
  have hfirst : IsTrimmed [c] := isTrimmed_of_forall (by simp) (by simpa using hc)
  refine ⟨hfirst.append hvalue.1 middle, fun hmem => ?_⟩
  rcases List.mem_append.1 hmem with hmem | hmem
  · rcases List.mem_cons.1 hmem with rfl | hmem
    · exact absurd hc (by decide)
    · exact hmiddle hmem
  · exact hvalue.2 hmem

theorem isName_inlineItem {slot : Slot} {key value : Text} (hkey : '\n' ∉ key)
    (hvalue : '\n' ∉ value) : IsName (inlineItem slot key value).text := by
  have hmiddle : '\n' ∉ key ++ "::".toList ++ value := by simp [hkey, hvalue]
  have hbracket : IsName [']'] := ⟨isTrimmed_of_forall (by simp) (by decide), by decide⟩
  have htext : (inlineItem slot key value).text = '[' :: (key ++ "::".toList ++ value) ++
      [']'] := by simp [inlineItem, Markup.Item.text]
  rw [htext]
  exact isName_append (by decide) hmiddle hbracket

theorem isName_filedItem {field : Field} {name : Text} (h : IsName name) :
    IsName (filedItem style field name).text := by
  have hfield : '\n' ∉ field.name := by
    cases field with
    | date kind => cases kind <;> decide
    | priority | project | context | area | recurrence | tags => decide
  unfold filedItem
  split
  · split
    · simpa [Markup.Item.text] using isName_append (c := '@') (by decide) List.not_mem_nil h
    · have hmiddle : '\n' ∉ field.name ++ ['/'] := by simpa using hfield
      simpa [Markup.Item.text] using isName_append (c := '#') (by decide) hmiddle h
  · exact isName_inlineItem hfield h.2

theorem isName_levelItem {level : Int} (h : 1 ≤ level ∧ level ≤ 5) :
    IsName (levelItem style level).text := by
  have hlevel : level = 1 ∨ level = 2 ∨ level = 3 ∨ level = 4 ∨ level = 5 := by omega
  cases style with
  | emoji =>
    rcases hlevel with rfl | rfl | rfl | rfl |
      rfl <;> exact ⟨isTrimmed_of_forall (by decide) (by decide), by decide⟩
  | dataview =>
    rcases hlevel with rfl | rfl | rfl | rfl |
      rfl <;> exact isName_inlineItem (by decide) (by decide)

theorem isName_recurrenceItem {recurrence : Recurrence} (h : recurrence.IsRestated) :
    IsName (recurrenceItem style recurrence).text := by
  obtain ⟨text, htext, -, htrimmed, hline⟩ := h
  have hvalue : recurrence.text.toOption.getD [] = text := by
    rw [htext]
    rfl
  cases style with
  | emoji =>
    have hsymbol : symbolOf .recurrence = ['🔁'] := by decide
    simpa [recurrenceItem, hvalue, hsymbol, Markup.Item.text] using @isName_append '🔁' [' '] text
      (by decide) (by decide) ⟨htrimmed, hline⟩
  | dataview =>
    rw [recurrenceItem, hvalue]
    exact isName_inlineItem (by decide) hline

theorem isName_dateItem {field : DateField} {key : Text} {timestamp : Int}
    (hkey : (field, key) ∈ dateOrder) (h : IsWholeSecond timestamp) :
    IsName (dateItem style field key timestamp).text := by
  obtain ⟨moment, hwhole, hfirst, rfl⟩ := h
  have hvalue : (Moment.timestampText (moment.seconds * 1000)).toOption.getD [] =
      moment.date.textWith 1 ++ DateText.clockText moment := by
    rw [DateText.timestampText_seconds hwhole hfirst]
    rfl
  have hline : '\n' ∉ moment.date.textWith 1 ++ DateText.clockText moment := fun hmem =>
    DateText.forall_char_of_date (P := (· ≠ '\n')) (by decide) 1 moment _ hmem rfl
  cases style with
  | emoji =>
    have hsymbol : ∃ symbol, symbolOf (.date field) = [symbol] ∧ isBlank symbol = false := by
      cases field <;> exact ⟨_, rfl, by decide⟩
    obtain ⟨symbol, hsymbol, hblank⟩ := hsymbol
    have hname :=
      @isName_append _ [' '] _ hblank (by decide) ⟨DateText.isTrimmed_textWith 1 moment, hline⟩
    simpa [dateItem, hvalue, hsymbol, Markup.Item.text] using hname
  | dataview =>
    have hkeys : ∀ entry ∈ dateOrder, '\n' ∉ entry.2 := by decide
    rw [dateItem, hvalue]
    exact isName_inlineItem (hkeys _ hkey) hline

theorem isName_items (h : metadata.IsOfLine) : ∀ item ∈ items style metadata, IsName item.text := by
  intro item hitem
  cases mem_items_iff.1 hitem with
  | @tag tag htag =>
    simpa [tagItem, Markup.Item.text] using isName_append (c := '#') (by decide)
      List.not_mem_nil (h.tagNames tag htag)
  | project hname => exact isName_filedItem (h.project _ hname)
  | area hname => exact isName_filedItem (h.area _ hname)
  | context hname => exact isName_filedItem (h.context _ hname)
  | level hlevel => exact isName_levelItem (h.priority _ hlevel)
  | recurrence hrecurrence => exact isName_recurrenceItem (h.recurrence _ hrecurrence)
  | date hkey hdate => exact isName_dateItem hkey (h.dates _ _ hdate)
  | custom hentry =>
    obtain ⟨entries, hentries, -, hown⟩ := h.custom
    rw [hentries] at hentry
    obtain ⟨found, hfound, rfl⟩ := List.mem_map.1 hentry
    exact isName_inlineItem (hown found hfound).isName.2 (hown found hfound).value.2

/-! ## Every item has a slot of its own -/

/-- The slots that a line fills but for plain tags and keys of the author's own. -/
def lineSlots : List Slot :=
  [.field .project, .field .area, .field .context, .field .priority, .field .recurrence] ++
    dateOrder.map fun entry => .field (.date entry.1)

theorem slot_filedItem (style : Style) (field : Field) (name : Text) :
    (filedItem style field name).slot = .field field := by
  unfold filedItem
  split
  · split
    · rename_i hfield
      rw [beq_iff_eq.1 hfield]
    · rfl
  · rfl

theorem slot_levelItem (style : Style) (level : Int) :
    (levelItem style level).slot = .field .priority := by
  cases style <;> rfl

theorem slot_recurrenceItem (style : Style) (recurrence : Recurrence) :
    (recurrenceItem style recurrence).slot = .field .recurrence := by
  cases style <;> rfl

theorem slot_dateItem (style : Style) (field : DateField) (key : Text) (timestamp : Int) :
    (dateItem style field key timestamp).slot = .field (.date field) := by
  cases style <;> rfl

theorem slots_items (style : Style) (metadata : Metadata) :
    ((items style metadata).filter (·.slot != .field .tags)).map (·.slot) =
      (metadata.project.toList.map fun _ => .field .project) ++
        (metadata.area.toList.map fun _ => .field .area)
        ++ (metadata.context.toList.map fun _ => .field .context) ++
          (metadata.priority.toList.map fun _ => .field .priority)
        ++ (metadata.recurrence.toList.map fun _ => .field .recurrence)
        ++ (dateOrder.flatMap fun entry => (metadata.dates.get entry.1).toList.map fun _ =>
          .field (.date entry.1))
        ++ metadata.custom.map fun entry => .custom entry.1.display := by
  have htags : (metadata.tags.map tagItem).filter (·.slot != .field .tags) = [] := by
    simp [List.filter_eq_nil_iff, tagItem]
  have hkept : ∀ {α : Type} (xs : List α) (item : α → Markup.Item) (slot : α → Slot),
      (∀ x, (item x).slot = slot x) →
      (∀ x, slot x ≠ .field .tags) →
          ((xs.map item).filter (·.slot != .field .tags)).map (·.slot) = xs.map slot := by
    intro α xs item slot hslot hne
    have hall : (xs.map item).filter (·.slot != .field .tags) = xs.map item := by
      refine List.filter_eq_self.2 fun found hfound => ?_
      obtain ⟨x, -, rfl⟩ := List.mem_map.1 hfound
      simpa [hslot] using hne x
    rw [hall, List.map_map]
    exact List.map_congr_left fun x _ => hslot x
  have hdates :
      ((dateOrder.flatMap fun entry =>
        (metadata.dates.get entry.1).toList.map (dateItem style entry.1 entry.2)).filter
      (·.slot != .field .tags)).map (·.slot) =
        dateOrder.flatMap fun entry => (metadata.dates.get entry.1).toList.map fun _ =>
            .field (.date entry.1) := by
    rw [List.filter_flatMap, List.map_flatMap]
    refine List.flatMap_congr fun entry _ => ?_
    exact hkept _ _ _ (fun timestamp => slot_dateItem _ _ _ _) fun _ => nofun
  unfold items
  simp only [List.filter_append, List.map_append, htags, List.nil_append, hdates]
  rw [hkept _ _ (fun _ => .field .project) (slot_filedItem style .project) fun _ => nofun,
    hkept _ _ (fun _ => .field .area) (slot_filedItem style .area) fun _ => nofun,
    hkept _ _ (fun _ => .field .context) (slot_filedItem style .context) fun _ => nofun,
    hkept _ _ (fun _ => .field .priority) (slot_levelItem style) fun _ => nofun,
    hkept _ _ (fun _ => .field .recurrence) (slot_recurrenceItem style) fun _ => nofun,
    hkept _ customItem (fun entry => .custom entry.1.display) (fun _ => rfl) fun _ => nofun]

theorem nodup_slots (h : metadata.IsOfLine) :
    (((items style metadata).filter (·.slot != .field .tags)).map (·.slot)).Nodup := by
  have hoption : ∀ {α : Type} (value : Option α) (slot : Slot),
      (value.toList.map fun _ => slot).Sublist [slot] := by
    intro α value slot
    cases value <;> simp
  rw [slots_items]
  obtain ⟨entries, hentries, hkeys, -⟩ := h.custom
  have hcustom : (metadata.custom.map fun entry => Slot.custom entry.1.display) =
      (entries.map (·.1)).map .custom := by
    rw [hentries, List.map_map, List.map_map]
    rfl
  have hdates : (dateOrder.flatMap fun entry => (metadata.dates.get entry.1).toList.map fun _ =>
      Slot.field (.date entry.1)).Sublist
      (dateOrder.map fun entry => .field (.date entry.1)) := by
    induction dateOrder with
    | nil => exact .slnil
    | cons entry rest ih => exact (hoption _ _).append ih
  have hfields :=
    (((((hoption metadata.project (.field .project)).append
      (hoption metadata.area (.field .area))).append
    (hoption metadata.context (.field .context))).append
    (hoption metadata.priority (.field .priority))).append
    (hoption metadata.recurrence (.field .recurrence))).append hdates
  rw [hcustom]
  refine List.Nodup.sublist (hfields.append (List.Sublist.refl _)) ?_
  refine List.nodup_append.2 ⟨by decide, hkeys.map fun _ _ heq => Slot.custom.inj heq, ?_⟩
  intro slot hslot other hother heq
  obtain ⟨key, -, rfl⟩ := List.mem_map.1 hother
  have hnone : Slot.custom key ∉ lineSlots := by simp [lineSlots, dateOrder]
  exact hnone (heq ▸ hslot)

theorem kinds_items : ∀ item ∈ items style metadata,
    (item.slot = .field .tags → item.kind = .tag) ∧ ∀ key, item.slot = .custom key →
      item.kind = .dataview := by
  intro item hitem
  have hfield : ∀ {field : Field}, item.slot = .field field → field ≠ .tags →
      (item.slot = .field .tags → item.kind = .tag) ∧ ∀ key, item.slot = .custom key →
          item.kind = .dataview := by
    intro field hslot hne
    rw [hslot]
    exact ⟨fun heq => absurd (Slot.field.inj heq) hne, nofun⟩
  cases mem_items_iff.1 hitem with
  | tag _ => exact ⟨fun _ => rfl, nofun⟩
  | project _ => exact hfield (slot_filedItem _ _ _) nofun
  | area _ => exact hfield (slot_filedItem _ _ _) nofun
  | context _ => exact hfield (slot_filedItem _ _ _) nofun
  | level _ => exact hfield (slot_levelItem _ _) nofun
  | recurrence _ => exact hfield (slot_recurrenceItem _ _) nofun
  | date _ _ => exact hfield (slot_dateItem _ _ _ _) nofun
  | custom _ => exact ⟨nofun, fun _ _ => rfl⟩

theorem eq_recurrenceItem {item : Markup.Item} (hitem : item ∈ items style metadata)
    (hslot : item.slot = .field .recurrence) :
    ∃ recurrence, metadata.recurrence = some recurrence ∧
      item = recurrenceItem style recurrence := by
  have hother : ∀ {field : Field}, item.slot = .field field → field ≠ .recurrence → False := by
    intro field hfield hne
    exact hne (Slot.field.inj (hfield.symm.trans hslot))
  cases mem_items_iff.1 hitem with
  | tag _ => cases hslot
  | project _ => exact (hother (slot_filedItem _ _ _) nofun).elim
  | area _ => exact (hother (slot_filedItem _ _ _) nofun).elim
  | context _ => exact (hother (slot_filedItem _ _ _) nofun).elim
  | level _ => exact (hother (slot_levelItem _ _) nofun).elim
  | recurrence h => exact ⟨_, h, rfl⟩
  | date _ _ => exact (hother (slot_dateItem _ _ _ _) nofun).elim
  | custom _ => cases hslot

end Task
end Checklist
