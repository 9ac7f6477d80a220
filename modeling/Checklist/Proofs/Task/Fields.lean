import Checklist.Note.Parse
import Checklist.Proofs.Task.Legible

/-! # Metadata that is read back

The fields of a task are set one after the other, each from the value of its item. Main statement: a
line that says the items of a task gives the metadata of that task (`lineMetadata_of_says`). -/

namespace Checklist
set_option autoImplicit false
open Text

/-! ## Fields of metadata -/

namespace Metadata

/-- The metadata with one field taken over from other metadata. -/
def copy (source : Metadata) (field : Field) (metadata : Metadata) : Metadata :=
  match field with
  | .date kind => { metadata with dates := metadata.dates.set (source.dates.get kind) kind }
  | .priority => { metadata with priority := source.priority }
  | .project => { metadata with project := source.project }
  | .context => { metadata with context := source.context }
  | .area => { metadata with area := source.area }
  | .recurrence => { metadata with recurrence := source.recurrence }
  | .tags => { metadata with tags := source.tags }

/-- Both have the same in a field. -/
def Agrees (source metadata : Metadata) : Field → Prop
  | .date kind => metadata.dates.get kind = source.dates.get kind
  | .priority => metadata.priority = source.priority
  | .project => metadata.project = source.project
  | .context => metadata.context = source.context
  | .area => metadata.area = source.area
  | .recurrence => metadata.recurrence = source.recurrence
  | .tags => metadata.tags = source.tags

variable {source metadata : Metadata}

theorem agrees_copy_self (source metadata : Metadata) (field : Field) :
    source.Agrees (source.copy field metadata) field := by
  cases field with
  | date kind => exact Dates.get_set _ _ _
  | _ => rfl

theorem Agrees.copy {field : Field} (h : source.Agrees metadata field) (other : Field) :
    source.Agrees (source.copy other metadata) field := by
  by_cases hsame : field = other
  · subst hsame
    exact agrees_copy_self source metadata field
  · cases other with
    | date kind => cases field with
      | date kind' =>
        exact (Dates.get_set_of_ne _ _ fun heq => hsame (congrArg Field.date heq)).trans h
      | _ => exact h
    | _ => cases field <;> first | exact h | exact absurd rfl hsame

theorem Dates.ext_get {first second : Dates} (h : ∀ kind, first.get kind = second.get kind) :
    first = second := by
  cases first
  cases second
  have hdue := h .due
  have hstart := h .start
  have hscheduled := h .scheduled
  have hcompleted := h .completed
  have hcreated := h .created
  simp only [Dates.get] at hdue hstart hscheduled hcompleted hcreated
  rw [hdue, hstart, hscheduled, hcompleted, hcreated]

def rest (metadata : Metadata) : Option InferredProject × Option Heading × Entries × List Value :=
  (metadata.inferred, metadata.heading, metadata.custom, metadata.inherited)

theorem rest_copy (source metadata : Metadata) (field : Field) :
    (source.copy field metadata).rest = metadata.rest := by
  cases field <;> rfl

theorem eq_of_agrees (h : ∀ field, source.Agrees metadata field)
    (hrest : metadata.rest = source.rest) : metadata = source := by
  have hdates : metadata.dates = source.dates := Dates.ext_get fun kind => h (.date kind)
  have hpriority : metadata.priority = source.priority := h .priority
  have hproject : metadata.project = source.project := h .project
  have hcontext : metadata.context = source.context := h .context
  have harea : metadata.area = source.area := h .area
  have hrecurrence : metadata.recurrence = source.recurrence := h .recurrence
  have htags : metadata.tags = source.tags := h .tags
  simp only [rest, Prod.mk.injEq] at hrest
  cases metadata
  cases source
  simp_all

theorem agrees_foldl_copy {fields : List Field} {field : Field}
    (h : field ∈ fields ∨ source.Agrees metadata field) :
    source.Agrees (fields.foldl (fun metadata field => source.copy field metadata) metadata) field := by
  induction fields generalizing metadata with
  | nil => exact h.resolve_left List.not_mem_nil
  | cons first fields ih =>
    refine ih ?_
    rcases h with h | h
    · rcases List.mem_cons.1 h with rfl | h
      · exact .inr (agrees_copy_self source metadata field)
      · exact .inl h
    · exact .inr (h.copy first)

theorem rest_foldl_copy (source metadata : Metadata) (fields : List Field) :
    (fields.foldl (fun metadata field => source.copy field metadata) metadata).rest =
      metadata.rest := by
  induction fields generalizing metadata with
  | nil => rfl
  | cons first fields ih => rw [List.foldl_cons, ih, rest_copy]

end Metadata

/-! ## Values are read back -/

namespace Task

variable {today : Date} {style : Style} {metadata target : Metadata} {item : Markup.Item}

theorem setField_name {name : Text} (hname : IsName name) (target : Metadata) :
    Note.setField today target .project name = .ok { target with project := some name } ∧
    Note.setField today target .area name = .ok { target with area := some name } ∧
    Note.setField today target .context name = .ok { target with context := some name } := by
  have hempty : name.isEmpty = false := by simpa using hname.1.ne_nil
  simp [Note.setField, hname.1.trim_eq, hname.1.ne_nil, pure, Except.pure]

theorem setField_level {level : Int} (h : 1 ≤ level ∧ level ≤ 5) (target : Metadata) :
    Note.setField today target .priority (levelItem style level).value =
      .ok { target with priority := some level } := by
  have hvalue : Priority.resolve (levelItem style level).value = .ok (some level.toNat) := by
    cases style with
    | emoji =>
      obtain ⟨symbol, hsymbol, -, hresolve⟩ := exists_levelSymbol h
      rw [levelItem, hsymbol]
      exact hresolve
    | dataview =>
      obtain ⟨name, hname, -, -, hresolve⟩ := exists_levelName h
      rw [levelItem, hname]
      exact hresolve
  have hlevel : (level.toNat : Int) = level := Int.toNat_of_nonneg (by omega)
  simp [Note.setField, hvalue, hlevel, bind, Except.bind, pure, Except.pure]

theorem setField_recurrence {recurrence : Recurrence} (h : recurrence.IsRestated)
    (target : Metadata) :
    Note.setField today target .recurrence (recurrenceItem style recurrence).value =
      .ok { target with recurrence := some recurrence } := by
  obtain ⟨text, htext, hparse, -⟩ := h
  have hvalue : (recurrenceItem style recurrence).value = text := by
    cases style <;> simp [recurrenceItem, inlineItem, htext, Except.toOption]
  simp [Note.setField, hvalue, hparse, bind, Except.bind, pure, Except.pure]

theorem setField_date (h : metadata.IsOfLine) (hyears : HasLongYears metadata) {field : DateField}
    {key : Text} {timestamp : Int}
    (hdate : metadata.dates.get field = some timestamp) (target : Metadata) :
    Note.setField today target (.date field) (dateItem style field key timestamp).value =
      .ok { target with dates := target.dates.set (some timestamp) field } := by
  obtain ⟨moment, hwhole, hfirst, rfl, htext⟩ := exists_timestampText h hyears hdate
  have hvalue : (dateItem style field key (moment.seconds * 1000)).value = moment.date.text ++
      DateText.clockText moment := by
    cases style <;> simp [dateItem, inlineItem, htext, Except.toOption]
  have hresolve := @DateText.resolve_timestampText today moment hwhole hfirst
  simp [Note.setField, hvalue, hresolve, bind, Except.bind, pure, Except.pure]

theorem setField_item (h : metadata.IsOfLine) (hyears : HasLongYears metadata)
    (hitem : item ∈ items style metadata) {field : Field}
    (hslot : item.slot = .field field) (hne : field ≠ .tags) (target : Metadata) :
    Note.setField today target field item.value = .ok (metadata.copy field target) := by
  have hfield : ∀ {other : Field}, item.slot = .field other → field = other :=
    fun hother => Slot.field.inj (hslot.symm.trans hother)
  cases mem_items_iff.1 hitem with
  | tag _ => exact absurd (hfield rfl) hne
  | project hname =>
    obtain rfl := hfield (slot_filedItem _ _ _)
    rw [value_filedItem, (setField_name (h.project _ hname) target).1, Metadata.copy, hname]
  | area hname =>
    obtain rfl := hfield (slot_filedItem _ _ _)
    rw [value_filedItem, (setField_name (h.area _ hname) target).2.1, Metadata.copy, hname]
  | context hname =>
    obtain rfl := hfield (slot_filedItem _ _ _)
    rw [value_filedItem, (setField_name (h.context _ hname) target).2.2, Metadata.copy, hname]
  | level hlevel =>
    obtain rfl := hfield (slot_levelItem _ _)
    rw [setField_level (h.priority _ hlevel), Metadata.copy, hlevel]
  | recurrence hrecurrence =>
    obtain rfl := hfield (slot_recurrenceItem _ _)
    rw [setField_recurrence (h.recurrence _ hrecurrence), Metadata.copy, hrecurrence]
  | date hkey hdate =>
    obtain rfl := hfield (slot_dateItem _ _ _ _)
    rw [setField_date h hyears hdate, Metadata.copy, hdate]
  | custom _ => cases hslot

theorem exists_item_of_has {field : Field} (hne : field ≠ .tags) (h : metadata.has field = true) :
    ∃ item ∈ items style metadata, item.slot = .field field := by
  cases field with
  | date kind =>
    obtain ⟨timestamp, htimestamp⟩ := Option.isSome_iff_exists.1 h
    have hkey : ∃ key, (kind, key) ∈ dateOrder := by
      cases kind <;> simp [dateOrder]
    obtain ⟨key, hkey⟩ := hkey
    exact ⟨_, mem_items_iff.2 (.date hkey htimestamp), slot_dateItem _ _ _ _⟩
  | priority =>
    obtain ⟨level, hlevel⟩ := Option.isSome_iff_exists.1 h
    exact ⟨_, mem_items_iff.2 (.level hlevel), slot_levelItem _ _⟩
  | project =>
    obtain ⟨name, hname⟩ := Option.isSome_iff_exists.1 h
    exact ⟨_, mem_items_iff.2 (.project hname), slot_filedItem _ _ _⟩
  | context =>
    obtain ⟨name, hname⟩ := Option.isSome_iff_exists.1 h
    exact ⟨_, mem_items_iff.2 (.context hname), slot_filedItem _ _ _⟩
  | area =>
    obtain ⟨name, hname⟩ := Option.isSome_iff_exists.1 h
    exact ⟨_, mem_items_iff.2 (.area hname), slot_filedItem _ _ _⟩
  | recurrence =>
    obtain ⟨recurrence, hrecurrence⟩ := Option.isSome_iff_exists.1 h
    exact ⟨_, mem_items_iff.2 (.recurrence hrecurrence), slot_recurrenceItem _ _⟩
  | tags => exact absurd rfl hne

theorem agrees_of_not_has {field : Field} (hne : field ≠ .tags) (h : metadata.has field = false)
    (tags : List Text) (heading : Option Heading) (custom : Entries) :
    metadata.Agrees { tags := tags, heading := heading, custom := custom } field := by
  cases field with
  | date kind =>
    have hnone : metadata.dates.get kind = none := by simpa [Metadata.has] using h
    show Dates.get {} kind = metadata.dates.get kind
    rw [hnone]
    cases kind <;> rfl
  | tags => exact absurd rfl hne
  | priority | project | context | area | recurrence =>
    have hnone := Option.isSome_eq_false_iff.1 h
    exact (Option.isNone_iff_eq_none.1 hnone).symm

theorem filterMap_items {α : Type} {f : Markup.Item → Option α}
    (hfield : ∀ item field, item.slot = .field field → field ≠ .tags → f item = none) :
    (items style metadata).filterMap f = (metadata.tags.map tagItem).filterMap f ++
      (metadata.custom.map customItem).filterMap f := by
  have hnone : ∀ {xs : List Markup.Item},
      (∀ item ∈ xs, ∃ field, item.slot = .field field ∧ field ≠ .tags) → xs.filterMap f = [] := by
    intro xs hxs
    rw [List.filterMap_eq_nil_iff]
    intro item hitem
    obtain ⟨field, hslot, hne⟩ := hxs item hitem
    exact hfield item field hslot hne
  have hfiled : ∀ (field : Field) (name : Option Text), field ≠ .tags →
      (name.toList.map (filedItem style field)).filterMap f = [] := by
    intro field name hne
    refine hnone fun item hitem => ?_
    obtain ⟨name, -, rfl⟩ := List.mem_map.1 hitem
    exact ⟨field, slot_filedItem _ _ _, hne⟩
  have hlevel : (metadata.priority.toList.map (levelItem style)).filterMap f = [] := by
    refine hnone fun item hitem => ?_
    obtain ⟨level, -, rfl⟩ := List.mem_map.1 hitem
    exact ⟨_, slot_levelItem _ _, by simp⟩
  have hrecurrence : (metadata.recurrence.toList.map (recurrenceItem style)).filterMap f = [] := by
    refine hnone fun item hitem => ?_
    obtain ⟨recurrence, -, rfl⟩ := List.mem_map.1 hitem
    exact ⟨_, slot_recurrenceItem _ _, by simp⟩
  have hdates :
      (dateOrder.flatMap fun entry =>
        (metadata.dates.get entry.1).toList.map (dateItem style entry.1 entry.2)).filterMap f =
          [] := by
    refine hnone fun item hitem => ?_
    obtain ⟨entry, -, hitem⟩ := List.mem_flatMap.1 hitem
    obtain ⟨timestamp, -, rfl⟩ := List.mem_map.1 hitem
    exact ⟨_, slot_dateItem _ _ _ _, by simp⟩
  simp only [items, List.filterMap_append, hfiled .project _ (by simp), hfiled .area _ (by simp),
    hfiled .context _ (by simp), hlevel, hrecurrence, hdates,
    List.append_nil]

theorem tags_items (style : Style) (metadata : Metadata) :
    (items style metadata).filterMap Markup.Item.tag? = metadata.tags := by
  have hcustom : (metadata.custom.map customItem).filterMap Markup.Item.tag? = [] := by
    simp [List.filterMap_eq_nil_iff, customItem, inlineItem, Markup.Item.tag?]
  have htags : (metadata.tags.map tagItem).filterMap Markup.Item.tag? = metadata.tags := by
    rw [List.filterMap_map]
    exact List.filterMap_some
  rw [filterMap_items fun item field hslot hne => by simp [Markup.Item.tag?, hslot, hne], hcustom,
    htags, List.append_nil]

theorem custom_items (style : Style) (h : metadata.IsOfLine) :
    ((items style metadata).filterMap Markup.Item.custom?).map
      (fun entry => (Value.str entry.1, Value.str entry.2)) = metadata.custom := by
  obtain ⟨entries, hentries, -⟩ := h.custom
  have htags : (metadata.tags.map tagItem).filterMap Markup.Item.custom? = [] := by
    simp [List.filterMap_eq_nil_iff, tagItem, Markup.Item.custom?]
  have hcustom : (metadata.custom.map customItem).filterMap Markup.Item.custom? = entries := by
    rw [hentries, List.map_map, List.filterMap_map]
    exact List.filterMap_some
  rw [filterMap_items fun item field hslot _ => by simp [Markup.Item.custom?, hslot], htags,
    hcustom, hentries, List.nil_append]

theorem foldlM_copy {fields : List (Field × Text)}
    (h : ∀ entry ∈ fields, ∀ target, Note.setField today target entry.1 entry.2 =
      .ok (metadata.copy entry.1 target)) (target : Metadata) :
    fields.foldlM (fun metadata (field, raw) => Note.setField today metadata field raw) target =
      .ok ((fields.map (·.1)).foldl (fun target field => metadata.copy field target) target) := by
  induction fields generalizing target with
  | nil => rfl
  | cons entry fields ih =>
    rw [List.foldlM_cons]
    exact Result.bind_eq_ok.2 ⟨_, h entry List.mem_cons_self target,
      ih (fun other hother => h other (List.mem_cons_of_mem _ hother)) _⟩

/-- A line that says the items of a task gives the metadata of that task. -/
theorem lineMetadata_of_says (h : metadata.IsOfLine) (hyears : HasLongYears metadata)
    {content : Text} {extraction : Markup.Extraction}
    (hsaid : extraction.Says content (items style metadata)) :
    Note.lineMetadata today none extraction = .ok metadata := by
  have htags : extraction.tags =
      metadata.tags := by rw [hsaid.tags, tags_items, Markup.eraseDups_of_nodup h.tags]
  have hcustom : (extraction.custom.map fun entry => (Value.str entry.1, Value.str entry.2)) =
      metadata.custom := by
    rw [hsaid.custom]
    exact custom_items style h
  have hset : ∀ entry ∈ extraction.fields, ∀ target, Note.setField today target entry.1 entry.2 =
      .ok (metadata.copy entry.1 target) := by
    intro entry hentry target
    obtain ⟨hne, item, hitem, hslot, hvalue⟩ := hsaid.field entry hentry
    rw [← hvalue]
    exact setField_item h hyears hitem hslot hne target
  simp only [Note.lineMetadata, htags, hcustom]
  rw [foldlM_copy hset, Except.ok.injEq]
  refine Metadata.eq_of_agrees (fun field => Metadata.agrees_foldl_copy ?_) ?_
  · by_cases hne : field = .tags
    · subst hne
      exact .inr rfl
    · by_cases hhas : metadata.has field = true
      · obtain ⟨item, hitem, hslot⟩ := @exists_item_of_has style metadata _ hne hhas
        exact .inl (List.mem_map.2 ⟨_, hsaid.item item hitem field hslot hne, rfl⟩)
      · exact .inr (agrees_of_not_has hne (by simpa using hhas) _ _ _)
  · rw [Metadata.rest_foldl_copy]
    simp [Metadata.rest, h.heading, h.inferred, h.inherited]

end Task
end Checklist
