import Checklist.Proofs.Inheritance
import Checklist.Proofs.Markup.Chosen
import Checklist.Proofs.Task.OfLine

/-! # What is read in a written line

The metadata of a line has a value only where the line says something (`fills_of_has`), and an item
is written only for a value that the task has (`has_of_mem_items`). Main statement: the line of a
task that is legible under settings is a line on which these settings read nothing but items
(`IsLegibleUnder.isLineUnder`). -/

namespace Checklist
set_option autoImplicit false
open Text

variable {settings : Settings} {today : Date} {metadata result : Metadata}
  {extraction : Markup.Extraction}

/-! ## Metadata has what its line says -/

namespace Note

theorem eq_copy_of_setField {field : Field} {raw : Text}
    (h : setField today metadata field raw = .ok result) :
    result = result.copy field metadata ∧ result.tags = metadata.tags := by
  cases field with
  | date kind =>
    obtain ⟨found, -, h⟩ := Result.bind_eq_ok.1 h
    cases found <;> cases h <;> cases kind <;> exact ⟨rfl, rfl⟩
  | priority | recurrence =>
    obtain ⟨found, -, h⟩ := Result.bind_eq_ok.1 h
    cases found <;> cases h <;> exact ⟨rfl, rfl⟩
  | project | context | area | tags =>
    cases h
    exact ⟨rfl, rfl⟩

theorem agrees_of_foldlM {fields : List (Field × Text)}
    (h : fields.foldlM (fun metadata (field, raw) => setField today metadata field raw) metadata =
      .ok result) :
    (∀ field ∉ fields.map (·.1), metadata.Agrees result field) ∧ result.tags = metadata.tags ∧
      result.rest = metadata.rest := by
  induction fields generalizing metadata with
  | nil =>
    cases h
    exact ⟨fun _ _ => .refl _ _, rfl, rfl⟩
  | cons entry fields ih =>
    rw [List.foldlM_cons] at h
    obtain ⟨next, hnext, h⟩ := Result.bind_eq_ok.1 h
    obtain ⟨hcopy, htags⟩ := eq_copy_of_setField hnext
    obtain ⟨hfields, htags', hrest⟩ := ih h
    refine ⟨fun field hfield => ?_, htags'.trans htags, hrest.trans ?_⟩
    · rw [List.map_cons, List.mem_cons, not_or] at hfield
      have hkept : metadata.Agrees next field := by
        rw [hcopy]
        exact Metadata.agrees_copy_of_ne hfield.1
      exact hkept.trans (hfields field hfield.2)
    · rw [hcopy, Metadata.rest_copy]

/-- A line gives a field only where it says something. -/
theorem fills_of_has (h : lineMetadata today none extraction = .ok metadata) {field : Field}
    (hhas : metadata.has field = true) :
    extraction.Fills (.field field) := by
  obtain ⟨hfields, htags, -⟩ := agrees_of_foldlM h
  by_cases hne : field = .tags
  · subst hne
    replace hhas : (!metadata.tags.isEmpty) = true := hhas
    rw [htags] at hhas
    exact fun hempty => by simp [hempty] at hhas
  · have hmem : field ∈ extraction.fields.map (·.1) := by
      by_contra hnone
      rw [(hfields field hnone).has_eq] at hhas
      cases field with
      | date kind => cases kind <;> cases hhas
      | tags => exact hne rfl
      | priority | project | context | area | recurrence => cases hhas
    cases field with
    | tags => exact absurd rfl hne
    | date | priority | project | context | area | recurrence => exact hmem

/-- The keys of a line's metadata are those that the line names, with the texts that it
gives them. -/
theorem custom_of_lineMetadata (h : lineMetadata today none extraction = .ok metadata) :
    metadata.custom = extraction.custom.map fun (key, s) => (.str key, .str s) :=
  congrArg (·.2.2.1) (agrees_of_foldlM h).2.2

theorem fills_of_mem_custom (h : lineMetadata today none extraction = .ok metadata)
    {entry : Value × Value} (hentry : entry ∈ metadata.custom) :
    ∃ key, entry.1 = .str key ∧ extraction.Fills (.custom key) := by
  rw [custom_of_lineMetadata h] at hentry
  obtain ⟨said, hsaid, rfl⟩ := List.mem_map.1 hentry
  exact ⟨said.1, rfl, List.mem_map_of_mem hsaid⟩

end Note

/-! ## Items are written for what a task has -/

namespace Task

variable {style : Style} {item : Markup.Item}

/-- An item stands for a value that the task has. -/
theorem has_of_mem_items (hitem : item ∈ items style metadata) {field : Field}
    (hslot : item.slot = .field field) : metadata.has field = true := by
  have hsame : ∀ {other : Field}, item.slot = .field other → metadata.has other = true →
      metadata.has field = true := by
    intro other hother hhas
    rwa [← Slot.field.inj (hother.symm.trans hslot)]
  cases mem_items_iff.1 hitem with
  | tag h => exact hsame rfl (by simpa [Metadata.has] using List.ne_nil_of_mem h)
  | project h => exact hsame (slot_filedItem _ _ _) (by rw [Metadata.has, h]; rfl)
  | area h => exact hsame (slot_filedItem _ _ _) (by rw [Metadata.has, h]; rfl)
  | context h => exact hsame (slot_filedItem _ _ _) (by rw [Metadata.has, h]; rfl)
  | level h => exact hsame (slot_levelItem _ _) (by rw [Metadata.has, h]; rfl)
  | recurrence h => exact hsame (slot_recurrenceItem _ _) (by rw [Metadata.has, h]; rfl)
  | date _ h => exact hsame (slot_dateItem _ _ _ _) (by rw [Metadata.has, h]; rfl)
  | custom _ => cases hslot

theorem exists_custom_of_mem_items (hline : metadata.IsOfLine) (hitem : item ∈ items style metadata)
    {key : Text} (hslot : item.slot = .custom key) :
    ∃ entry ∈ metadata.custom, entry.1 = .str key := by
  have hother : ∀ {field : Field}, item.slot = .field field → False := fun hfield => by
    rw [hslot] at hfield
    cases hfield
  cases mem_items_iff.1 hitem with
  | tag _ => cases hslot
  | project _ => exact (hother (slot_filedItem _ _ _)).elim
  | area _ => exact (hother (slot_filedItem _ _ _)).elim
  | context _ => exact (hother (slot_filedItem _ _ _)).elim
  | level _ => exact (hother (slot_levelItem _ _)).elim
  | recurrence _ => exact (hother (slot_recurrenceItem _ _)).elim
  | date _ _ => exact (hother (slot_dateItem _ _ _ _)).elim
  | @custom entry hentry =>
    obtain ⟨entries, hentries, -⟩ := hline.custom
    have hmem := hentry
    rw [hentries] at hmem
    obtain ⟨found, -, rfl⟩ := List.mem_map.1 hmem
    exact ⟨_, hentry, congrArg Value.str (Slot.custom.inj hslot)⟩

/-! ## Lines under settings -/

/-- A task whose line, written in a style, says to settings nothing but what is meant: under them
nothing is read in its content, its metadata can be written in that style, the pieces of the line
are the pieces of its parts, and in what is written for grammars that the settings do not read no
mark of the others starts. -/
structure IsLegibleUnder (settings : Settings) (today : Date) (style : Style)
    (task : Task) : Prop where
  settled : ∃ left, Markup.consumeAll (Markup.grammars settings today) settings.metadataLimit
      (Markup.protect task.content).text =
      .ok ⟨(Markup.protect task.content).text, [], left, false⟩ ∧
    ((items style task.metadata).filter (·.kind ∈ Markup.kinds settings)).length ≤ left
  writable : IsWritable style task.metadata
  unread : ∀ kind ∈ Markup.kinds settings, ∀ item ∈ items style task.metadata,
    item.kind ∉ Markup.kinds settings → ∀ number,
    (Markup.grammarOf settings today kind).Skips (item.cell number)
  apart : style = .emoji → ∀ phrase, task.metadata.recurrence = some (.phrase phrase) →
    Markup.IsApart (Markup.protect task.content).text (Markup.protect phrase).text
  pieces : Markup.pieces (Markup.line task.content (items style task.metadata)) =
    Markup.lineParts task.content (items style task.metadata)

variable {task : Task} {said : Metadata}

theorem IsLegibleUnder.isLineUnder (h : task.IsLegibleUnder settings today style)
    {inferred : Option InferredProject}
    (hmetadata : task.metadata = { said with inferred }) (hsaid : said.IsOfLine) :
    Markup.IsLineUnder settings today task.content (items style said) := by
  obtain ⟨hsettled, hwritable, hunread, hapart, hpieces⟩ := h
  rw [hmetadata] at hsettled hwritable hunread hapart hpieces
  refine ⟨hsettled, isReadable_items hsaid ⟨hwritable.tags, hwritable.years, hwritable.context,
    hwritable.phrase, hwritable.brackets⟩, hunread,
    nodup_slots hsaid, fun item hitem hslot number => ?_, hpieces⟩
  obtain ⟨recurrence, hrecurrence, rfl⟩ := eq_recurrenceItem hitem hslot
  exact isApart_recurrenceItem (hsaid.recurrence recurrence hrecurrence)
    (fun hstyle phrase hphrase => hapart hstyle phrase (hphrase ▸ hrecurrence)) number

end Task
end Checklist
