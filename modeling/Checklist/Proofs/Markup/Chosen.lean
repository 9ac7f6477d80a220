import Checklist.Proofs.Markup.Item
import Checklist.Proofs.Markup.OnLine

/-! # Lines that some grammars read

Settings choose which grammars read a line. Items of the other kinds stay in the text, where none of
the chosen grammars may find anything. Main statement: what is read on a line of items belongs to
one of them (`IsLineUnder.exists_item`). -/

namespace Checklist.Markup
set_option autoImplicit false
open Text

variable {settings : Settings} {today : Date} {content : Text} {items : List Item}
  {extraction : Extraction}

theorem kinds_sublist (settings : Settings) : (kinds settings).Sublist (kinds .standard) := by
  rw [kinds_standard]
  unfold kinds
  split <;> split <;> split <;> decide

/-! ## What a line says -/

/-- The line says something that belongs into the slot. -/
def Extraction.Fills (extraction : Extraction) : Slot → Prop
  | .field .tags => extraction.tags ≠ []
  | .field field => field ∈ extraction.fields.map (·.1)
  | .custom key => key ∈ extraction.custom.map (·.1)

theorem exists_token_of_fills {s : Text} (h : extract settings today s = .ok extraction)
    {slot : Slot} (hfills : extraction.Fills slot) :
    ∃ token ∈ extraction.tokens, token.slot = slot := by
  obtain ⟨consumed, text, tokens, -, -, -, rfl⟩ := extract_eq_ok_iff.1 h
  have hfield : ∀ {field : Field}, field ∈ (fieldValues (winners tokens)).map (·.1) →
      ∃ token ∈ tokens, token.slot = .field field := by
    intro field hmem
    obtain ⟨entry, hentry, rfl⟩ := List.mem_map.1 hmem
    obtain ⟨token, htoken, hslot, -⟩ := mem_fieldValues_iff.1 hentry
    exact ⟨token, (mem_of_mem_winners htoken).1, hslot⟩
  cases slot with
  | custom key =>
    obtain ⟨entry, hentry, rfl⟩ := List.mem_map.1 hfills
    obtain ⟨token, htoken, hslot, -⟩ := mem_customValues_iff.1 hentry
    exact ⟨token, (mem_of_mem_winners htoken).1, hslot⟩
  | field field => cases field with
    | tags =>
      obtain ⟨tag, htag⟩ := List.exists_mem_of_ne_nil _ hfills
      obtain ⟨token, hmem, hslot, -⟩ := mem_tagValues_iff.1 htag
      exact ⟨token, hmem, hslot⟩
    | date | priority | project | context | area | recurrence => exact hfield hfills

/-! ## Lines of items -/

/-- What a line needs so that the grammars which settings choose read nothing on it but its items:
they read nothing in the content and have the budget for the items that are theirs, and none of
their marks starts in the other items. -/
structure IsLineUnder (settings : Settings) (today : Date) (content : Text)
    (items : List Item) : Prop where
  settled : ∃ left, consumeAll (grammars settings today) settings.metadataLimit
    (protect content).text = .ok ⟨(protect content).text, [], left, false⟩ ∧
    (items.filter (·.kind ∈ kinds settings)).length ≤ left
  readable : ∀ item ∈ items, item.IsReadable today
  unread : ∀ kind ∈ kinds settings, ∀ item ∈ items, item.kind ∉ kinds settings → ∀ number,
    (grammarOf settings today kind).Skips (item.cell number)
  slots : ((items.filter (·.slot != .field .tags)).map (·.slot)).Nodup
  apart : ∀ item ∈ items, item.slot = .field .recurrence → ∀ number,
    IsApart (protect content).text (mask number item.parts)
  pieces : pieces (line content items) = lineParts content items

theorem IsLineUnder.exists_item_of_token (h : IsLineUnder settings today content items)
    (hmarks : KeepsMarks settings)
    (hextract : extract settings today (line content items) = .ok extraction) {token : Token}
    (htoken : token ∈ extraction.tokens) :
    ∃ item ∈ items, item.slot = token.slot := by
  obtain ⟨left, hcontent, hbudget⟩ := h.settled
  rw [hmarks.grammars_eq] at hcontent
  obtain ⟨text, entries, hconsume, -, hgives⟩ := consume_line (kinds_sublist settings) h.readable
    (fun kind hkind => hmarks.grammarOf_eq today kind ▸ h.unread kind hkind) h.slots
      h.apart h.pieces hbudget hcontent
  rw [extract, hmarks.grammars_eq, hconsume] at hextract
  obtain ⟨consumed, hconsumed, hextract⟩ := Result.bind_eq_ok.1 hextract
  cases hconsumed
  obtain ⟨_, -, hextract⟩ := Result.bind_eq_ok.1 hextract
  obtain ⟨tokens, htokens, hextract⟩ := Result.bind_eq_ok.1 hextract
  cases hextract
  -- the token is that of a cell with its spans put back, and a cell has the slot of its item
  obtain ⟨masked, hmasked, hrestore⟩ :=
    Result.exists_left_of_mem (Result.mapM_eq_ok.1 htokens) htoken
  obtain ⟨cell, hcell, spaces, -, rfl⟩ := Result.exists_left_of_mem hgives hmasked
  obtain ⟨kind, -, hcell⟩ := List.mem_flatMap.1 hcell
  obtain ⟨item, hitem, number, rfl⟩ := mem_cells (List.mem_filter.1 hcell).1
  refine ⟨item, hitem, ?_⟩
  obtain ⟨_, -, hrestore⟩ := Result.bind_eq_ok.1 hrestore
  obtain ⟨_, -, hrestore⟩ := Result.bind_eq_ok.1 hrestore
  cases hrestore
  rfl

theorem IsLineUnder.exists_item (h : IsLineUnder settings today content items)
    (hmarks : KeepsMarks settings)
    (hextract : extract settings today (line content items) = .ok extraction) {slot : Slot}
    (hfills : extraction.Fills slot) :
    ∃ item ∈ items, item.slot = slot := by
  obtain ⟨token, htoken, rfl⟩ := exists_token_of_fills hextract hfills
  exact h.exists_item_of_token hmarks hextract htoken

end Checklist.Markup
