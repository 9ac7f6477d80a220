import Checklist.Markup.Extraction
import Mathlib.Data.List.Nodup

/-! # The tokens that count

Of the tokens for one slot one counts, and every plain tag counts once. Main statements: no two
tokens that count fill one slot (`nodup_winners`), and tokens for different slots all count
(`winners_eq_filter`). -/

namespace Checklist.Markup
set_option autoImplicit false
open Text

variable {tokens : List Token} {token : Token}

/-! ## Filing a token -/

theorem slots_fileToken (winners : List Token) (token : Token) :
    (fileToken winners token).map Token.slot =
    if token.slot ∈ winners.map Token.slot then winners.map Token.slot
      else winners.map Token.slot ++ [token.slot] := by
  unfold fileToken
  cases hfind : winners.find? fun winner => winner.slot == token.slot with
  | none =>
    have hnew : token.slot ∉ winners.map Token.slot := by
      intro hmem
      obtain ⟨winner, hwinner, hslot⟩ := List.mem_map.1 hmem
      have hno := List.find?_eq_none.1 hfind winner hwinner
      exact hno (by simpa using hslot)
    rw [if_neg hnew]
    simp
  | some winner =>
    have hslot : winner.slot = token.slot := by simpa using List.find?_some hfind
    have htaken : token.slot ∈ winners.map Token.slot :=
      List.mem_map.2 ⟨winner, List.mem_of_find?_eq_some hfind, hslot⟩
    rw [if_pos htaken]
    simp only
    split
    · rw [List.map_map]
      refine List.map_congr_left fun other _ => ?_
      by_cases hsame : other.slot = token.slot <;> simp [hsame]
    · rfl

theorem mem_fileToken {winners : List Token} {other : Token} (h : other ∈ fileToken winners token) :
    other ∈ winners ∨ other = token := by
  unfold fileToken at h
  split at h
  · simpa using h
  · split at h
    · obtain ⟨winner, hwinner, heq⟩ := List.mem_map.1 h
      split at heq
      · exact .inr heq.symm
      · exact .inl (heq ▸ hwinner)
    · exact .inl h

/-! ## Winners -/

theorem nodup_foldl_fileToken {filed : List Token} (h : (filed.map Token.slot).Nodup) :
    ((tokens.foldl fileToken filed).map Token.slot).Nodup := by
  induction tokens generalizing filed with
  | nil => exact h
  | cons token tokens ih =>
    refine ih ?_
    rw [slots_fileToken]
    split
    · exact h
    · rename_i hnew
      exact List.nodup_append.2 ⟨h, List.nodup_singleton _,
        fun slot hslot other hother heq => hnew (by simp_all)⟩

/-- No two tokens that count fill one slot. -/
theorem nodup_winners (tokens : List Token) : ((winners tokens).map Token.slot).Nodup :=
  nodup_foldl_fileToken .nil

theorem mem_of_mem_foldl {filed : List Token} (h : token ∈ tokens.foldl fileToken filed) :
    token ∈ filed ∨ token ∈ tokens := by
  induction tokens generalizing filed with
  | nil => exact .inl h
  | cons first tokens ih =>
    rcases ih h with h | h
    · rcases mem_fileToken h with h | rfl
      · exact .inl h
      · exact .inr List.mem_cons_self
    · exact .inr (List.mem_cons_of_mem _ h)

theorem mem_of_mem_winners (h : token ∈ winners tokens) :
    token ∈ tokens ∧ token.slot ≠ .field .tags := by
  rcases mem_of_mem_foldl h with h | h
  · cases h
  · simpa using List.mem_filter.1 h

theorem foldl_fileToken_eq {filed : List Token} (h : ((filed ++ tokens).map Token.slot).Nodup) :
    tokens.foldl fileToken filed = filed ++ tokens := by
  induction tokens generalizing filed with
  | nil => rw [List.foldl_nil, List.append_nil]
  | cons token tokens ih =>
    have hnew : filed.find? (fun winner => winner.slot == token.slot) = none := by
      refine List.find?_eq_none.2 fun winner hwinner hslot => ?_
      rw [List.map_append, List.map_cons, List.nodup_append] at h
      exact h.2.2 winner.slot (List.mem_map_of_mem hwinner) token.slot
        List.mem_cons_self (by simpa using hslot)
    have hfile : fileToken filed token = filed ++ [token] := by
      unfold fileToken
      rw [hnew]
    rw [List.append_cons] at h ⊢
    rw [List.foldl_cons, hfile]
    exact ih h

/-- Tokens for different slots all count. -/
theorem winners_eq_filter (h : ((tokens.filter (·.slot != .field .tags)).map Token.slot).Nodup) :
    winners tokens = tokens.filter (·.slot != .field .tags) :=
  @foldl_fileToken_eq _ [] h

/-! ## What tokens come to -/

theorem mem_fieldValues_iff {entry : Field × Text} :
    entry ∈ fieldValues tokens ↔ ∃ token ∈ tokens, token.slot = .field entry.1 ∧
      token.value = entry.2 := by
  rw [fieldValues, List.mem_filterMap]
  refine exists_congr fun token => and_congr_right fun _ => ?_
  cases token.slot <;> simp [Prod.ext_iff]

theorem mem_customValues_iff {entry : Text × Text} :
    entry ∈ customValues tokens ↔ ∃ token ∈ tokens, token.slot = .custom entry.1 ∧
      token.value = entry.2 := by
  rw [customValues, List.mem_filterMap]
  refine exists_congr fun token => and_congr_right fun _ => ?_
  cases token.slot <;> simp [Prod.ext_iff]

theorem mem_tagValues_iff {tag : Text} : tag ∈ tagValues tokens ↔
    ∃ token ∈ tokens, token.slot = .field .tags ∧ token.value = tag := by
  simp [tagValues, List.mem_eraseDups, and_assoc]

theorem slots_customValues (tokens : List Token) :
    ((customValues tokens).map fun entry => Slot.custom entry.1).Sublist
      (tokens.map Token.slot) := by
  induction tokens with
  | nil => exact .slnil
  | cons token tokens ih =>
    rw [customValues, List.filterMap_cons]
    cases hslot : token.slot with
    | field field =>
      rw [List.map_cons]
      exact ih.cons _
    | custom key =>
      rw [List.map_cons, List.map_cons, hslot]
      exact ih.cons_cons _

theorem slots_fieldValues (tokens : List Token) :
    ((fieldValues tokens).map fun entry => Slot.field entry.1).Sublist (tokens.map Token.slot) := by
  induction tokens with
  | nil => exact .slnil
  | cons token tokens ih =>
    rw [fieldValues, List.filterMap_cons]
    cases hslot : token.slot with
    | custom key =>
      rw [List.map_cons]
      exact ih.cons _
    | field field =>
      rw [List.map_cons, List.map_cons, hslot]
      exact ih.cons_cons _

theorem nodup_fieldValues (tokens : List Token) :
    ((fieldValues (winners tokens)).map (·.1)).Nodup := by
  have hslots := (nodup_winners tokens).sublist (slots_fieldValues (winners tokens))
  refine List.Nodup.of_map Slot.field ?_
  rw [List.map_map]
  exact hslots

theorem nodup_customValues (tokens : List Token) :
    ((customValues (winners tokens)).map (·.1)).Nodup := by
  have hslots := (nodup_winners tokens).sublist (slots_customValues (winners tokens))
  refine List.Nodup.of_map Slot.custom ?_
  rw [List.map_map]
  exact hslots

/-! ## Tags -/

theorem nodup_eraseDups (names : List Text) : names.eraseDups.Nodup := by
  induction hn : names.length using Nat.strongRecOn generalizing names with
  | _ n ih =>
    subst hn
    cases names with
    | nil => exact .nil
    | cons name names =>
      rw [List.eraseDups_cons]
      refine List.nodup_cons.2 ⟨fun hmem => ?_, ih _ ?_ _ rfl⟩
      · rw [List.mem_eraseDups, List.mem_filter] at hmem
        simp at hmem
      · exact Nat.lt_succ_of_le (List.length_filter_le _ _)

theorem eraseDups_of_nodup {names : List Text} (h : names.Nodup) : names.eraseDups = names := by
  induction names with
  | nil => rfl
  | cons name names ih =>
    rw [List.nodup_cons] at h
    have hall : names.filter (fun other => !other == name) = names := by
      refine List.filter_eq_self.2 fun other hother => ?_
      have hne : other ≠ name := fun heq => h.1 (heq ▸ hother)
      simpa using hne
    rw [List.eraseDups_cons, hall, ih h.2]

end Checklist.Markup
