import Checklist.Proofs.Markup.OnLine
import Checklist.Proofs.Task.Fields

/-! # Metadata that comes from a line

Main statement: what the markup of a line gives is metadata of the kind that can be written again
(`isOfLine_of_lineMetadata`). -/

namespace Checklist
set_option autoImplicit false
open Text

/-! ## Values of fields -/

theorem Priority.inRange_of_resolve {s : Text} {level : Nat} (h : resolve s = .ok (some level)) :
    1 ≤ level ∧ level ≤ 5 := by
  have hlookup : ∀ {α : Type} [BEq α] [LawfulBEq α] {table : List (α × Nat)} {key : α},
      (∀ entry ∈ table, 1 ≤ entry.2 ∧ entry.2 ≤ 5) →
      table.lookup key = some level → 1 ≤ level ∧ level ≤ 5 := by
    intro α _ _ table key hall hfound
    obtain ⟨before, after, hsplit, -⟩ := List.lookup_eq_some_iff.1 hfound
    exact hall (key, level) (by rw [hsplit]; simp)
  simp only [resolve] at h
  split at h
  · rename_i hfound
    cases h
    exact hlookup (by decide) hfound
  · rename_i hfound
    cases h
    unfold bracketLevel? at hfound
    split at hfound
    · exact hlookup (by decide) hfound
    · cases hfound
  · rename_i hfound
    cases h
    exact hlookup (by decide) hfound
  · split at h
    · split at h
      · rename_i n _
        have hrange : inRange? n = some level := Except.ok.inj h
        simp only [inRange?, Option.ite_none_right_eq_some, Option.some.injEq] at hrange
        omega
      · cases h
    · cases h

theorem Recurrence.isRestated_of_parse {s : Text} {recurrence : Recurrence}
    (h : parse s = .ok (some recurrence)) (hline : '\n' ∉ s) :
    recurrence.IsRestated := by
  obtain ⟨text, htext, hparse, htrimmed⟩ := parse_text h
  refine ⟨text, htext, hparse, htrimmed, fun hmem => ?_⟩
  rcases isPhrase_of_parse h with ⟨words, rule, hphrase, rfl⟩ | ⟨rfl, -⟩
  · obtain rfl := Except.ok.inj (hphrase.phrase_eq.symm.trans htext)
    rcases hphrase.forall_char _ hmem with hspace | hletter
    · exact absurd hspace (by decide)
    · exact absurd hletter (by decide)
  · obtain rfl : trim s = text := Except.ok.inj htext
    exact hline (mem_of_mem_trim hmem)

theorem isName_trim {s : Text} (hne : trim s ≠ []) (hline : '\n' ∉ s) : IsName (trim s) :=
  ⟨isTrimmed_trim hne, fun hmem => hline (mem_of_mem_trim hmem)⟩

/-! ## Fields are set one after the other -/

namespace Note

variable {today : Date} {metadata result : Metadata} {raw : Text}

theorem isName_of_or {name : Text} {before : Option Text}
    (hbefore : ∀ name, before = some name → IsName name) (hline : '\n' ∉ raw)
    (h : (if (trim raw).isEmpty then none else some (trim raw)).or before = some name) :
    IsName name := by
  rcases Option.or_eq_some_iff.1 h with h | ⟨-, h⟩
  · split at h
    · cases h
    · rename_i hne
      obtain rfl := Option.some.inj h
      exact isName_trim (by simpa using hne) hline
  · exact hbefore name h

theorem isOfLine_of_setField (h : metadata.IsOfLine) {field : Field} (hline : '\n' ∉ raw)
    (hset : setField today metadata field raw = .ok result) :
    result.IsOfLine := by
  cases field with
  | date kind =>
    obtain ⟨timestamp?, hresolve, hset⟩ := Result.bind_eq_ok.1 hset
    cases timestamp? with
    | none =>
      cases hset
      exact h
    | some timestamp =>
      cases hset
      refine { h with dates := fun field found hfound => ?_ }
      by_cases hsame : field = kind
      · subst hsame
        rw [Dates.get_set] at hfound
        cases hfound
        exact DateText.exists_moment_of_resolve hresolve
      · rw [Dates.get_set_of_ne _ _ hsame] at hfound
        exact h.dates field found hfound
  | priority =>
    obtain ⟨level?, hresolve, hset⟩ := Result.bind_eq_ok.1 hset
    cases level? with
    | none =>
      cases hset
      exact h
    | some level =>
      cases hset
      refine { h with priority := fun found hfound => ?_ }
      cases hfound
      have hrange := Priority.inRange_of_resolve hresolve
      omega
  | recurrence =>
    obtain ⟨recurrence?, hparse, hset⟩ := Result.bind_eq_ok.1 hset
    cases recurrence? with
    | none =>
      cases hset
      exact h
    | some recurrence =>
      cases hset
      refine { h with recurrence := fun found hfound => ?_ }
      cases hfound
      exact Recurrence.isRestated_of_parse hparse hline
  | project =>
    cases hset
    exact { h with project := fun name hname => isName_of_or h.project hline hname }
  | area =>
    cases hset
    exact { h with area := fun name hname => isName_of_or h.area hline hname }
  | context =>
    cases hset
    exact { h with context := fun name hname => isName_of_or h.context hline hname }
  | tags =>
    cases hset
    exact h

theorem isOfLine_of_foldlM {fields : List (Field × Text)} (h : metadata.IsOfLine)
    (hline : ∀ entry ∈ fields, '\n' ∉ entry.2)
    (hset : fields.foldlM (fun metadata (field, raw) => setField today metadata field raw)
      metadata = .ok result) : result.IsOfLine := by
  induction fields generalizing metadata with
  | nil =>
    cases hset
    exact h
  | cons entry fields ih =>
    rw [List.foldlM_cons] at hset
    obtain ⟨next, hnext, hset⟩ := Result.bind_eq_ok.1 hset
    exact ih (isOfLine_of_setField h (hline entry List.mem_cons_self) hnext)
      (fun other hother => hline other (List.mem_cons_of_mem _ hother)) hset

/-- What the markup of a line gives is metadata as a line gives it. -/
theorem isOfLine_of_lineMetadata {settings : Settings} (hmarks : Markup.KeepsMarks settings)
    {content : Text} {extraction : Markup.Extraction}
    (hextract : Markup.extract settings today content = .ok extraction) (hline : '\n' ∉ content)
    (h : lineMetadata today none extraction = .ok metadata) : metadata.IsOfLine := by
  obtain ⟨tokens, htokens, hfields, hcustom, htags⟩ :=
    Markup.isOnLine_of_extract hmarks hextract hline
  have hwinners : ∀ token ∈ Markup.winners tokens, token.IsOnLine := fun token htoken =>
    htokens token (Markup.mem_of_mem_winners htoken).1
  refine isOfLine_of_foldlM ?_ (fun entry hentry => ?_) h
  · refine ⟨?_, nofun, nofun, nofun, nofun, nofun, ?_, ?_, ⟨extraction.custom, rfl, ?_, ?_⟩,
      rfl, rfl, rfl⟩
    · intro field timestamp hfound
      cases field <;> cases hfound
    · show extraction.tags.Nodup
      rw [htags]
      exact Markup.nodup_eraseDups _
    · intro tag htag
      replace htag : tag ∈ extraction.tags := htag
      rw [htags, Markup.mem_tagValues_iff] at htag
      obtain ⟨token, hmem, hslot, rfl⟩ := htag
      exact ⟨(htokens token hmem).tag hslot, (htokens token hmem).value⟩
    · rw [hcustom]
      exact Markup.nodup_customValues tokens
    · intro entry hentry
      rw [hcustom] at hentry
      obtain ⟨token, htoken, hslot, hvalue⟩ := Markup.mem_customValues_iff.1 hentry
      obtain ⟨hisKey, htrimmed, hkeyLine, hsame, hvalueTrimmed⟩ :=
        (hwinners token htoken).custom entry.1 hslot
      rw [← hvalue]
      exact ⟨hisKey, ⟨htrimmed, hkeyLine⟩, hsame, hvalueTrimmed, (hwinners token htoken).value⟩
  · rw [hfields] at hentry
    obtain ⟨token, htoken, -, hvalue⟩ := Markup.mem_fieldValues_iff.1 hentry
    rw [← hvalue]
    exact (hwinners token htoken).value

end Note
end Checklist
