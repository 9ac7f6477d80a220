import Checklist.Proofs.Except
import Checklist.Markup.Extraction

/-! # When a mark is a token

Main statements: what the inline fields and the emoji require of a mark before it is a token, and
what the token then says (`judge_dataview_eq_some_iff`, `judge_emoji_eq_some_iff`). -/

namespace Checklist.Markup
set_option autoImplicit false
open Text

variable {settings : Settings} {today : Date} {previous : Option Char}
  {site : Site} {verdict : Verdict}

theorem judge_dataview_eq_some_iff :
    (dataview settings today).judge previous site = .ok (some verdict) ↔
    ∃ key value, inlineField? site.mark = some (key, value) ∧ trim key ≠ [] ∧ trim value ≠ [] ∧
      makesSense today (inlineSlot settings (trim key)) (trim value) = .ok true ∧
        verdict = ⟨⟨.dataview, inlineSlot settings (trim key), trim value, site.mark⟩,
          false, site.after⟩ := by
  simp only [dataview]
  cases hfield : inlineField? site.mark with
  | none => exact iff_of_false nofun fun ⟨_, _, hsome, _⟩ => nomatch hsome
  | some found =>
    obtain ⟨key, value⟩ := found
    simp only
    constructor
    · intro h
      split at h
      · cases h
      · rename_i hempty
        simp only [Bool.or_eq_true, List.isEmpty_iff, not_or] at hempty
        obtain ⟨sense, hsense, h⟩ := Result.bind_eq_ok.1 h
        cases sense <;> cases h
        exact ⟨key, value, rfl, hempty.1, hempty.2, hsense, rfl⟩
    · rintro ⟨key', value', hsome, hkey, hvalue, hsense, rfl⟩
      cases hsome
      rw [if_neg (by simp [hkey, hvalue]), hsense]
      rfl

/-- The value behind the symbol that a mark is, and the text behind the value. -/
def valueAt (settings : Settings) (field : Field) (symbol : Text) (previous : Option Char)
    (site : Site) : Text × Text :=
  symbolValue (plainSymbols settings) field symbol (lastOr previous site.mark) site.after

theorem judge_emoji_eq_some_iff : (emoji settings today).judge previous site = .ok (some verdict) ↔
    ∃ symbol field, symbol? (plainSymbols settings) site.mark = some symbol ∧
      (plainSymbols settings).lookup symbol = some field ∧
      ((valueAt settings field symbol previous site).1 = [] → field = .priority) ∧
        isUndated today field (valueAt settings field symbol previous site).1 = .ok false ∧
          verdict = ⟨⟨.emoji, .field field, (valueAt settings field symbol previous site).1,
            site.mark ++ site.after.take
              (site.after.length - (valueAt settings field symbol previous site).2.length)⟩, false,
            (valueAt settings field symbol previous site).2⟩ := by
  simp only [emoji]
  cases hsymbol : symbol? (plainSymbols settings) site.mark with
  | none => exact iff_of_false nofun fun ⟨_, _, hsome, _⟩ => nomatch hsome
  | some symbol =>
    simp only
    cases hfield : (plainSymbols settings).lookup symbol with
    | none =>
      refine iff_of_false nofun ?_
      rintro ⟨symbol', field, hsome, hlookup, -⟩
      cases hsome
      rw [hfield] at hlookup
      cases hlookup
    | some field =>
      simp only
      constructor
      · intro h
        split at h
        · cases h
        · rename_i hempty
          obtain ⟨undated, hundated, h⟩ := Result.bind_eq_ok.1 h
          cases undated <;> cases h
          refine ⟨symbol, field, rfl, hfield, fun hvalue => ?_, hundated, rfl⟩
          rw [valueAt] at hvalue
          simpa [hvalue] using hempty
      · rintro ⟨symbol', field', hsome, hlookup, hempty, hundated, rfl⟩
        cases hsome
        obtain rfl : field = field' := Option.some.inj (hfield.symm.trans hlookup)
        rw [valueAt] at hempty hundated
        rw [if_neg (by simpa using hempty), hundated]
        rfl

end Checklist.Markup
