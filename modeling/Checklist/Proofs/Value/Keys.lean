import Checklist.Field
import Checklist.Value.Display
import Checklist.Proofs.Text

/-! # Keys that stand for fields

The key of an entry can be a value of any kind, and stands for a field if it is written like one.
Main statement: only texts do (`exists_word_of_ofKey?`); other values are written with digits and
signs, or as a word that stands for no field. -/

namespace Checklist
set_option autoImplicit false
open Text

/-! ## Signs -/

/-- Digits and signs of which no word for a field holds any. -/
def outsideWords : Text :=
  "0123456789-+.:[\x7b'\"".toList

namespace Field

theorem isLower_of_ofKey? {key : Text} {field : Field} (h : ofKey? key = some field) :
    ∀ c ∈ lower key, c.isLower = true := by
  rcases Option.or_eq_some_iff.1 h with hlookup | ⟨-, hfind⟩
  · have hwords : ∀ entry ∈ words, ∀ c ∈ entry.1, c.isLower = true := by decide
    obtain ⟨before, after, hsplit, -⟩ := List.lookup_eq_some_iff.1 hlookup
    exact hwords (lower key, field) (by rw [hsplit]; simp)
  · have hnames : ∀ other ∈ all, ∀ c ∈ lower other.name, c.isLower = true := by decide +kernel
    have hname := List.find?_some hfind
    rw [← beq_iff_eq.1 hname]
    exact hnames field (List.mem_of_mem_erase (List.mem_of_find?_eq_some hfind))

theorem ofKey?_eq_none_of_mem {key : Text} {c : Char} (hc : c ∈ outsideWords) (hkey : c ∈ key) :
    ofKey? key = none := by
  have hsign : ∀ c ∈ outsideWords, c ≠ 'İ' ∧ c ≠ 'Σ' ∧ lowerChar c = c ∧
      c.isLower = false := by decide
  obtain ⟨hI, hSigma, hlower, hnot⟩ := hsign c hc
  cases h : ofKey? key with
  | none => rfl
  | some field =>
    have hyes := isLower_of_ofKey? h _ (mem_lower hI hSigma hkey)
    rw [hlower, hnot] at hyes
    cases hyes

end Field

/-! ## Values -/

theorem exists_digit_ofNat (n : Nat) : ∃ c ∈ ofNat n, c ∈ outsideWords := by
  obtain ⟨c, rest, hn⟩ := List.exists_cons_of_ne_nil (ofNat_ne_nil n)
  have hc : c ∈ ofNat n := by rw [hn]; exact List.mem_cons_self
  exact ⟨c, hc, forall_digit (P := (· ∈ outsideWords)) (by decide) (isDigit_of_mem_ofNat hc)⟩

theorem exists_sign_text (x : Binary64) : (∃ c ∈ x.text, c ∈ outsideWords) ∨
    Field.ofKey? x.text = none := by
  have hdecimal : ∀ d : Binary64.Decimal, ∃ c ∈ d.text, c ∈ outsideWords := by
    intro d
    unfold Binary64.Decimal.text
    dsimp only
    split
    · split
      · exact ⟨'.', by simp, by decide⟩
      · split
        · exact ⟨'.', by simp, by decide⟩
        · exact ⟨'.', by simp, by decide⟩
    · exact ⟨_,
        List.mem_append_left _
          (List.mem_append_right _ (List.mem_cons_of_mem _ List.mem_cons_self)),
          by split <;> decide⟩
  cases x with
  | nan => exact .inr (by decide +kernel)
  | infinite negative => cases negative <;> exact .inr (by decide +kernel)
  | finite negative mantissa exponent =>
    have hdigits :
        ∃ c ∈ (if mantissa == 0 then
          "0.0".toList else (Binary64.shortest (.finite false mantissa exponent)).stripZeros.text),
          c ∈ outsideWords := by
      split
      · exact ⟨'.', by simp, by decide⟩
      · exact hdecimal _
    obtain ⟨c, hc, hsign⟩ := hdigits
    exact .inl ⟨c, List.mem_append_right _ hc, hsign⟩

/-- Only texts stand for fields. -/
theorem exists_word_of_ofKey? {key : Value} {field : Field}
    (h : Field.ofKey? key.display = some field) : ∃ word, key = .str word := by
  have hsign : ∀ c ∈ outsideWords, c ∉ key.display := by
    intro c hc hkey
    rw [Field.ofKey?_eq_none_of_mem hc hkey] at h
    cases h
  have hword : ∀ word : Text, Field.ofKey? word = none → key.display ≠ word := by
    rintro word hnone rfl
    rw [hnone] at h
    cases h
  cases key with
  | str word => exact ⟨word, rfl⟩
  | null => exact absurd rfl (hword "None".toList (by decide +kernel))
  | bool b => cases b with
    | false => exact absurd rfl (hword "False".toList (by decide +kernel))
    | true => exact absurd rfl (hword "True".toList (by decide +kernel))
  | int n => cases n with
    | ofNat n =>
      obtain ⟨c, hc, hdigit⟩ := exists_digit_ofNat n
      exact absurd hc (hsign c hdigit)
    | negSucc n => exact absurd List.mem_cons_self (hsign '-' (by decide))
  | float x =>
    rcases exists_sign_text x with ⟨c, hc, hmark⟩ | hnone
    · exact absurd hc (hsign c hmark)
    · exact absurd rfl (hword _ hnone)
  | bytes octets =>
    have hquote : Value.quoteFor (octets.map fun octet => Char.ofNat octet.toNat) ∈
        outsideWords := by
      unfold Value.quoteFor
      split <;> decide
    exact absurd (List.mem_cons_of_mem _ List.mem_cons_self) (hsign _ hquote)
  | date d =>
    exact absurd (by simp [Value.display, Date.text, Date.textWith]) (hsign '-' (by decide))
  | moment m offset =>
    exact absurd (by simp [Value.display, Moment.textWith]) (hsign ':' (by decide))
  | list items => exact absurd List.mem_cons_self (hsign '[' (by decide))
  | set items => cases items with
    | nil => exact absurd rfl (hword "set()".toList (by decide +kernel))
    | cons item items => exact absurd List.mem_cons_self (hsign '\x7b' (by decide))
  | map entries => exact absurd List.mem_cons_self (hsign '\x7b' (by decide))
  | ring isMapping => cases isMapping with
    | false => exact absurd List.mem_cons_self (hsign '[' (by decide))
    | true => exact absurd List.mem_cons_self (hsign '\x7b' (by decide))

end Checklist
