import Checklist.Proofs.Recurrence

/-! # Lower case twice

A text in lower case is its own lower-case form. Main statement: `lower_lower`. It rests on the
table of capitals: no lower-case form is a capital itself (`has_form_eq_false`). -/

namespace Checklist.Text
set_option autoImplicit false
open Recurrence (isLow lower_eq_self)

/-! ## Capitals and their forms -/

namespace CapitalRange

variable {range other : CapitalRange} {code : Nat}

/-- The code point of the lower-case form of a capital in the range. -/
def form (range : CapitalRange) (code : Nat) : Nat :=
  (code + range.shift).toNat

def forms (range : CapitalRange) : List Nat :=
  (List.range ((range.last - range.first) / range.stride + 1)).map fun n =>
    range.form (range.first + n * range.stride)

/-- The lower-case forms of the first range lie in front of the second range or behind it. -/
def isApart (range other : CapitalRange) : Bool :=
  range.form range.last < other.first || other.last < range.form range.first

theorem form_mem_forms (h : range.has code = true) : range.form code ∈ range.forms := by
  simp only [has, Bool.and_eq_true, decide_eq_true_eq, beq_iff_eq] at h
  obtain ⟨⟨hfirst, hlast⟩, hstride⟩ := h
  have hcount : (code - range.first) / range.stride ≤ (range.last - range.first) / range.stride :=
    Nat.div_le_div_right (by omega)
  have hcode : range.first + (code - range.first) / range.stride * range.stride = code := by
    rw [Nat.div_mul_cancel (Nat.dvd_of_mod_eq_zero hstride)]
    omega
  exact List.mem_map.2 ⟨(code - range.first) / range.stride, List.mem_range.2 (by omega), by rw [hcode]⟩

theorem has_form_of_isApart (h : range.has code = true) (hapart : range.isApart other = true) :
    other.has (range.form code) = false := by
  simp only [has, Bool.and_eq_true, decide_eq_true_eq, beq_iff_eq] at h
  simp only [isApart, Bool.or_eq_true, decide_eq_true_eq] at hapart
  unfold form at hapart
  have houtside : ¬(other.first ≤ range.form code ∧ range.form code ≤ other.last) := by
    unfold form
    omega
  simp only [has, Bool.and_eq_false_iff, decide_eq_false_iff_not]
  exact .inl (not_and_or.1 houtside)

end CapitalRange

/-- The ranges that the forms of a range may fall into are few, and none of the forms is a
capital there. -/
theorem all_isApart_or : (capitalRanges.all fun range => capitalRanges.all fun other =>
    range.isApart other || range.forms.all fun form => !other.has form) = true := by
  decide +kernel

/-- The dotted I and the sigma are the form of nothing, and an ASCII character that is a form is
none of the ASCII capitals. -/
theorem all_forms : (capitalRanges.all fun range => range.forms.all fun form =>
    form != 'İ'.toNat && form != 'Σ'.toNat &&
      (128 ≤ form || (Char.ofNat form).toLower == Char.ofNat form)) = true := by
  decide +kernel

variable {range other : CapitalRange} {code : Nat}

theorem has_form_eq_false (hrange : range ∈ capitalRanges) (hcode : range.has code = true)
    (hother : other ∈ capitalRanges) :
    other.has (range.form code) = false := by
  have hpair := List.all_eq_true.1 (List.all_eq_true.1 all_isApart_or range hrange) other hother
  rcases Bool.or_eq_true_iff.1 hpair with hapart | hforms
  · exact CapitalRange.has_form_of_isApart hcode hapart
  · simpa using List.all_eq_true.1 hforms _ (CapitalRange.form_mem_forms hcode)

theorem isLow_form (hrange : range ∈ capitalRanges) (hcode : range.has code = true) :
    isLow (Char.ofNat (range.form code)) = true := by
  by_cases hvalid : (range.form code).isValidChar
  · have htoNat : (Char.ofNat (range.form code)).toNat = range.form code := by
      rw [Char.ofNat, dif_pos hvalid]
      rfl
    have hform := List.all_eq_true.1 (List.all_eq_true.1 all_forms range hrange) _
      (CapitalRange.form_mem_forms hcode)
    simp only [Bool.and_eq_true, bne_iff_ne, Bool.or_eq_true, decide_eq_true_eq, beq_iff_eq] at hform
    obtain ⟨⟨hI, hSigma⟩, hascii⟩ := hform
    have hnone : capitalRanges.find? (·.has (range.form code)) = none :=
      List.find?_eq_none.2 fun other hother => by simp [has_form_eq_false hrange hcode hother]
    have hlower : lowerChar (Char.ofNat (range.form code)) = Char.ofNat (range.form code) := by
      rw [lowerChar, htoNat, hnone]
      split
      · exact hascii.resolve_left (by omega)
      · rfl
    simp only [isLow, Bool.and_eq_true, bne_iff_ne, beq_iff_eq]
    exact ⟨⟨fun h => hI (by rw [← h, htoNat]), fun h => hSigma (by rw [← h, htoNat])⟩, hlower⟩
  · rw [Char.ofNat, dif_neg hvalid]
    decide

/-! ## Lower case -/

theorem isLow_lowerChar {c : Char} (hI : c ≠ 'İ') (hSigma : c ≠ 'Σ') :
    isLow (lowerChar c) = true := by
  by_cases hascii : c.toNat < 128
  · have hall : ∀ n < 128, isLow (lowerChar (Char.ofNat n)) = true := by decide +kernel
    simpa [Char.ofNat_toNat] using hall _ hascii
  · cases hfind : capitalRanges.find? (·.has c.toNat) with
    | none =>
      have hlower : lowerChar c = c := by rw [lowerChar, if_neg hascii, hfind]
      simp [isLow, hlower, hI, hSigma]
    | some range =>
      have hlower : lowerChar c = Char.ofNat (range.form c.toNat) := by rw [lowerChar,
        if_neg hascii, hfind, CapitalRange.form]
      rw [hlower]
      exact isLow_form (List.mem_of_find?_eq_some hfind) (by simpa using List.find?_some hfind)

theorem isLow_of_mem_lower {s : Text} {c : Char} (h : c ∈ lower s) : isLow c = true := by
  unfold lower at h
  generalize [] = before at h
  induction s generalizing before with
  | nil => cases h
  | cons d rest ih =>
    rw [lowerAfter, List.mem_append] at h
    rcases h with h | h
    · split at h
      · have hboth : ∀ e ∈ ['i', '\u0307'], isLow e = true := by decide +kernel
        exact hboth c h
      · split at h
        · have hboth : isLow 'ς' = true ∧ isLow 'σ' = true := by decide +kernel
          rw [List.mem_singleton.1 h]
          split
          · exact hboth.1
          · exact hboth.2
        · rw [List.mem_singleton.1 h]
          exact isLow_lowerChar (by simpa using ‹¬(d == 'İ') = true›)
            (by simpa using ‹¬(d == 'Σ') = true›)
    · exact ih _ h

theorem lower_ne_nil {s : Text} (h : s ≠ []) : lower s ≠ [] := by
  obtain ⟨c, rest, rfl⟩ := List.exists_cons_of_ne_nil h
  rw [lower, lowerAfter]
  split
  · simp
  · split <;> simp

theorem lower_lower (s : Text) : lower (lower s) = lower s :=
  lower_eq_self fun _ => isLow_of_mem_lower

end Checklist.Text
