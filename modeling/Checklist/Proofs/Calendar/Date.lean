import Checklist.Calendar.Date
import Mathlib.Data.Nat.Init
import Mathlib.Tactic.Common

/-! # A day is found again by its number

The days of a year follow those of the years before it, and the days of a month those of the months
before it. Main statements: the number of a day leads back to the day (`ofNumber?_number`), and
every number below the number of days is that of a day (`exists_date_of_lt_count`). -/

namespace Checklist.Date
set_option autoImplicit false

/-! ## Years -/

theorem daysBeforeYear_succ {year : Nat} (h : 1 ≤ year) :
    daysBeforeYear (year + 1) = daysBeforeYear year +
      (if isLeap year = true then 366 else 365) := by
  obtain ⟨k, rfl⟩ : ∃ k, year = k + 1 := ⟨year - 1, by omega⟩
  have h4 : (k + 1) / 4 = k / 4 + if (k + 1) % 4 = 0 then 1 else 0 := by split <;> omega
  have h100 : (k + 1) / 100 = k / 100 + if (k + 1) % 100 = 0 then 1 else 0 := by split <;> omega
  have h400 : (k + 1) / 400 = k / 400 + if (k + 1) % 400 = 0 then 1 else 0 := by split <;> omega
  have hle : k / 100 ≤ k / 4 := by omega
  have hle400 : (k + 1) % 400 = 0 → (k + 1) % 100 = 0 := by omega
  have hle100 : (k + 1) % 100 = 0 → (k + 1) % 4 = 0 := by omega
  unfold daysBeforeYear isLeap
  simp only [Nat.add_sub_cancel, h4, h100, h400]
  clear h4 h100 h400 h
  generalize k / 4 = a at *
  generalize k / 100 = b at *
  generalize k / 400 = c at *
  by_cases h400 : (k + 1) % 400 = 0
  · have h100 := hle400 h400
    have h4 := hle100 h100
    simp [h4, h100, h400]
    omega
  · by_cases h100 : (k + 1) % 100 = 0
    · have h4 := hle100 h100
      simp [h4, h100, h400]
      omega
    · by_cases h4 : (k + 1) % 4 = 0
      · simp [h4, h100, h400]
        omega
      · simp [h4, h100, h400]
        omega

theorem daysBeforeYear_le {year later : Nat} (h : 1 ≤ year) (hle : year ≤ later) :
    daysBeforeYear year ≤ daysBeforeYear later := by
  induction later, hle using Nat.le_induction with
  | base => exact Nat.le_refl _
  | succ later hle ih =>
    have hsucc := daysBeforeYear_succ (Nat.le_trans h hle)
    omega

theorem yearOf_eq {year number : Nat} (h : 1 ≤ year) (hfirst : daysBeforeYear year ≤ number)
    (hlast : number < daysBeforeYear (year + 1)) : yearOf number = year := by
  have hestimate : number * 400 / 146097 + 1 = year - 1 ∨ number * 400 / 146097 + 1 = year ∨
      number * 400 / 146097 + 1 = year + 1 := by
    unfold daysBeforeYear at hfirst hlast
    omega
  unfold yearOf
  simp only
  rcases hestimate with hestimate | hestimate | hestimate
  · have hback : year - 1 + 1 = year := by omega
    have hearlier := @daysBeforeYear_le (year - 1) year (by omega) (by omega)
    rw [hestimate, if_neg (by omega), hback, if_pos hfirst]
  · rw [hestimate, if_neg (by omega), if_neg (by omega)]
  · rw [hestimate, if_pos hlast]
    omega

/-! ## Months -/

theorem daysInMonth_range (year month : Nat) :
    28 ≤ daysInMonth year month ∧ daysInMonth year month ≤ 31 := by
  unfold daysInMonth
  split
  · split <;> omega
  · split <;> omega

theorem daysBeforeMonth_succ (year month : Nat) :
    daysBeforeMonth year (month + 1 + 1) = daysBeforeMonth year (month + 1) +
      daysInMonth year (month + 1) := by
  simp [daysBeforeMonth, List.range_succ]

theorem daysBeforeMonth_le (year month ahead : Nat) :
    daysBeforeMonth year (month + 1) ≤ daysBeforeMonth year (month + 1 + ahead) := by
  induction ahead with
  | zero => exact Nat.le_refl _
  | succ ahead ih =>
    have hsucc := daysBeforeMonth_succ year (month + ahead)
    have hindex : month + 1 + (ahead + 1) = month + ahead + 1 + 1 := by omega
    have hindex' : month + 1 + ahead = month + ahead + 1 := by omega
    rw [hindex, hsucc]
    rw [hindex'] at ih
    omega

theorem daysBeforeMonth_thirteen (year : Nat) :
    daysBeforeMonth year 13 = if isLeap year = true then 366 else 365 := by
  by_cases h : isLeap year = true <;> simp [daysBeforeMonth, daysInMonth, List.range_succ, h]

theorem monthDay_eq {year later month ahead rest : Nat} (h : ahead ≤ later)
    (hday : rest < daysInMonth year (month + 1 + ahead)) :
    monthDay year (month + 1) later
      (daysBeforeMonth year (month + 1 + ahead) - daysBeforeMonth year (month + 1) + rest) =
      (month + 1 + ahead, rest + 1) := by
  induction ahead generalizing month later with
  | zero =>
    cases later with
    | zero => simp [monthDay]
    | succ later =>
      have hday' : rest < daysInMonth year (month + 1) := hday
      simp [monthDay, hday']
  | succ ahead ih =>
    obtain ⟨later, rfl⟩ : ∃ earlier, later = earlier + 1 := ⟨later - 1, by omega⟩
    have hindex : month + 1 + (ahead + 1) = month + 1 + 1 + ahead := by omega
    have hsucc := daysBeforeMonth_succ year month
    have hle := daysBeforeMonth_le year (month + 1) ahead
    rw [hindex] at hday ⊢
    have hih := @ih later (month + 1) (by omega) hday
    have hrest : daysBeforeMonth year (month + 1 + 1 + ahead) - daysBeforeMonth year (month + 1) +
        rest - daysInMonth year (month + 1) =
        daysBeforeMonth year (month + 1 + 1 + ahead) - daysBeforeMonth year (month + 1 + 1) +
          rest := by omega
    rw [monthDay, if_neg (by omega), hrest]
    exact hih

/-! ## Days -/

theorem isReal_iff {year month day : Nat} : isReal year month day = true ↔
    (1 ≤ year ∧ year ≤ 9999) ∧ (1 ≤ month ∧ month ≤ 12) ∧ 1 ≤ day ∧
      day ≤ daysInMonth year month := by
  simp [isReal, and_assoc]

theorem dayOfYear_lt (date : Date) :
    daysBeforeMonth date.year date.month + (date.day - 1) < if isLeap date.year = true then
      366 else 365 := by
  obtain ⟨-, ⟨hmonth, hmonth'⟩, hday, hday'⟩ := isReal_iff.1 date.real
  obtain ⟨month, hindex⟩ : ∃ month, date.month = month + 1 := ⟨date.month - 1, by omega⟩
  have hsucc := daysBeforeMonth_succ date.year month
  have hle := daysBeforeMonth_le date.year (month + 1) (12 - date.month)
  have hlast : month + 1 + 1 + (12 - date.month) = 13 := by omega
  rw [hlast, daysBeforeMonth_thirteen] at hle
  rw [hindex] at hday' ⊢
  omega

theorem number_lt (date : Date) : date.number < daysBeforeYear (date.year + 1) := by
  obtain ⟨⟨hyear, -⟩, -⟩ := isReal_iff.1 date.real
  have hsucc := daysBeforeYear_succ hyear
  have hday := dayOfYear_lt date
  unfold number
  omega

theorem number_lt_count (date : Date) : date.number < count := by
  obtain ⟨⟨hyear, hyear'⟩, -⟩ := isReal_iff.1 date.real
  have hle := @daysBeforeYear_le (date.year + 1) 10000 (by omega) (by omega)
  have hlast : daysBeforeYear 10000 = count := by decide
  have hlt := number_lt date
  omega

theorem number_ne_zero {date : Date} (h : 1000 ≤ date.year) : date.number ≠ 0 := by
  have hyears : 0 < daysBeforeYear date.year := by
    unfold daysBeforeYear
    omega
  unfold number
  omega

/-- The number of a day leads back to the day. -/
theorem ofNumber?_number (date : Date) : ofNumber? date.number = some date := by
  obtain ⟨⟨hyear, hyear'⟩, ⟨hmonth, hmonth'⟩, hday, hday'⟩ := isReal_iff.1 date.real
  have hrange : (0 : Int) ≤ date.number ∧ (date.number : Int) < count :=
    ⟨by omega, by exact_mod_cast number_lt_count date⟩
  have hnumber : date.number = daysBeforeYear date.year +
      (daysBeforeMonth date.year date.month + (date.day - 1)) := by
    unfold number
    omega
  have hyearOf :=
    yearOf_eq hyear (by omega : daysBeforeYear date.year ≤ date.number) (number_lt date)
  have hmonthDay := @monthDay_eq date.year 11 0 (date.month - 1) (date.day - 1) (by omega)
  have hindex : 0 + 1 + (date.month - 1) = date.month := by omega
  have hstart : daysBeforeMonth date.year (0 + 1) = 0 := rfl
  have hlast : date.day - 1 + 1 = date.day := by omega
  rw [hindex, hstart, hlast] at hmonthDay
  have hrest : date.number - daysBeforeYear date.year = daysBeforeMonth date.year date.month - 0 +
      (date.day - 1) := by omega
  unfold ofNumber?
  rw [if_pos hrange]
  simp only [Int.toNat_natCast, hyearOf]
  rw [hrest, hmonthDay (by omega)]
  exact dif_pos date.real

/-! ## Numbers -/

theorem exists_step (f : Nat → Nat) {first n : Nat} (steps : Nat) (hfirst : f first ≤ n)
    (hlast : n < f (first + steps)) :
    ∃ k, first ≤ k ∧ k < first + steps ∧ f k ≤ n ∧ n < f (k + 1) := by
  induction steps with
  | zero => exact absurd hfirst (Nat.not_le.2 hlast)
  | succ steps ih =>
    by_cases hbelow : n < f (first + steps)
    · obtain ⟨k, hk, hlt, hstep⟩ := ih hbelow
      exact ⟨k, hk, by omega, hstep⟩
    · exact ⟨first + steps, by omega, by omega, by omega, hlast⟩

/-- Every number below the number of days is that of a day. -/
theorem exists_date_of_lt_count {n : Nat} (h : n < count) : ∃ date : Date, date.number = n := by
  have hcount : daysBeforeYear (1 + 9999) = count := by decide
  rw [← hcount] at h
  obtain ⟨year, hyear, hyear', hstart, hend⟩ := exists_step daysBeforeYear 9999 (Nat.zero_le n) h
  obtain ⟨rest, rfl⟩ := Nat.exists_eq_add_of_le hstart
  rw [daysBeforeYear_succ hyear, ← daysBeforeMonth_thirteen] at hend
  obtain ⟨month, hmonth, hmonth', hstart', hend'⟩ :=
    @exists_step (daysBeforeMonth year) 1 rest 12 (Nat.zero_le rest) (Nat.add_lt_add_iff_left.1 hend)
  obtain ⟨earlier, rfl⟩ : ∃ earlier, month = earlier + 1 := ⟨month - 1, by omega⟩
  obtain ⟨day, rfl⟩ := Nat.exists_eq_add_of_le hstart'
  rw [daysBeforeMonth_succ] at hend'
  exact ⟨⟨year, earlier + 1, day + 1, isReal_iff.2 (by omega)⟩, by simp [number, Nat.add_assoc]⟩

end Checklist.Date
