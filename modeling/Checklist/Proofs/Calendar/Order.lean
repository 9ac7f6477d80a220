import Checklist.Proofs.Calendar.TimestampText
import Mathlib.Data.Int.Interval
import Mathlib.Data.Set.Card

/-! # The order of days and moments

Days and moments come in the order of their parts, the larger ones first. Main statements: days are
numbered in that order (`Date.number_lt_iff`), and the seconds of a moment count the whole seconds
that lie before it (`Moment.ncard_earlier`), so that timestamps come in that order as well
(`Moment.sinceEpoch_lt_iff`). -/

namespace Checklist
set_option autoImplicit false

/-! ## Days -/

namespace Date

/-- The parts of a day, the larger ones first. -/
def parts (date : Date) : List Nat :=
  [date.year, date.month, date.day]

theorem parts_lt_iff {a b : Date} :
    a.parts < b.parts ↔ a.year < b.year ∨ a.year = b.year ∧
      (a.month < b.month ∨ a.month = b.month ∧ a.day < b.day) := by
  simp [parts, List.cons_lt_cons_iff]

theorem number_lt_of_parts_lt {a b : Date} (h : a.parts < b.parts) : a.number < b.number := by
  obtain ⟨⟨hyear, -⟩, ⟨hmonth, -⟩, hday, hday'⟩ := isReal_iff.1 a.real
  obtain ⟨-, -, hother, -⟩ := isReal_iff.1 b.real
  rcases parts_lt_iff.1 h with hlt | ⟨hsame, hrest⟩
  · -- The days of a year end where those of the next one start.
    have hend := number_lt a
    have hstart := @daysBeforeYear_le (a.year + 1) b.year (by omega) hlt
    unfold number at hend ⊢
    omega
  · rw [number, number, ← hsame]
    rcases hrest with hlt | ⟨hsame, hlt⟩
    · have hstart := daysBeforeMonth_le a.year a.month (b.month - a.month - 1)
      have hindex : a.month + 1 + (b.month - a.month - 1) = b.month := by omega
      obtain ⟨earlier, hearlier⟩ : ∃ earlier, a.month = earlier + 1 := ⟨a.month - 1, by omega⟩
      have hsucc := daysBeforeMonth_succ a.year earlier
      rw [← hearlier] at hsucc
      rw [hindex] at hstart
      omega
    · rw [← hsame]
      omega

theorem parts_inj {a b : Date} (h : a.parts = b.parts) : a = b := by
  cases a
  cases b
  simp only [parts, List.cons.injEq, and_true] at h
  obtain ⟨rfl, rfl, rfl⟩ := h
  rfl

/-- Days are numbered in the order of year, month and day. -/
theorem number_lt_iff {a b : Date} : a.number < b.number ↔ a.parts < b.parts := by
  refine ⟨fun h => ?_, number_lt_of_parts_lt⟩
  rcases lt_trichotomy a.parts b.parts with hlt | heq | hgt
  · exact hlt
  · rw [parts_inj heq] at h
    omega
  · have := number_lt_of_parts_lt hgt
    omega

theorem number_inj {a b : Date} (h : a.number = b.number) : a = b := by
  have hfound := ofNumber?_number a
  rw [h, ofNumber?_number] at hfound
  exact (Option.some.inj hfound).symm

/-- The first day of the calendar, which has no timestamp. -/
def first : Date :=
  ⟨1, 1, 1, rfl⟩

theorem number_eq_zero_iff {date : Date} : date.number = 0 ↔ date = first :=
  ⟨fun h => number_inj h, fun h => h ▸ rfl⟩

end Date

/-! ## Moments -/

namespace Moment

/-- The parts of a moment down to the second, the larger ones first. -/
def clock (moment : Moment) : List Nat :=
  moment.date.parts ++ [moment.hour, moment.minute, moment.second]

theorem seconds_lt_iff {a b : Moment} : a.seconds < b.seconds ↔ a.clock < b.clock := by
  obtain ⟨hhour, hminute, hsecond, -⟩ := isReal_iff.1 a.real
  obtain ⟨hhour', hminute', hsecond', -⟩ := isReal_iff.1 b.real
  have hlt := (@Date.number_lt_iff a.date b.date).trans Date.parts_lt_iff
  have hgt := (@Date.number_lt_iff b.date a.date).trans Date.parts_lt_iff
  simp only [clock, Date.parts, List.cons_append, List.nil_append, List.cons_lt_cons_iff,
    List.not_lt_nil, and_false, or_false]
  unfold seconds
  omega

/-- The whole seconds of the calendar before a moment. -/
def earlier (moment : Moment) : Set Moment :=
  { other | other.micro = 0 ∧ other.clock < moment.clock }

theorem clock_inj {a b : Moment} (ha : a.micro = 0) (hb : b.micro = 0)
    (h : a.clock = b.clock) : a = b := by
  obtain ⟨date, hour, minute, second, micro, real⟩ := a
  obtain ⟨date', hour', minute', second', micro', real'⟩ := b
  obtain ⟨hparts, htime⟩ := List.append_inj h rfl
  obtain rfl := Date.parts_inj hparts
  simp only [List.cons.injEq, and_true] at htime
  obtain ⟨rfl, rfl, rfl⟩ := htime
  obtain rfl : micro = 0 := ha
  obtain rfl : micro' = 0 := hb
  rfl

theorem seconds_inj {a b : Moment} (ha : a.micro = 0) (hb : b.micro = 0)
    (h : a.seconds = b.seconds) : a = b := by
  rcases lt_trichotomy a.clock b.clock with hlt | hclock | hgt
  · have := seconds_lt_iff.2 hlt
    omega
  · exact clock_inj ha hb hclock
  · have := seconds_lt_iff.2 hgt
    omega

theorem le_seconds (moment : Moment) : -epochDay * 86400 ≤ moment.seconds := by
  unfold seconds
  omega

theorem exists_moment_of_lt {moment : Moment} {second : Int} (hfirst : -epochDay * 86400 ≤ second)
    (h : second < moment.seconds) :
    ∃ other : Moment, other.micro = 0 ∧ other.seconds = second := by
  obtain ⟨hhour, hminute, hsecond, -⟩ := isReal_iff.1 moment.real
  have hlast := Date.number_lt_count moment.date
  unfold seconds at h
  unfold epochDay at h hfirst
  obtain ⟨number, hnumber⟩ : ∃ number : Nat, (number : Int) = second / 86400 + 719162 :=
    ⟨(second / 86400 + 719162).toNat, by omega⟩
  obtain ⟨date, rfl⟩ := Date.exists_date_of_lt_count (by omega : number < Date.count)
  have hon : IsOn date (second * 1000) := by
    unfold IsOn epochDay
    omega
  obtain ⟨other, -, hmicro, hseconds⟩ := hon.exists_moment
  exact ⟨other, hmicro, by rw [hseconds, Int.mul_fdiv_cancel _ (by decide)]⟩

theorem image_seconds_earlier (moment : Moment) :
    seconds '' moment.earlier =
      { second : Int | -epochDay * 86400 ≤ second ∧ second < moment.seconds } := by
  ext second
  constructor
  · rintro ⟨other, hother, rfl⟩
    exact ⟨le_seconds other, seconds_lt_iff.2 hother.2⟩
  · rintro ⟨hfirst, hlt⟩
    obtain ⟨other, hmicro, rfl⟩ := exists_moment_of_lt hfirst hlt
    exact ⟨other, ⟨hmicro, seconds_lt_iff.1 hlt⟩, rfl⟩

/-- The seconds of a moment count the whole seconds before it. -/
theorem ncard_earlier (moment : Moment) :
    (moment.earlier.ncard : Int) = moment.seconds + epochDay * 86400 := by
  have hinj : Set.InjOn seconds moment.earlier := fun a ha b hb h => seconds_inj ha.1 hb.1 h
  have hrange : seconds '' moment.earlier = ↑(Finset.Ico (-epochDay * 86400) moment.seconds) := by
    rw [image_seconds_earlier]
    ext second
    simp
  have hfirst := le_seconds moment
  rw [← hinj.ncard_image, hrange, Set.ncard_coe_finset, Int.card_Ico]
  omega

/-! ## Timestamps -/

def epoch : Moment :=
  ofDate ⟨1970, 1, 1, rfl⟩

/-- The milliseconds from the start of 1970 to a moment: a thousand for every second that the
calendar counts in between. -/
noncomputable def sinceEpoch (moment : Moment) : Int :=
  1000 * ((moment.earlier.ncard : Int) - epoch.earlier.ncard)

theorem sinceEpoch_eq (moment : Moment) : moment.sinceEpoch = moment.seconds * 1000 := by
  have hepoch : epoch.seconds = 0 := by decide +kernel
  rw [sinceEpoch, ncard_earlier, ncard_earlier, hepoch]
  omega

theorem sinceEpoch_lt_iff {a b : Moment} : a.sinceEpoch < b.sinceEpoch ↔ a.clock < b.clock := by
  rw [sinceEpoch_eq, sinceEpoch_eq, ← seconds_lt_iff]
  omega

/-- A day as a timestamp, its start. -/
noncomputable def start (date : Date) : Int :=
  (ofDate date).sinceEpoch

theorem start_eq (date : Date) : start date = (date.number - epochDay) * 86400000 := by
  unfold start
  rw [sinceEpoch_eq, seconds]
  dsimp only [ofDate]
  omega

theorem timestamp_ofDate {date : Date} (h : date ≠ Date.first) :
    (ofDate date).timestamp = .ok (start date) := by
  rw [timestamp_eq rfl (mt Date.number_eq_zero_iff.1 h), start, sinceEpoch_eq]

theorem start_lt_iff {a b : Date} : start a < start b ↔ a < b := by
  have horder : a < b ↔ a.number < b.number := Iff.rfl
  rw [start_eq, start_eq, horder]
  unfold epochDay
  omega

end Moment
end Checklist
