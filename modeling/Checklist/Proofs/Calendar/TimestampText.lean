import Checklist.Proofs.Calendar.DateCache
import Checklist.Proofs.Calendar.DateText

/-! # Timestamps as texts

From the year 1000 on a timestamp is written with all digits of its year. Main statement: the text
of a timestamp is read as the second in which it lies, whatever a cache has seen before, so that
texts tell seconds apart (`timestampText_names_second`). -/

namespace Checklist
set_option autoImplicit false
open Text

namespace Moment

/-- The timestamp lies on the day. -/
def IsOn (date : Date) (timestamp : Int) : Prop :=
  ((date.number : Int) - epochDay) * 86400000 ≤ timestamp ∧
    timestamp < ((date.number : Int) - epochDay + 1) * 86400000

theorem ofTimestamp_of_fdiv {timestamp other : Int} {moment : Moment}
    (hsecond : timestamp.fdiv 1000 = other.fdiv 1000)
    (h : ofTimestamp other = .ok moment) : ofTimestamp timestamp = .ok moment := by
  simp only [ofTimestamp] at h
  simp only [ofTimestamp, hsecond]
  split at h
  · rename_i hrange
    rw [if_pos hrange]
    exact h
  · cases h

theorem IsOn.exists_moment {date : Date} {timestamp : Int} (h : IsOn date timestamp) :
    ∃ moment : Moment, moment.date = date ∧ moment.micro = 0 ∧
      moment.seconds = timestamp.fdiv 1000 := by
  have hdiv : timestamp.fdiv 1000 = timestamp / 1000 := Int.fdiv_eq_ediv_of_nonneg _ (by decide)
  obtain ⟨hstart, hend⟩ := h
  -- Seconds are rounded down, also before the epoch, so the rest of the day is a natural number.
  obtain ⟨time, htime⟩ : ∃ time : Nat,
      (time : Int) = timestamp / 1000 - ((date.number : Int) - epochDay) * 86400 :=
    ⟨(timestamp / 1000 - ((date.number : Int) - epochDay) * 86400).toNat, by omega⟩
  have hreal : isReal (time / 3600) (time / 60 % 60) (time % 60) 0 = true := isReal_iff.2 (by omega)
  refine ⟨⟨date, time / 3600, time / 60 % 60, time % 60, 0, hreal⟩, rfl, rfl, ?_⟩
  rw [hdiv, seconds]
  dsimp only
  omega

/-- A timestamp has the moment of the second in which it lies, the first day of the
calendar apart. -/
theorem IsOn.exists_ofTimestamp {date : Date} {timestamp : Int} (h : IsOn date timestamp)
    (hfirst : date.number ≠ 0) :
    ∃ moment : Moment, moment.date = date ∧ moment.micro = 0 ∧
      moment.seconds = timestamp.fdiv 1000 ∧ ofTimestamp timestamp = .ok moment := by
  obtain ⟨moment, rfl, hwhole, hseconds⟩ := h.exists_moment
  have hsecond : timestamp.fdiv 1000 =
      (moment.seconds * 1000).fdiv 1000 := by rw [Int.mul_fdiv_cancel _ (by decide), hseconds]
  exact ⟨moment, rfl, hwhole, hseconds, ofTimestamp_of_fdiv hsecond (ofTimestamp_seconds hwhole hfirst)⟩

end Moment

namespace DateText

open Moment

theorem exists_text_of_isOn {date : Date} (hyear : 1000 ≤ date.year) {timestamp : Int}
    (h : IsOn date timestamp) :
    ∃ text, timestampText timestamp = .ok text ∧ ∀ today,
      resolve today text = .ok (some (1000 * timestamp.fdiv 1000)) := by
  have hfirst := Date.number_ne_zero hyear
  obtain ⟨moment, rfl, hwhole, hseconds, hmoment⟩ := h.exists_ofTimestamp hfirst
  -- The text is that of the start of the second, for which the round trip is known.
  have htext : timestampText timestamp = timestampText (moment.seconds * 1000) := by
    rw [timestampText, timestampText, hmoment, ofTimestamp_seconds hwhole hfirst]
  refine ⟨moment.date.text ++ clockText moment, ?_, fun today => ?_⟩
  · rw [htext, timestampText_seconds hwhole hfirst, textWith_one hyear]
  · rw [resolve_timestampText hwhole hfirst, hseconds, Int.mul_comm]

/-- The text of a timestamp from the year 1000 on is read, on any day and after any look-ups, as the
start of the second in which the timestamp lies; two timestamps have one text exactly if they lie in
one second. -/
theorem timestampText_names_second {date : Date} (hyear : 1000 ≤ date.year) {timestamp : Int}
    (h : IsOn date timestamp) :
    ∃ text, timestampText timestamp = .ok text ∧
      (∀ limit calls today, 1 ≤ limit →
        ((DateCache.run limit calls).timestamp? today (.str text)).1 =
          .ok (some (1000 * timestamp.fdiv 1000))) ∧
      ∀ otherDate other, 1000 ≤ otherDate.year → IsOn otherDate other →
        (timestampText other = .ok text ↔ other.fdiv 1000 = timestamp.fdiv 1000) := by
  obtain ⟨text, htext, hresolve⟩ := exists_text_of_isOn hyear h
  refine ⟨text, htext, fun limit calls today hlimit => ?_, fun otherDate other hyear' h' =>
    ⟨fun hsame => ?_, fun hsecond => ?_⟩⟩
  · rw [DateCache.fst_timestamp?_run hlimit]
    exact hresolve today
  · obtain ⟨text', htext', hresolve'⟩ := exists_text_of_isOn hyear' h'
    obtain rfl : text = text' := Except.ok.inj (hsame.symm.trans htext')
    have hread := (hresolve' date).symm.trans (hresolve date)
    simp only [Except.ok.injEq, Option.some.injEq] at hread
    omega
  · obtain ⟨moment, hmoment, -⟩ := Result.bind_eq_ok.1 htext
    rw [← htext, timestampText, timestampText, hmoment, ofTimestamp_of_fdiv hsecond hmoment]

/-- The last day before the epoch. -/
def newYearsEve : Date :=
  ⟨1969, 12, 31, rfl⟩

theorem timestampText_names_second_newYearsEve :
    timestampText (-1) = .ok "1969-12-31 23:59:59".toList ∧
      ((DateCache.run 2 DateCache.diaryCalls).timestamp? newYearsEve
        (.str "1969-12-31 23:59:59".toList)).1 = .ok (some (-1000)) ∧
        timestampText (-1000) = .ok "1969-12-31 23:59:59".toList ∧
          timestampText (-1001) ≠ .ok "1969-12-31 23:59:59".toList := by
  have hyear : 1000 ≤ newYearsEve.year := by decide
  have hday : ∀ timestamp, -86400000 ≤ timestamp → timestamp < 0 → IsOn newYearsEve timestamp := by
    have hnumber : newYearsEve.number = 719161 := by decide +kernel
    intro timestamp hstart hend
    rw [IsOn, hnumber, epochDay]
    omega
  have hwritten : timestampText (-1) = .ok "1969-12-31 23:59:59".toList := by decide +kernel
  obtain ⟨text, htext, hread, hsame⟩ :=
    timestampText_names_second hyear (hday (-1) (by decide) (by decide))
  obtain rfl : text = "1969-12-31 23:59:59".toList := Except.ok.inj (htext.symm.trans hwritten)
  refine ⟨htext, hread 2 DateCache.diaryCalls newYearsEve (by decide), ?_, ?_⟩
  · exact (hsame newYearsEve _ hyear (hday _ (by decide) (by decide))).2 (by decide)
  · exact mt (hsame newYearsEve _ hyear (hday _ (by decide) (by decide))).1 (by decide)

end DateText
end Checklist
