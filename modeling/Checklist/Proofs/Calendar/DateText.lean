import Checklist.Calendar.DateText
import Checklist.Proofs.Calendar.Date
import Checklist.Proofs.Except
import Checklist.Proofs.Text

/-! # A written date is read back

The notation of a timestamp is a literal: the day, and the time unless it is midnight. Main
statements: the notation of a whole second from the year 1000 on names that second
(`resolve_timestampText`), and a timestamp has a moment exactly if it lies on a day of the calendar
after the first one (`ofTimestamp_isOk_iff`). -/

namespace Checklist
set_option autoImplicit false
open Text

/-! ## Timestamps -/

namespace Moment

theorem isReal_iff {hour minute second micro : Nat} :
    isReal hour minute second micro = true ↔ hour < 24 ∧ minute < 60 ∧
      second < 60 ∧ micro < 1000000 := by
  simp [isReal, and_assoc]

theorem of?_self {moment : Moment} (h : moment.micro = 0) :
    of? moment.date moment.hour moment.minute moment.second 0 = some moment := by
  obtain ⟨date, hour, minute, second, micro, real⟩ := moment
  obtain rfl : micro = 0 := h
  exact dif_pos real

theorem seconds_lt_firstSecond_iff {moment : Moment} : moment.seconds < firstSecond ↔
    moment.date.number = 0 := by
  obtain ⟨hhour, hminute, hsecond, -⟩ := isReal_iff.1 moment.real
  unfold seconds firstSecond epochDay
  omega

theorem timestamp_eq {moment : Moment} (hwhole : moment.micro = 0)
    (hfirst : moment.date.number ≠ 0) :
    moment.timestamp = .ok (moment.seconds * 1000) := by
  simp [timestamp, mt seconds_lt_firstSecond_iff.1 hfirst, hwhole]

theorem ofTimestamp_seconds {moment : Moment} (hwhole : moment.micro = 0)
    (hfirst : moment.date.number ≠ 0) :
    ofTimestamp (moment.seconds * 1000) = .ok moment := by
  obtain ⟨hhour, hminute, hsecond, -⟩ := isReal_iff.1 moment.real
  have hlast := Date.number_lt_count moment.date
  have htime : ∃ time : Nat, time = moment.hour * 3600 + moment.minute * 60 + moment.second ∧
      time < 86400 := ⟨_, rfl, by omega⟩
  obtain ⟨time, htime, hlt⟩ := htime
  have hseconds : moment.seconds = ((moment.date.number : Int) - epochDay) * 86400 + time := by
    unfold seconds
    omega
  have hdiv : (moment.seconds * 1000).fdiv 1000 = moment.seconds :=
    Int.mul_fdiv_cancel _ (by decide)
  have hday : moment.seconds.fdiv 86400 = (moment.date.number : Int) - epochDay := by
    rw [Int.fdiv_eq_ediv_of_nonneg _ (by decide)]
    omega
  have hrest : moment.seconds.fmod 86400 = time := by
    rw [Int.fmod_eq_emod_of_nonneg _ (by decide)]
    omega
  have hrange : firstSecond ≤ moment.seconds ∧ moment.seconds < endSecond := by
    unfold firstSecond endSecond epochDay Date.count at *
    omega
  have hfound : ofSeconds? moment.seconds = some moment := by
    have hnumber : (moment.date.number : Int) - epochDay + epochDay = moment.date.number := by omega
    have hhour : time / 3600 = moment.hour := by omega
    have hminute : time / 60 % 60 = moment.minute := by omega
    have hsecond : time % 60 = moment.second := by omega
    unfold ofSeconds?
    rw [hday, hrest, hnumber, Date.ofNumber?_number]
    simp only [Int.toNat_natCast, Option.bind_some, hhour, hminute, hsecond]
    exact of?_self hwhole
  unfold ofTimestamp
  simp only [hdiv]
  rw [if_pos hrange, hfound]

/-- The timestamp lies within the calendar, and not on its first day, which no clock can tell. -/
def IsOnCalendar (timestamp : Int) : Prop :=
  firstSecond * 1000 ≤ timestamp ∧ timestamp < endSecond * 1000

theorem exists_moment_of_seconds {seconds : Int} (hfirst : firstSecond ≤ seconds)
    (hlast : seconds < endSecond) :
    ∃ moment, ofSeconds? seconds = some moment := by
  have hday : seconds.fdiv 86400 = seconds / 86400 := Int.fdiv_eq_ediv_of_nonneg _ (by decide)
  have htime : seconds.fmod 86400 = seconds % 86400 := Int.fmod_eq_emod_of_nonneg _ (by decide)
  have hnumber : ∃ number : Nat, (number : Int) = seconds / 86400 + epochDay ∧
      number < Date.count := by
    unfold firstSecond endSecond epochDay Date.count at *
    exact ⟨(seconds / 86400 + 719162).toNat, by omega, by omega⟩
  obtain ⟨number, hnumber, hlt⟩ := hnumber
  obtain ⟨date, rfl⟩ := Date.exists_date_of_lt_count hlt
  have hreal : isReal ((seconds % 86400).toNat / 3600) ((seconds % 86400).toNat / 60 % 60)
      ((seconds % 86400).toNat % 60) 0 = true :=
    isReal_iff.2 (by omega)
  unfold ofSeconds?
  rw [hday, htime, ← hnumber, Date.ofNumber?_number]
  exact ⟨_, dif_pos hreal⟩

theorem ofTimestamp_isOk_iff {timestamp : Int} : (∃ moment, ofTimestamp timestamp = .ok moment) ↔
    IsOnCalendar timestamp := by
  have hdiv : timestamp.fdiv 1000 = timestamp / 1000 := Int.fdiv_eq_ediv_of_nonneg _ (by decide)
  have hrange : firstSecond ≤ timestamp / 1000 ∧ timestamp / 1000 < endSecond ↔
      IsOnCalendar timestamp := by
    unfold IsOnCalendar firstSecond endSecond epochDay Date.count
    omega
  unfold ofTimestamp
  simp only [hdiv]
  by_cases hon : IsOnCalendar timestamp
  · obtain ⟨hfirst, hlast⟩ := hrange.2 hon
    obtain ⟨moment, hmoment⟩ := exists_moment_of_seconds hfirst hlast
    simp [hfirst, hlast, hmoment, hon]
  · rw [if_neg (mt hrange.1 hon)]
    simpa using hon

end Moment

/-! ## Literals -/

namespace DateText

theorem digits?_padNat {width n : Nat} (hwidth : 0 < width) (h : n < 10 ^ width) (rest : Text) :
    Date.digits? width (padNat width n ++ rest) = some (n, rest) := by
  have hlength := length_padNat hwidth h
  have hdecimal : (padNat width n).all isDecimal = true :=
    List.all_eq_true.2 fun c hc => (isDecimal_of_isDigit (isDigit_of_mem_padNat hc)).1
  unfold Date.digits?
  simp only [List.take_left' hlength, List.drop_left' hlength]
  simp [hlength, hdecimal, digitsValue_padNat]

theorem scan?_text {date : Date} (rest : Text) :
    Date.scan? (date.text ++ rest) = some ((date.year, date.month, date.day), rest) := by
  obtain ⟨⟨-, hyear⟩, ⟨-, hmonth⟩, -, hday⟩ := Date.isReal_iff.1 date.real
  have hdays := (Date.daysInMonth_range date.year date.month).2
  have hyears := digits?_padNat (by omega : 0 < 4) (by omega : date.year < 10 ^ 4)
    ('-' :: padNat 2 date.month ++ '-' :: padNat 2 date.day ++ rest)
  have hmonths := digits?_padNat (by omega : 0 < 2) (by omega : date.month < 10 ^ 2)
    ('-' :: padNat 2 date.day ++ rest)
  have hdays' := digits?_padNat (by omega : 0 < 2) (by omega : date.day < 10 ^ 2) rest
  have htext : date.text ++ rest = padNat 4 date.year ++
      ('-' :: padNat 2 date.month ++ '-' :: padNat 2 date.day ++ rest) := by
    simp [Date.text, Date.textWith]
  have hmark : ∀ s : Text, Date.mark? '-' ('-' :: s) = some s := fun s => rfl
  unfold Date.scan?
  rw [htext, hyears]
  simp only [Option.bind_eq_bind, Option.bind_some, List.cons_append,
    List.append_assoc] at hmonths hdays' ⊢
  rw [hmark, Option.bind_some, hmonths, Option.bind_some, hmark, Option.bind_some, hdays']
  rfl

theorem text_inj {date other : Date} (h : date.text = other.text) : date = other := by
  have hread := congrArg (fun s => Date.scan? (s ++ [])) h
  simp only [scan?_text, Option.some.injEq, Prod.mk.injEq, and_true] at hread
  obtain ⟨hyear, hmonth, hday⟩ := hread
  cases date
  cases other
  cases hyear
  cases hmonth
  cases hday
  rfl

theorem textWith_one {date : Date} (h : 1000 ≤ date.year) : date.textWith 1 = date.text := by
  have hlong : ¬(ofNat date.year).length ≤ 3 := by
    rw [length_ofNat_le_iff (by omega)]
    omega
  have hpad : ∀ width, width ≤ 4 → padNat width date.year = ofNat date.year := by
    intro width hwidth
    have hzero : width - (ofNat date.year).length = 0 := by omega
    rw [padNat, hzero, List.replicate_zero, List.nil_append]
  rw [Date.text, Date.textWith, Date.textWith, hpad 1 (by omega), hpad 4 (by omega)]

/-- The time of a moment as it follows its day: nothing at midnight, and seconds only where
there are some. -/
def clockText (moment : Moment) : Text :=
  if moment.hour == 0 && moment.minute == 0 && moment.second == 0 then []
  else ' ' :: padNat 2 moment.hour ++ ':' :: padNat 2 moment.minute ++
    (if moment.second == 0 then [] else ':' :: padNat 2 moment.second)

theorem timestampText_seconds {moment : Moment} (hwhole : moment.micro = 0)
    (hfirst : moment.date.number ≠ 0) :
    Moment.timestampText (moment.seconds * 1000) =
      .ok (moment.date.textWith 1 ++ clockText moment) := by
  unfold Moment.timestampText clockText
  rw [Moment.ofTimestamp_seconds hwhole hfirst]
  simp only [bind, Except.bind, pure, Except.pure]
  by_cases hmidnight : (moment.hour == 0 && moment.minute == 0 && moment.second == 0) = true
  · simp [hmidnight]
  · rw [if_neg hmidnight, if_neg hmidnight]
    by_cases hsecond : (moment.second == 0) = true
    · rw [if_pos hsecond, if_pos hsecond]
      simp
    · rw [if_neg hsecond, if_neg hsecond]
      simp

/-! ## Reading a time -/

theorem hour?_padNat {hour : Nat} (h : hour < 24) (rest : Text) :
    hour? (padNat 2 hour ++ ':' :: rest) = some (hour, ':' :: rest) := by
  have hdecimal : ∀ c ∈ padNat 2 hour, isDecimal c = true :=
    fun c hc => (isDecimal_of_isDigit (isDigit_of_mem_padNat hc)).1
  have hcolon : isDecimal ':' = false := by decide
  have hlength : (padNat 2 hour).length = 2 := length_padNat (by omega) (by omega)
  unfold hour?
  rw [takeWhile_append_cons hdecimal hcolon, dropWhile_append_cons hdecimal hcolon]
  simp [hlength, digitsValue_padNat]

theorem time?_clock {moment : Moment} {rest : Text} (hrest : ∀ c, rest.head? = some c → c ≠ ':') :
    time? (padNat 2 moment.hour ++ ':' :: padNat 2 moment.minute ++
      (if moment.second == 0 then [] else ':' :: padNat 2 moment.second) ++ rest) =
      some ((moment.hour, moment.minute, moment.second), rest) := by
  obtain ⟨hhour, hminute, hsecond, -⟩ := Moment.isReal_iff.1 moment.real
  have hmark : ∀ s : Text, Date.mark? ':' (':' :: s) = some s := fun s => rfl
  unfold time?
  simp only [List.append_assoc, List.cons_append]
  rw [hour?_padNat hhour]
  simp only [Option.bind_eq_bind, Option.bind_some, hmark]
  rw [digits?_padNat (by omega) (by omega)]
  simp only [Option.bind_some]
  by_cases hzero : (moment.second == 0) = true
  · have hnone : Date.mark? ':' rest = none := by
      cases rest with
      | nil => rfl
      | cons c rest =>
        have hne : (c == ':') = false := by simpa using hrest c rfl
        simp [Date.mark?, hne]
    have hsecond : moment.second = 0 := by simpa using hzero
    simp [hnone, hsecond]
  · rw [if_neg hzero]
    simp only [List.cons_append, hmark, Option.bind_some]
    rw [digits?_padNat (by omega) (by omega)]
    rfl

theorem moment?_text {moment : Moment} (hwhole : moment.micro = 0) :
    moment? (moment.date.text ++ clockText moment) = some moment := by
  have hday : Date.of? moment.date.year moment.date.month moment.date.day = some moment.date :=
    dif_pos moment.date.real
  have hparts : parts? (moment.date.text ++ clockText moment) =
      some ((moment.date.year, moment.date.month, moment.date.day),
          (moment.hour, moment.minute, moment.second)) := by
    unfold parts?
    rw [scan?_text]
    simp only [Option.bind_eq_bind, Option.bind_some]
    unfold clockText
    by_cases hmidnight : (moment.hour == 0 && moment.minute == 0 && moment.second == 0) = true
    · obtain ⟨⟨hhour, hminute⟩, hsecond⟩ : (moment.hour = 0 ∧ moment.minute = 0) ∧
        moment.second = 0 := by simpa using hmidnight
      simp [hhour, hminute, hsecond]
    · have htime := @time?_clock moment [] (by simp)
      rw [List.append_nil] at htime
      rw [if_neg hmidnight]
      simp only [List.cons_append, beq_self_eq_true, Bool.true_or, if_true] at htime ⊢
      rw [htime]
      rfl
  unfold moment?
  rw [hparts]
  simp only [Option.bind_eq_bind, Option.bind_some]
  rw [hday]
  exact Moment.of?_self hwhole

theorem micro_of_moment? {s : Text} {moment : Moment} (h : moment? s = some moment) :
    moment.micro = 0 := by
  obtain ⟨⟨⟨year, month, day⟩, ⟨hour, minute, second⟩⟩, -, h⟩ := Option.bind_eq_some_iff.1 h
  obtain ⟨date, -, h⟩ := Option.bind_eq_some_iff.1 h
  unfold Moment.of? at h
  split at h
  · cases h
    rfl
  · cases h

/-! ## Texts that are no date -/

theorem moment?_eq_none {c : Char} {rest : Text} (hc : isDecimal c = false) :
    moment? (c :: rest) = none := by
  have hdigits : Date.digits? 4 (c :: rest) = none := by simp [Date.digits?, hc]
  simp [moment?, parts?, Date.scan?, hdigits]

theorem head?_squeeze {c : Char} {rest : Text} (hc : isBlank c = false) :
    (squeeze (c :: rest)).head? = some c := by
  have hpiece : ∃ piece pieces, splitWhere isBlank (c :: rest) = (c :: piece) :: pieces := by
    rw [splitWhere, if_neg (by simp [hc])]
    split
    · exact ⟨[], [], rfl⟩
    · exact ⟨_, _, rfl⟩
  obtain ⟨piece, pieces, hpieces⟩ := hpiece
  have hwords : words (c :: rest) =
      (c :: piece) :: pieces.filter (· ≠ []) := by simp [words, hpieces]
  rw [squeeze, hwords]
  cases pieces.filter (· ≠ []) with
  | nil => rfl
  | cons next others => rfl

/-- The character begins no keyword, also in lower case. -/
def isKeywordHead (c : Char) : Bool :=
  c == 't' || c == 'y' || c == 'n' || c == 'l'

theorem keyword?_eq_none {c : Char} {rest lowered : Text}
    (hlower : lower (c :: rest) = c :: lowered) (hblank : isBlank c = false)
    (hhead : isKeywordHead c = false) : keyword? (c :: rest) = none := by
  have hwords : ∀ word : Keyword, ∃ first others, word.words = first :: others ∧
      isKeywordHead first = true := by
    intro word
    cases word <;> exact ⟨_, _, rfl, by decide⟩
  unfold keyword?
  rw [List.find?_eq_none]
  intro word _ heq
  obtain ⟨first, others, hword, hfirst⟩ := hwords word
  have hsqueeze := @head?_squeeze c lowered hblank
  rw [← hlower, ← beq_iff_eq.1 heq, hword] at hsqueeze
  obtain rfl : first = c := by simpa using hsqueeze
  rw [hfirst] at hhead
  cases hhead

/-! ## A written date -/

theorem isTrimmed_padNat (width n : Nat) : IsTrimmed (padNat width n) := by
  have hne : padNat width n ≠ [] := by simp [padNat, ofNat_ne_nil]
  exact isTrimmed_of_forall hne fun c hc => isBlank_of_isDigit (isDigit_of_mem_padNat hc)

theorem isTrimmed_textWith (width : Nat) (moment : Moment) :
    IsTrimmed (moment.date.textWith width ++ clockText moment) := by
  have htwo := isTrimmed_padNat 2
  have hyear := isTrimmed_padNat width moment.date.year
  unfold Date.textWith clockText
  split
  · rw [List.append_nil]
    have h := hyear.append (htwo moment.date.day) (['-'] ++ padNat 2 moment.date.month ++ ['-'])
    simpa using h
  · split
    · have h := hyear.append (htwo moment.minute)
        (['-'] ++ padNat 2 moment.date.month ++ ['-'] ++ padNat 2 moment.date.day ++
          ' ' :: padNat 2 moment.hour ++ [':'])
      simpa using h
    · have h :=
        hyear.append (htwo moment.second)
          (['-'] ++ padNat 2 moment.date.month ++ ['-'] ++ padNat 2 moment.date.day ++
        ' ' :: padNat 2 moment.hour ++ ':' :: padNat 2 moment.minute ++ [':'])
      simpa using h

theorem forall_char_day (width : Nat) (date : Date) :
    ∀ c ∈ date.textWith width, c.isDigit = true ∨ c = '-' := by
  intro c hc
  simp only [Date.textWith, List.mem_append, List.mem_singleton] at hc
  rcases hc with (((hc | hc) | hc) | hc) | hc
  · exact .inl (isDigit_of_mem_padNat hc)
  · exact .inr hc
  · exact .inl (isDigit_of_mem_padNat hc)
  · exact .inr hc
  · exact .inl (isDigit_of_mem_padNat hc)

theorem forall_char_clock (moment : Moment) : ∀ c ∈ clockText moment, c.isDigit = true ∨
    c = ':' ∨ c = ' ' := by
  intro c hc
  unfold clockText at hc
  split at hc
  · cases hc
  · simp only [List.cons_append, List.mem_cons, List.mem_append] at hc
    rcases hc with hc | (hc | hc | hc) | hc
    · exact .inr (.inr hc)
    · exact .inl (isDigit_of_mem_padNat hc)
    · exact .inr (.inl hc)
    · exact .inl (isDigit_of_mem_padNat hc)
    · split at hc
      · cases hc
      · exact (List.mem_cons.1 hc).elim (fun hc => .inr (.inl hc)) fun hc =>
          .inl (isDigit_of_mem_padNat hc)

/-- What holds of digits, hyphens, colons and spaces holds of the characters of a date. -/
theorem forall_char_of_date {P : Char → Prop} (h : ∀ c ∈ "0123456789-: ".toList, P c)
    (width : Nat) (moment : Moment) :
    ∀ c ∈ moment.date.textWith width ++ clockText moment, P c := by
  have hdigits : ∀ {c : Char}, c.isDigit = true → P c := forall_digit fun c hc =>
    h c (List.mem_append_left "-: ".toList hc)
  intro c hc
  rcases List.mem_append.1 hc with hc | hc
  · rcases forall_char_day _ _ c hc with hdigit | rfl
    · exact hdigits hdigit
    · exact h '-' (by decide)
  · rcases forall_char_clock _ c hc with hdigit | rfl | rfl
    · exact hdigits hdigit
    · exact h ':' (by decide)
    · exact h ' ' (by decide)

theorem cons_text (moment : Moment) : ∃ c rest, moment.date.text ++ clockText moment = c :: rest ∧
    c.isDigit = true := by
  have hne : padNat 4 moment.date.year ≠ [] := by simp [padNat, ofNat_ne_nil]
  obtain ⟨c, rest, hyear⟩ := List.exists_cons_of_ne_nil hne
  have hdigit : c.isDigit = true := isDigit_of_mem_padNat (by rw [hyear]; exact List.mem_cons_self)
  exact ⟨c, _, by rw [Date.text, Date.textWith, hyear]; rfl, hdigit⟩

/-- The notation of a whole second names that second. -/
theorem resolve_timestampText {today : Date} {moment : Moment} (hwhole : moment.micro = 0)
    (hfirst : moment.date.number ≠ 0) :
    resolve today (moment.date.text ++ clockText moment) = .ok (some (moment.seconds * 1000)) := by
  obtain ⟨c, rest, htext, hdigit⟩ := cons_text moment
  obtain ⟨lowered, hlower⟩ := @lower_digit c rest hdigit
  have hhead : isKeywordHead c = false :=
      forall_digit (P := fun c => isKeywordHead c = false) (by decide) hdigit
  have hnone : keyword? (moment.date.text ++ clockText moment) = none := by
    rw [htext]
    exact keyword?_eq_none hlower (isBlank_of_isDigit hdigit) hhead
  have htimestamp := Moment.timestamp_eq hwhole hfirst
  have htrim : trim (moment.date.text ++ clockText moment) = moment.date.text ++ clockText moment :=
    (isTrimmed_textWith 4 moment).trim_eq
  unfold resolve
  simp only [htrim]
  simp [relative, hnone, literal, moment?_text hwhole, htimestamp, bind, Except.bind, Except.map]

theorem exists_moment_of_resolve {today : Date} {s : Text} {timestamp : Int}
    (h : resolve today s = .ok (some timestamp)) :
    ∃ moment : Moment, moment.micro = 0 ∧ moment.date.number ≠ 0 ∧
      timestamp = moment.seconds * 1000 := by
  have hmoment : ∀ {moment : Moment}, moment.micro = 0 → moment.timestamp = .ok timestamp →
      ∃ moment : Moment, moment.micro = 0 ∧ moment.date.number ≠ 0 ∧
          timestamp = moment.seconds * 1000 := by
    intro moment hwhole htimestamp
    by_cases hfirst : moment.date.number = 0
    · simp [Moment.timestamp, Moment.seconds_lt_firstSecond_iff.2 hfirst] at htimestamp
    · rw [Moment.timestamp_eq hwhole hfirst] at htimestamp
      exact ⟨moment, hwhole, hfirst, (Except.ok.inj htimestamp).symm⟩
  obtain ⟨found, hfound, h⟩ := Result.bind_eq_ok.1 h
  cases found with
  | some found =>
    cases h
    unfold relative at hfound
    split at hfound
    · cases hfound
    · obtain ⟨day, -, hfound⟩ := Result.bind_eq_ok.1 hfound
      obtain ⟨start, hstart, hfound⟩ := Result.bind_eq_ok.1 hfound
      cases hfound
      exact hmoment rfl hstart
  | none =>
    have h : literal (trim s) = .ok (some timestamp) := h
    unfold literal at h
    split at h
    · cases h
    · rename_i moment hmoment?
      obtain ⟨start, hstart, hsome⟩ := Result.map_eq_ok.1 h
      cases hsome
      exact hmoment (micro_of_moment? hmoment?) hstart

end DateText
end Checklist
