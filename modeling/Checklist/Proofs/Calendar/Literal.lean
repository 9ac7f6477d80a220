import Checklist.Proofs.Calendar.Order

/-! # Literals are accepted exactly

A literal is four digits, two and two for the day, and perhaps a time of day behind them. Main
statements: the reader accepts what the grammar of literals says and nothing else
(`moment?_eq_some_iff`), and a text that is no keyword is resolved to a timestamp exactly if it is a
literal, whatever a cache has seen before (`resolves_iff_names`). -/

namespace Checklist
set_option autoImplicit false
open Text

namespace DateCache

/-- What a text is resolved to after any look-ups. -/
def resolved (limit : Nat) (calls : List Call) (today : Date) (s : Text) :
    Except Failure (Option Int) :=
  ((run limit calls).timestamp? today (.str s)).1

theorem resolved_eq {limit : Nat} (hlimit : 1 ≤ limit) (calls : List Call)
    (today : Date) (s : Text) :
    resolved limit calls today s = DateText.resolve today s :=
  fst_timestamp?_run hlimit calls today (.str s)

end DateCache

namespace DateText

variable {year month day hour minute second n count : Nat} {s rest : Text}

/-! ## The grammar of literals -/

/-- A number in so many decimal digits of any script. -/
structure IsNumeral (width n : Nat) (s : Text) : Prop where
  length : s.length = width
  decimal : ∀ c ∈ s, isDecimal c = true
  value : digitsValue s = n

/-- A day: four digits, two and two, with hyphens between them. -/
inductive IsDay : Nat → Nat → Nat → Text → Prop where
  | mk {year month day : Nat} {y m d : Text} (hyear : IsNumeral 4 year y)
      (hmonth : IsNumeral 2 month m) (hday : IsNumeral 2 day d) :
      IsDay year month day (y ++ '-' :: (m ++ '-' :: d))

/-- A time of day: one or two digits for the hour, two for the minute and perhaps two for the
second, with colons between them. -/
inductive IsTime : Nat → Nat → Nat → Text → Prop where
  | minute {hour minute : Nat} {h m : Text} (hhour : IsNumeral 1 hour h ∨ IsNumeral 2 hour h)
      (hminute : IsNumeral 2 minute m) :
      IsTime hour minute 0 (h ++ ':' :: m)
  | second {hour minute second : Nat} {h m s : Text}
      (hhour : IsNumeral 1 hour h ∨ IsNumeral 2 hour h) (hminute : IsNumeral 2 minute m)
      (hsecond : IsNumeral 2 second s) : IsTime hour minute second (h ++ ':' :: (m ++ ':' :: s))

/-- A day, and perhaps a time of that day after one space or `T`; without a time it is midnight. -/
inductive IsLiteral : Nat × Nat × Nat → Nat × Nat × Nat → Text → Prop where
  | day {year month day : Nat} {s : Text} (hday : IsDay year month day s) :
      IsLiteral (year, month, day) (0, 0, 0) s
  | moment {year month day hour minute second : Nat} {s t : Text} {mark : Char}
      (hday : IsDay year month day s)
      (hmark : mark = ' ' ∨ mark = 'T') (htime : IsTime hour minute second t) :
      IsLiteral (year, month, day) (hour, minute, second) (s ++ mark :: t)

/-- The text is a literal with the numbers of a moment, which is a real one by its type. -/
def Names (moment : Moment) (s : Text) : Prop :=
  moment.micro = 0 ∧ IsLiteral (moment.date.year, moment.date.month, moment.date.day)
    (moment.hour, moment.minute, moment.second) s

/-! ## Reading a literal -/

theorem digits?_eq_some_iff : Date.digits? count s = some (n, rest) ↔
    ∃ digits, IsNumeral count n digits ∧ s = digits ++ rest := by
  simp only [Date.digits?, Option.ite_none_right_eq_some, Bool.and_eq_true, beq_iff_eq,
    List.all_eq_true, Option.some.injEq, Prod.mk.injEq]
  constructor
  · rintro ⟨⟨hlength, hdecimal⟩, hvalue, rfl⟩
    exact ⟨s.take count, ⟨hlength, hdecimal, hvalue⟩, (List.take_append_drop count s).symm⟩
  · rintro ⟨digits, ⟨hlength, hdecimal, hvalue⟩, rfl⟩
    rw [List.take_left' hlength, List.drop_left' hlength]
    exact ⟨⟨hlength, hdecimal⟩, hvalue, rfl⟩

theorem mark?_eq_some_iff {mark : Char} : Date.mark? mark s = some rest ↔ s = mark :: rest := by
  cases s with
  | nil => simp [Date.mark?]
  | cons c s => simp [Date.mark?]

theorem scan?_eq_some_iff : Date.scan? s = some ((year, month, day), rest) ↔
    ∃ t, IsDay year month day t ∧ s = t ++ rest := by
  simp only [Date.scan?, Option.bind_eq_bind, Option.bind_eq_some_iff, Prod.exists,
    digits?_eq_some_iff, mark?_eq_some_iff]
  constructor
  · rintro ⟨_, _, ⟨y, hyear, rfl⟩, _, rfl, _, _, ⟨m, hmonth, rfl⟩, _, rfl, _, _, ⟨d, hday, rfl⟩, h⟩
    cases h
    exact ⟨_, .mk hyear hmonth hday, by simp⟩
  · rintro ⟨_, ⟨hyear, hmonth, hday⟩, rfl⟩
    refine ⟨_, _, ⟨_, hyear, List.append_assoc _ _ _⟩, _, rfl, _, _,
      ⟨_, hmonth, List.append_assoc _ _ _⟩, _, rfl, _, _, ⟨_, hday, rfl⟩, rfl⟩

theorem hour?_eq_some_iff : hour? s = some (hour, ':' :: rest) ↔
    ∃ digits, (IsNumeral 1 hour digits ∨ IsNumeral 2 hour digits) ∧ s = digits ++ ':' :: rest := by
  have hcolon : isDecimal ':' = false := by decide
  simp only [hour?, Option.ite_none_right_eq_some, Bool.or_eq_true, beq_iff_eq,
    Option.some.injEq, Prod.mk.injEq]
  constructor
  · rintro ⟨hlength, hvalue, hrest⟩
    refine ⟨s.takeWhile isDecimal, ?_, by rw [← hrest, List.takeWhile_append_dropWhile]⟩
    have hdecimal := forall_mem_takeWhile isDecimal s
    exact hlength.imp (fun h => ⟨h, hdecimal, hvalue⟩) fun h => ⟨h, hdecimal, hvalue⟩
  · rintro ⟨digits, hdigits, rfl⟩
    obtain ⟨hlength, hdecimal, hvalue⟩ : (digits.length = 1 ∨ digits.length = 2) ∧
        (∀ c ∈ digits, isDecimal c = true) ∧ digitsValue digits = hour := by
      rcases hdigits with h | h
      · exact ⟨.inl h.length, h.decimal, h.value⟩
      · exact ⟨.inr h.length, h.decimal, h.value⟩
    rw [takeWhile_append_cons hdecimal hcolon, dropWhile_append_cons hdecimal hcolon]
    exact ⟨hlength, hvalue, rfl⟩

theorem time?_eq_some_iff : time? s = some ((hour, minute, second), []) ↔
    IsTime hour minute second s := by
  simp only [time?, Option.bind_eq_bind, Option.bind_eq_some_iff, Prod.exists,
    digits?_eq_some_iff, mark?_eq_some_iff]
  constructor
  · rintro ⟨_, _, hread, _, rfl, _, left, ⟨m, hminute, rfl⟩, h⟩
    obtain ⟨digits, hhour, rfl⟩ := hour?_eq_some_iff.1 hread
    cases hsecond : (Date.mark? ':' left).bind (Date.digits? 2) with
    | none =>
      rw [hsecond] at h
      cases h
      rw [List.append_nil]
      exact .minute hhour hminute
    | some found =>
      obtain ⟨number, left⟩ := found
      rw [hsecond] at h
      cases h
      simp only [Option.bind_eq_some_iff, mark?_eq_some_iff, digits?_eq_some_iff] at hsecond
      obtain ⟨_, rfl, s, hsecond, rfl⟩ := hsecond
      rw [List.append_nil]
      exact .second hhour hminute hsecond
  · intro h
    cases h with
    | minute hhour hminute =>
      exact ⟨_, _, hour?_eq_some_iff.2 ⟨_, hhour, rfl⟩, _, rfl, _, [],
        ⟨_, hminute, (List.append_nil _).symm⟩, rfl⟩
    | second hhour hminute hsecond =>
      have hread := digits?_eq_some_iff.2 ⟨_, hsecond, (List.append_nil _).symm⟩
      refine ⟨_, _, hour?_eq_some_iff.2 ⟨_, hhour, rfl⟩, _, rfl, _, _, ⟨_, hminute, rfl⟩, ?_⟩
      rw [mark?_eq_some_iff.2 rfl, Option.bind_some, hread]
      rfl

theorem parts?_eq_some_iff {days times : Nat × Nat × Nat} : parts? s = some (days, times) ↔
    IsLiteral days times s := by
  obtain ⟨year, month, day⟩ := days
  obtain ⟨hour, minute, second⟩ := times
  simp only [parts?, Option.bind_eq_bind, Option.bind_eq_some_iff, Prod.exists, scan?_eq_some_iff]
  constructor
  · rintro ⟨_, _, _, rest, ⟨t, hday, rfl⟩, h⟩
    cases rest with
    | nil =>
      cases h
      rw [List.append_nil]
      exact .day hday
    | cons mark rest =>
      simp only [Option.ite_none_right_eq_some, Bool.or_eq_true, beq_iff_eq,
        Option.bind_eq_some_iff, List.isEmpty_iff] at h
      obtain ⟨hmark, ⟨_, left⟩, htime, rfl, h⟩ := h
      cases h
      exact .moment hday hmark (time?_eq_some_iff.1 htime)
  · intro h
    cases h with
    | day hday => exact ⟨_, _, _, [], ⟨s, hday, (List.append_nil s).symm⟩, rfl⟩
    | moment hday hmark htime =>
      refine ⟨_, _, _, _, ⟨_, hday, rfl⟩, ?_⟩
      simp only [Option.ite_none_right_eq_some, Bool.or_eq_true, beq_iff_eq, Option.bind_eq_some_iff]
      exact ⟨hmark, _, time?_eq_some_iff.2 htime, rfl, rfl⟩

theorem moment?_eq_some_iff {moment : Moment} : moment? s = some moment ↔ Names moment s := by
  unfold moment? Names
  simp only [Option.bind_eq_bind, Option.bind_eq_some_iff, Prod.exists, parts?_eq_some_iff]
  constructor
  · rintro ⟨year, month, day, hour, minute, second, hliteral, date, hdate, hmoment⟩
    simp only [Date.of?, Option.dite_none_right_eq_some, Option.some.injEq] at hdate
    simp only [Moment.of?, Option.dite_none_right_eq_some, Option.some.injEq] at hmoment
    obtain ⟨_, rfl⟩ := hdate
    obtain ⟨_, rfl⟩ := hmoment
    exact ⟨rfl, hliteral⟩
  · rintro ⟨hwhole, hliteral⟩
    exact ⟨_, _, _, _, _, _, hliteral, moment.date, dif_pos moment.date.real, Moment.of?_self hwhole⟩

/-! ## What a literal is resolved to -/

/-- A literal that names a moment is resolved to its timestamp, unless that lies on the first day of
the calendar, which has none. -/
theorem literal_of_names {moment : Moment} (h : Names moment s) :
    literal s = if moment.date = Date.first then .error .yearOutOfRange else
      .ok (some moment.sinceEpoch) := by
  rw [literal, moment?_eq_some_iff.2 h]
  by_cases hfirst : moment.date = Date.first
  · have hearly := Moment.seconds_lt_firstSecond_iff.2 (Date.number_eq_zero_iff.2 hfirst)
    rw [if_pos hfirst]
    simp [Moment.timestamp, hearly, Except.map]
  · have htimestamp := Moment.timestamp_eq h.1 (mt Date.number_eq_zero_iff.1 hfirst)
    rw [if_neg hfirst, Moment.sinceEpoch_eq]
    simp [htimestamp, Except.map]

theorem Names.unique {moment other : Moment} (h : Names moment s) (h' : Names other s) :
    moment = other :=
  Option.some.inj ((moment?_eq_some_iff.2 h).symm.trans (moment?_eq_some_iff.2 h'))

theorem literal_of_not_names (h : ∀ moment, ¬Names moment s) : literal s = .ok none := by
  cases hmoment : moment? s with
  | none => rw [literal, hmoment]
  | some moment => exact absurd (moment?_eq_some_iff.1 hmoment) (h moment)

theorem IsLiteral.mem_hyphen {days times : Nat × Nat × Nat} (h : IsLiteral days times s) :
    '-' ∈ s := by
  cases h with
  | day hday =>
    obtain ⟨-, -, -⟩ := hday
    simp
  | moment hday hmark htime =>
    obtain ⟨-, -, -⟩ := hday
    simp

theorem keyword?_of_names {moment : Moment} (h : Names moment s) : keyword? s = none := by
  have hlower : '-' ∈ lower s := mem_lower (by decide) (by decide) h.2.mem_hyphen
  have hsqueeze : '-' ∈ squeeze (lower s) := mem_squeeze (by decide) hlower
  have hwords : ∀ keyword : Keyword, '-' ∉ keyword.words := by
    intro keyword
    cases keyword <;> decide
  unfold keyword?
  rw [List.find?_eq_none]
  intro keyword _ heq
  apply hwords keyword
  rwa [beq_iff_eq.1 heq]

theorem resolve_of_keyword?_eq_none (today : Date) (h : keyword? (trim s) = none) :
    resolve today s = literal (trim s) := by
  have hrelative : relative today (trim s) = .ok none := by rw [relative, h]
  simp only [resolve, hrelative]
  rfl

theorem resolved_of_names {limit : Nat} (hlimit : 1 ≤ limit) (calls : List DateCache.Call)
    (today : Date) {moment : Moment}
    (h : Names moment (trim s)) (hfirst : moment.date ≠ Date.first) :
    DateCache.resolved limit calls today s = .ok (some moment.sinceEpoch) := by
  rw [DateCache.resolved_eq hlimit, resolve_of_keyword?_eq_none today (keyword?_of_names h),
    literal_of_names h, if_neg hfirst]

/-- A text that is no keyword and names nothing on the first day of the calendar is resolved, after
any look-ups, to a timestamp exactly if it is a literal that names a moment, and then to the
milliseconds from the start of 1970 to that moment; other texts are resolved to nothing. Timestamps
come in the order of year, month, day, hour, minute and second. -/
theorem resolves_iff_names {limit : Nat} (hlimit : 1 ≤ limit) (calls : List DateCache.Call)
    (today : Date) (hkeyword : keyword? (trim s) = none)
    (hfirst : ∀ moment, Names moment (trim s) → moment.date ≠ Date.first) :
    (∀ timestamp, DateCache.resolved limit calls today s = .ok (some timestamp) ↔
      ∃ moment, Names moment (trim s) ∧ timestamp = moment.sinceEpoch) ∧
    ((∀ moment, ¬Names moment (trim s)) → DateCache.resolved limit calls today s = .ok none) ∧
    ∀ t moment other, Names moment (trim s) → Names other (trim t) → other.date ≠ Date.first →
      ∃ timestamp later, DateCache.resolved limit calls today s = .ok (some timestamp) ∧
        DateCache.resolved limit calls today t = .ok (some later) ∧
        (timestamp < later ↔ moment.clock < other.clock) := by
  have hnothing : (∀ moment, ¬Names moment (trim s)) →
      DateCache.resolved limit calls today s = .ok none := by
    intro hnone
    rw [DateCache.resolved_eq hlimit, resolve_of_keyword?_eq_none today hkeyword,
      literal_of_not_names hnone]
  refine ⟨fun timestamp => ⟨fun h => ?_, ?_⟩, hnothing, fun t moment other hs ht hother => ?_⟩
  · by_cases hnames : ∃ moment, Names moment (trim s)
    · obtain ⟨moment, hmoment⟩ := hnames
      rw [resolved_of_names hlimit calls today hmoment (hfirst moment hmoment)] at h
      cases h
      exact ⟨moment, hmoment, rfl⟩
    · rw [hnothing (not_exists.1 hnames)] at h
      cases h
  · rintro ⟨moment, hmoment, rfl⟩
    exact resolved_of_names hlimit calls today hmoment (hfirst moment hmoment)
  · exact ⟨_, _, resolved_of_names hlimit calls today hs (hfirst moment hs),
      resolved_of_names hlimit calls today ht hother,
      Moment.sinceEpoch_lt_iff⟩

/-- Five past seven on a leap day. -/
def leapMorning : Moment :=
  ⟨⟨2024, 2, 29, rfl⟩, 7, 5, 0, 0, rfl⟩

theorem names_leapMorning : Names leapMorning (trim " ٢٠٢٤-02-29T7:05 ".toList) :=
  moment?_eq_some_iff.1 (by decide +kernel)

theorem resolves_iff_names_leapMorning :
    DateCache.resolved 2 DateCache.diaryCalls newYearsEve " ٢٠٢٤-02-29T7:05 ".toList =
      .ok (some 1709190300000) ∧
      DateCache.resolved 2 DateCache.diaryCalls newYearsEve "2024-02-30".toList = .ok none ∧
        ∃ timestamp later, DateCache.resolved 2 DateCache.diaryCalls newYearsEve
          " ٢٠٢٤-02-29T7:05 ".toList = .ok (some timestamp) ∧
          DateCache.resolved 2 DateCache.diaryCalls newYearsEve "2024-03-01".toList =
            .ok (some later) ∧ timestamp < later := by
  have hmarch : Names (Moment.ofDate ⟨2024, 3, 1, rfl⟩) (trim "2024-03-01".toList) :=
    moment?_eq_some_iff.1 (by decide +kernel)
  have hnone : ∀ moment, ¬Names moment (trim "2024-02-30".toList) := by
    intro moment h
    have hread : moment? (trim "2024-02-30".toList) = none := by decide +kernel
    rw [moment?_eq_some_iff.2 h] at hread
    cases hread
  have hfirst : ∀ moment, Names moment (trim " ٢٠٢٤-02-29T7:05 ".toList) →
      moment.date ≠ Date.first :=
    fun moment h => h.unique names_leapMorning ▸ by decide
  obtain ⟨hiff, -, horder⟩ := resolves_iff_names (by decide : 1 ≤ 2) DateCache.diaryCalls
    newYearsEve (keyword?_of_names names_leapMorning) hfirst
  obtain ⟨-, hnothing, -⟩ := resolves_iff_names (by decide : 1 ≤ 2) DateCache.diaryCalls newYearsEve
    (by decide +kernel : keyword? (trim "2024-02-30".toList) = none) fun moment h =>
      absurd h (hnone moment)
  obtain ⟨timestamp, later, hread, hlater, hlt⟩ := horder _ _ _ names_leapMorning hmarch (by decide)
  refine ⟨(hiff _).2 ⟨leapMorning, names_leapMorning, ?_⟩, hnothing hnone, timestamp, later, hread,
    hlater, hlt.2 (by decide)⟩
  rw [Moment.sinceEpoch_eq]
  decide +kernel

end DateText
end Checklist
