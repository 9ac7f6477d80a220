import Checklist.Proofs.Calendar.Literal

/-! # Where keywords lead

A keyword is read in any letter case and with any blanks between its words, and names a day by its
place on the calendar. Main statements: there is at most one such day (`Keyword.Lands.unique`), and
for a today that is not at either end of the calendar it is the one that the keyword is resolved to
(`exists_day_of_keyword`). -/

namespace Checklist
set_option autoImplicit false
open Text

/-! ## Steps on the calendar -/

namespace Date

/-- The months follow one another, the first month of a year after the last one of the
year before. -/
def IsNextMonth (earlier later : Date) : Prop :=
  if earlier.month = 12 then later.year = earlier.year + 1 ∧ later.month = 1
  else later.year = earlier.year ∧ later.month = earlier.month + 1

variable {date later : Date} {days : Int}

theorem IsNextMonth.lt (h : date.IsNextMonth later) : date < later := by
  refine number_lt_iff.2 (parts_lt_iff.2 ?_)
  unfold IsNextMonth at h
  split at h <;> omega

theorem addDays_of_number (h : (later.number : Int) = date.number + days) :
    date.addDays days = .ok later := by
  rw [addDays, ← h, ofNumber?_number]

theorem exists_addDays (hfirst : 0 ≤ date.number + days) (hlast : date.number + days < count) :
    ∃ later : Date, date.addDays days = .ok later ∧ (later.number : Int) = date.number + days := by
  obtain ⟨later, hlater⟩ := exists_date_of_lt_count (by omega : (date.number + days).toNat < count)
  have hnumber : (later.number : Int) = date.number + days := by omega
  exact ⟨later, addDays_of_number hnumber, hnumber⟩

theorem exists_startOfWeek (hfirst : 6 ≤ date.number) :
    ∃ sunday : Date, date.startOfWeek = .ok sunday ∧ sunday.weekday = 6 ∧
      sunday.number ≤ date.number ∧ date.number < sunday.number + 7 := by
  have hlast := number_lt_count date
  obtain ⟨sunday, hsunday, hnumber⟩ :=
    @exists_addDays date (-(((date.weekday + 1) % 7 : Nat) : Int)) (by omega) (by omega)
  refine ⟨sunday, hsunday, ?_, ?_, ?_⟩
  · unfold weekday at hnumber ⊢
    omega
  · omega
  · omega

theorem isReal_first {year month : Nat} (hyear : 1 ≤ year ∧ year ≤ 9999)
    (hmonth : 1 ≤ month ∧ month ≤ 12) : isReal year month 1 = true :=
  isReal_iff.2 ⟨hyear, hmonth, Nat.le_refl 1, Nat.le_trans (by decide) (daysInMonth_range year month).1⟩

theorem startOfMonth_of_index {first : Date} {months : Int} (hday : first.day = 1)
    (hindex : (first.year * 12 + first.month : Int) = date.year * 12 + date.month + months) :
    date.startOfMonth months = .ok first := by
  obtain ⟨-, ⟨hmonth, hmonth'⟩, -⟩ := isReal_iff.1 first.real
  have hpositive : ¬(date.year * 12 + (date.month - 1) + months : Int) < 0 := by omega
  have hyear : (date.year * 12 + (date.month - 1) + months : Int).toNat / 12 =
      first.year := by omega
  have hmonth : (date.year * 12 + (date.month - 1) + months : Int).toNat % 12 + 1 =
      first.month := by omega
  have hfirst : of? first.year first.month first.day = some first := dif_pos first.real
  rw [hday] at hfirst
  unfold startOfMonth
  simp only [if_neg hpositive, hyear, hmonth, hfirst]

theorem exists_nextMonth (hlast : date.year = 9999 → date.month ≤ 11) :
    ∃ first : Date, date.startOfMonth 1 = .ok first ∧ first.day = 1 ∧ date.IsNextMonth first := by
  obtain ⟨hyear, hmonth, -⟩ := isReal_iff.1 date.real
  by_cases hdecember : date.month = 12
  · have hreal :=
      isReal_first (by omega : 1 ≤ date.year + 1 ∧ date.year + 1 ≤ 9999) (by omega : 1 ≤ 1 ∧ 1 ≤ 12)
    refine ⟨⟨_, _, 1, hreal⟩, startOfMonth_of_index rfl ?_, rfl, (if_pos hdecember).mpr ⟨rfl, rfl⟩⟩
    dsimp only
    omega
  · have hreal := isReal_first hyear (by omega : 1 ≤ date.month + 1 ∧ date.month + 1 ≤ 12)
    refine ⟨⟨_, _, 1, hreal⟩, startOfMonth_of_index rfl ?_, rfl, (if_neg hdecember).mpr ⟨rfl, rfl⟩⟩
    dsimp only
    omega

theorem exists_lastMonth (hfirst : date.year = 1 → 2 ≤ date.month) :
    ∃ first : Date, date.startOfMonth (-1) = .ok first ∧ first.day = 1 ∧
      first.IsNextMonth date := by
  obtain ⟨hyear, hmonth, -⟩ := isReal_iff.1 date.real
  by_cases hjanuary : date.month = 1
  · have hreal :=
      isReal_first
        (by omega : 1 ≤ date.year - 1 ∧ date.year - 1 ≤ 9999) (by omega : 1 ≤ 12 ∧ 12 ≤ 12)
    have hback : date.year = date.year - 1 + 1 := by omega
    refine ⟨⟨_, _, 1, hreal⟩, startOfMonth_of_index rfl ?_, rfl, (if_pos rfl).mpr ⟨hback, hjanuary⟩⟩
    dsimp only
    omega
  · have hreal := isReal_first hyear (by omega : 1 ≤ date.month - 1 ∧ date.month - 1 ≤ 12)
    have hback : date.month = date.month - 1 + 1 := by omega
    have hnot : ¬date.month - 1 = 12 := by omega
    refine ⟨⟨_, _, 1, hreal⟩, startOfMonth_of_index rfl ?_, rfl, (if_neg hnot).mpr ⟨rfl, hback⟩⟩
    dsimp only
    omega

end Date

namespace DateText

/-! ## The days of the keywords -/

/-- The day that a keyword names, said by its place on the calendar. -/
def Keyword.Lands (today date : Date) : Keyword → Prop
  | .today => date = today
  | .tomorrow => date.number = today.number + 1
  | .yesterday => date.number + 1 = today.number
  | .nextWeek => date.weekday = 6 ∧ today.number < date.number ∧ date.number ≤ today.number + 7
  | .lastWeek => date.weekday = 6 ∧ today.number < date.number + 14 ∧ date.number + 7 ≤ today.number
  | .nextMonth => date.day = 1 ∧ today.IsNextMonth date
  | .lastMonth => date.day = 1 ∧ date.IsNextMonth today

variable {today date other : Date} {keyword : Keyword}

/-- There is one such day at most. -/
theorem Keyword.Lands.unique (h : keyword.Lands today date) (h' : keyword.Lands today other) :
    date = other := by
  cases keyword with
  | today => exact Eq.trans h (Eq.symm h')
  | tomorrow | yesterday =>
    apply Date.number_inj
    unfold Lands at h h'
    omega
  | nextWeek | lastWeek =>
    apply Date.number_inj
    unfold Lands Date.weekday at h h'
    omega
  | nextMonth | lastMonth =>
    obtain ⟨hday, hnext⟩ := h
    obtain ⟨hday', hnext'⟩ := h'
    apply Date.parts_inj
    unfold Date.IsNextMonth at hnext hnext'
    simp only [Date.parts, List.cons.injEq, and_true]
    have := (Date.isReal_iff.1 date.real).2.1
    have := (Date.isReal_iff.1 other.real).2.1
    split at hnext <;> split at hnext' <;> omega

/-- Today is neither in the first two months of the calendar nor in its last one. -/
def IsWithin (today : Date) : Prop :=
  ⟨1, 3, 1, rfl⟩ ≤ today ∧ today ≤ ⟨9999, 11, 30, rfl⟩

theorem IsWithin.number (h : IsWithin today) :
    59 ≤ today.number ∧ today.number + 31 < Date.count := by
  have hfirst : Date.number ⟨1, 3, 1, rfl⟩ = 59 := by decide +kernel
  have hlast : Date.number ⟨9999, 11, 30, rfl⟩ + 31 < Date.count := by decide +kernel
  have hle : Date.number ⟨1, 3, 1, rfl⟩ ≤ today.number := h.1
  have hle' : today.number ≤ Date.number ⟨9999, 11, 30, rfl⟩ := h.2
  omega

theorem IsWithin.month (h : IsWithin today) :
    (today.year = 1 → 3 ≤ today.month) ∧ (today.year = 9999 → today.month ≤ 11) := by
  have hfirst : ¬today.number < Date.number ⟨1, 3, 1, rfl⟩ := Nat.not_lt.2 h.1
  have hlast : ¬Date.number ⟨9999, 11, 30, rfl⟩ < today.number := Nat.not_lt.2 h.2
  rw [Date.number_lt_iff, Date.parts_lt_iff] at hfirst hlast
  dsimp only at hfirst hlast
  omega

theorem IsWithin.exists_day (h : IsWithin today) (keyword : Keyword) :
    ∃ date, keyword.day today = .ok date ∧ keyword.Lands today date := by
  obtain ⟨hfirst, hlast⟩ := h.number
  obtain ⟨hearly, hlate⟩ := h.month
  obtain ⟨⟨hyear, hyear'⟩, ⟨hmonth, hmonth'⟩, -⟩ := Date.isReal_iff.1 today.real
  cases keyword with
  | today => exact ⟨today, rfl, rfl⟩
  | tomorrow =>
    obtain ⟨date, hdate, hnumber⟩ := @Date.exists_addDays today 1 (by omega) (by omega)
    exact ⟨date, hdate, by unfold Keyword.Lands; omega⟩
  | yesterday =>
    obtain ⟨date, hdate, hnumber⟩ := @Date.exists_addDays today (-1) (by omega) (by omega)
    exact ⟨date, hdate, by unfold Keyword.Lands; omega⟩
  | nextWeek =>
    obtain ⟨later, hlater, hnumber⟩ := @Date.exists_addDays today 7 (by omega) (by omega)
    obtain ⟨sunday, hsunday, hweekday, hle, hlt⟩ := @Date.exists_startOfWeek later (by omega)
    refine ⟨sunday, ?_, hweekday, by omega, by omega⟩
    rw [Keyword.day, hlater]
    exact hsunday
  | lastWeek =>
    obtain ⟨earlier, hearlier, hnumber⟩ := @Date.exists_addDays today (-7) (by omega) (by omega)
    obtain ⟨sunday, hsunday, hweekday, hle, hlt⟩ := @Date.exists_startOfWeek earlier (by omega)
    refine ⟨sunday, ?_, hweekday, by omega, by omega⟩
    rw [Keyword.day, hearlier]
    exact hsunday
  | nextMonth => exact Date.exists_nextMonth hlate
  | lastMonth => exact Date.exists_lastMonth fun hfirst => by omega

/-! ## Spellings -/

/-- The words one after another, each in any letter case, with blanks between neighbours. -/
inductive IsSpelling : List Text → Text → Prop where
  | last {word written : Text} (hcase : lower written = word) : IsSpelling [word] written
  | more {word written blanks s : Text} {words : List Text}
      (hcase : lower written = word) (hne : blanks ≠ [])
      (hblanks : ∀ c ∈ blanks, isBlank c = true) (h : IsSpelling words s) :
        IsSpelling (word :: words) (written ++ blanks ++ s)

theorem words_blanks_append {blanks : Text} (h : ∀ c ∈ blanks, isBlank c = true) (s : Text) :
    words (blanks ++ s) = words s := by
  induction blanks with
  | nil => rfl
  | cons c blanks ih =>
    have hcons := words_append_cons (h c List.mem_cons_self) [] (blanks ++ s)
    rw [List.nil_append] at hcons
    rw [List.cons_append, hcons, ih fun d hd => h d (List.mem_cons_of_mem _ hd)]
    rfl

theorem map_lowerChar_of_blanks {blanks : Text} (h : ∀ c ∈ blanks, isBlank c = true) :
    blanks.map lowerChar = blanks := by
  have hlow : ∀ c ∈ blanks, lowerChar c = c := by
    intro c hc
    simpa using forall_blank (p := fun c => lowerChar c == c)
      (by decide +kernel) (by decide +kernel) (h c hc)
  exact (List.map_congr_left hlow).trans (List.map_id' blanks)

/-- A word as it stands in a keyword: no blanks, and nothing that lower-casing treats apart. -/
structure IsPlainWord (word : Text) : Prop where
  ne_nil : word ≠ []
  solid : ∀ c ∈ word, isBlank c = false
  plain : ∀ c ∈ word, isForeign c = false

theorem IsSpelling.map_lowerChar {parts : List Text} {s : Text} (h : IsSpelling parts s)
    (hplain : ∀ part ∈ parts, IsPlainWord part) :
    words (s.map lowerChar) = parts ∧ ∀ c ∈ s.map lowerChar, isForeign c = false := by
  have hword : ∀ {word written : Text}, lower written = word → IsPlainWord word →
      written.map lowerChar = word := by
    rintro word written rfl hword
    exact (lowerAfter_eq_map hword.plain).symm
  induction h with
  | last hcase =>
    have hpart := hplain _ List.mem_cons_self
    rw [hword hcase hpart]
    exact ⟨words_of_forall hpart.ne_nil hpart.solid, hpart.plain⟩
  | @more word written blanks s parts hcase hne hblanks h ih =>
    have hpart := hplain _ List.mem_cons_self
    obtain ⟨hwords, hrest⟩ := ih fun part hmem => hplain part (List.mem_cons_of_mem _ hmem)
    obtain ⟨c, more, rfl⟩ := List.exists_cons_of_ne_nil hne
    have hmap : (written ++ (c :: more) ++ s).map lowerChar =
        word ++ c :: (more ++ s.map lowerChar) := by
      rw [List.map_append, List.map_append, hword hcase hpart, map_lowerChar_of_blanks hblanks,
        List.append_assoc]
      rfl
    have hmore : ∀ d ∈ more, isBlank d = true := fun d hd => hblanks d (List.mem_cons_of_mem _ hd)
    rw [hmap]
    constructor
    · rw [words_append_cons (hblanks c List.mem_cons_self),
        words_of_forall hpart.ne_nil hpart.solid, words_blanks_append hmore, hwords]
      rfl
    · have hblank : ∀ d ∈ c :: more, isForeign d = false := by
        intro d hd
        simpa using forall_blank (p := fun c => !isForeign c) (by decide +kernel)
          (by decide +kernel) (hblanks d hd)
      intro d hd
      rcases List.mem_append.1 hd with hd | hd
      · exact hpart.plain d hd
      · rcases List.mem_append.1 (show d ∈ (c :: more) ++ s.map lowerChar from hd) with hd | hd
        · exact hblank d hd
        · exact hrest d hd

theorem keyword?_of_spelling {s : Text} (h : IsSpelling (words keyword.words) s) :
    keyword? s = some keyword := by
  have hplain : ∀ part ∈ words keyword.words, IsPlainWord part := by
    have hall : ∀ part ∈ words keyword.words, part ≠ [] ∧ (∀ c ∈ part, isBlank c = false) ∧
        ∀ c ∈ part, isForeign c = false := by
      cases keyword <;> decide
    exact fun part hpart => ⟨(hall part hpart).1, (hall part hpart).2.1, (hall part hpart).2.2⟩
  obtain ⟨hwords, hforeign⟩ := h.map_lowerChar hplain
  have hsqueeze : squeeze (lower s) = keyword.words := by
    rw [squeeze, lower, lowerAfter_of_map hforeign, hwords]
    cases keyword <;> decide
  rw [keyword?, hsqueeze]
  cases keyword <;> decide

/-! ## What a keyword is resolved to -/

theorem resolved_of_keyword {limit : Nat} (hlimit : 1 ≤ limit) (calls : List DateCache.Call)
    {s : Text} (hkeyword : keyword? (trim s) = some keyword)
    (hday : keyword.day today = .ok date) (hfirst : date ≠ Date.first) :
    DateCache.resolved limit calls today s = .ok (some (Moment.start date)) := by
  have hrelative : relative today (trim s) = .ok (some (Moment.start date)) := by
    unfold relative
    simp only [hkeyword, hday, bind, Except.bind, Moment.timestamp_ofDate hfirst]
    rfl
  rw [DateCache.resolved_eq hlimit, resolve]
  simp only [hrelative]
  rfl

theorem IsWithin.ne_first (h : IsWithin today) (hlands : keyword.Lands today date) :
    date ≠ Date.first := by
  obtain ⟨hnumber, -⟩ := h.number
  obtain ⟨hearly, -⟩ := h.month
  obtain ⟨hyear, hmonth, -⟩ := Date.isReal_iff.1 today.real
  have hzero : Date.number Date.first = 0 := rfl
  rintro rfl
  cases keyword with
  | today =>
    obtain rfl : Date.first = today := hlands
    omega
  | tomorrow | yesterday =>
    unfold Keyword.Lands at hlands
    omega
  | nextWeek | lastWeek =>
    obtain ⟨-, hlands⟩ := hlands
    omega
  | nextMonth | lastMonth =>
    obtain ⟨-, hnext⟩ := hlands
    unfold Date.IsNextMonth Date.first at hnext
    dsimp only at hnext
    split at hnext <;> omega

/-- For a today that is not at either end of the calendar each keyword names one day, in whatever
spelling it is resolved: the Sunday that comes within the next week, the one in the week before the
last seven days, the first day of the next month or of the last one, or a day next to today. Last
month lies before today and next month after it, and so do last week and next week. -/
theorem exists_day_of_keyword (h : IsWithin today) :
    ∃ day : Keyword → Date, (∀ keyword date, keyword.Lands today date ↔ date = day keyword) ∧
      (∀ keyword s limit calls, 1 ≤ limit → IsSpelling (words keyword.words) (trim s) →
        DateCache.resolved limit calls today s = .ok (some (Moment.start (day keyword)))) ∧
      Moment.start (day .lastMonth) < Moment.start (day .today) ∧
      Moment.start (day .today) < Moment.start (day .nextMonth) ∧
      Moment.start (day .lastWeek) < Moment.start (day .today) ∧
      Moment.start (day .today) < Moment.start (day .nextWeek) := by
  choose day hday hlands using h.exists_day
  have htoday : day .today = today := hlands .today
  refine ⟨day, fun keyword date => ⟨fun hdate => hdate.unique (hlands keyword), ?_⟩, ?_, ?_⟩
  · rintro rfl
    exact hlands keyword
  · intro keyword s limit calls hlimit hspelling
    exact resolved_of_keyword hlimit calls (keyword?_of_spelling hspelling)
      (hday keyword) (h.ne_first (hlands keyword))
  · rw [htoday]
    simp only [Moment.start_lt_iff]
    refine ⟨(hlands .lastMonth).2.lt, (hlands .nextMonth).2.lt, ?_, (hlands .nextWeek).2.1⟩
    have hle : (day .lastWeek).number + 7 ≤ today.number := (hlands .lastWeek).2.2
    exact Nat.lt_of_lt_of_le (Nat.lt_add_of_pos_right (by decide)) hle

/-- The last day of a year, which is a Sunday. -/
def lastSunday : Date :=
  ⟨2023, 12, 31, rfl⟩

theorem exists_day_of_keyword_lastSunday :
    IsWithin lastSunday ∧ DateCache.resolved 2 DateCache.diaryCalls lastSunday
      " neXt \u00a0WEEK\n".toList = .ok (some 1704585600000) ∧
      DateCache.resolved 2 DateCache.diaryCalls lastSunday "Next Month".toList =
        .ok (some 1704067200000) := by
  have hwithin : IsWithin lastSunday := by
    constructor <;> decide +kernel
  obtain ⟨day, hday, hresolved, -⟩ := exists_day_of_keyword hwithin
  have hweek : ⟨2024, 1, 7, rfl⟩ = day .nextWeek :=
    (hday .nextWeek _).1 (by unfold Keyword.Lands; decide +kernel)
  have hmonth : ⟨2024, 1, 1, rfl⟩ = day .nextMonth :=
    (hday .nextMonth _).1 (by unfold Keyword.Lands Date.IsNextMonth; decide +kernel)
  have htrim : trim " neXt \u00a0WEEK\n".toList = "neXt".toList ++ " \u00a0".toList ++
      "WEEK".toList := by decide +kernel
  have hspelling : IsSpelling (words Keyword.nextWeek.words) (trim " neXt \u00a0WEEK\n".toList) := by
    rw [htrim]
    exact .more (by decide) (by decide) (by decide) (.last (by decide))
  have htrim' : trim "Next Month".toList = "Next".toList ++ [' '] ++
      "Month".toList := by decide +kernel
  have hspelling' : IsSpelling (words Keyword.nextMonth.words) (trim "Next Month".toList) := by
    rw [htrim']
    exact .more (by decide) (by decide) (by decide) (.last (by decide))
  refine ⟨hwithin, ?_, ?_⟩
  · rw [hresolved .nextWeek _ 2 _ (by decide) hspelling, ← hweek, Moment.start_eq]
    decide +kernel
  · rw [hresolved .nextMonth _ 2 _ (by decide) hspelling', ← hmonth, Moment.start_eq]
    decide +kernel

end DateText
end Checklist
