import Checklist.Inheritance
import Checklist.Note.Parse
import Checklist.Proofs.Calendar.DateText
import Checklist.Proofs.Except

/-! # Values that suit a field

Reading a value for a field fails for three kinds of text only: digits that are no number, dates on
the day that has no timestamps, and relative dates that leave the calendar. Main statements: what a
line says about a field is read if it suits the field (`setField_isOk_iff`), and so is a value that
a task inherits (`inheritField_isOk_iff`). -/

namespace Checklist
set_option autoImplicit false
open Text

/-! ## Priorities -/

namespace Text

/-- Digits that name no number: one of them is no decimal digit, or they are too many. -/
def IsUnreadable (s : Text) : Prop :=
  s ≠ [] ∧ (∀ c ∈ s, isDigit c = true) ∧ ((∃ c ∈ s, isDecimal c = false) ∨ digitLimit < s.length)

theorem readNat?_eq_none_iff {s : Text} (hne : s ≠ []) :
    readNat? s = none ↔ (∃ c ∈ s, isDecimal c = false) ∨ digitLimit < s.length := by
  have hempty : s.isEmpty = false := by simpa using hne
  unfold readNat?
  by_cases hall : s.all isDecimal = true
  · have hdecimal : ¬∃ c ∈ s, isDecimal c = false := by
      rintro ⟨c, hc, hfalse⟩
      have htrue := List.all_eq_true.1 hall c hc
      simp [hfalse] at htrue
    by_cases hlength : s.length ≤ digitLimit
    · have hnot : ¬digitLimit < s.length := by omega
      simp [hempty, hall, hlength, hdecimal, hnot]
    · have hlt : digitLimit < s.length := by omega
      simp [hempty, hall, hlength, hlt]
  · have hexists : ∃ c ∈ s, isDecimal c = false := by simpa using hall
    simp [hall, hexists]

theorem isUnreadable_iff {s : Text} : IsUnreadable s ↔ (!s.isEmpty && s.all isDigit) = true ∧
    readNat? s = none := by
  constructor
  · rintro ⟨hne, hall, hbad⟩
    exact ⟨by simpa using ⟨hne, hall⟩, (readNat?_eq_none_iff hne).2 hbad⟩
  · rintro ⟨hdigits, hread⟩
    obtain ⟨hne, hall⟩ : s ≠ [] ∧ ∀ c ∈ s, isDigit c = true := by simpa using hdigits
    exact ⟨hne, hall, (readNat?_eq_none_iff hne).1 hread⟩

theorem not_isUnreadable_of_mem {s : Text} {c : Char} (hc : c ∈ s) (hdigit : isDigit c = false) :
    ¬IsUnreadable s := by
  rintro ⟨-, hall, -⟩
  rw [hall c hc] at hdigit
  cases hdigit

theorem head_lower_of_ascii {c : Char} {rest : Text} (hc : c.toNat < 128) :
    c.toLower ∈ lower (c :: rest) := by
  have hI : (c == 'İ') = false := by
    rw [beq_eq_false_iff_ne]
    rintro rfl
    exact absurd hc (by decide)
  have hSigma : (c == 'Σ') = false := by
    rw [beq_eq_false_iff_ne]
    rintro rfl
    exact absurd hc (by decide)
  simp [lower, lowerAfter, lowerChar, hI, hSigma, hc]

end Text

namespace Priority

theorem not_digits_of_lookup {table : List (Text × Nat)}
    (htable : ∀ entry ∈ table, ∃ c ∈ lower entry.1, isDigit c = false)
    {text : Text} {level : Nat} (h : table.lookup text = some level) :
    ∃ c ∈ lower text, isDigit c = false := by
  obtain ⟨before, after, rfl, -⟩ := List.lookup_eq_some_iff.1 h
  exact htable (text, level) (by simp)

theorem lower_levelWord : ∀ entry ∈ levelWords, ∃ c ∈ entry.1,
    isDigit c = false := by decide +kernel

theorem lower_symbol : ∀ entry ∈ symbols, ∃ c ∈ lower entry.1,
    isDigit c = false := by decide +kernel

theorem mem_of_bracketLevel? {text : Text} {level : Nat} (h : bracketLevel? text = some level) :
    '[' ∈ lower text := by
  unfold bracketLevel? at h
  split at h
  · exact head_lower_of_ascii (by decide)
  · cases h

/-- Symbols, letters in brackets and words are no digits, so only a text that is none of
these can fail. -/
theorem resolve_isOk_iff {s : Text} : (∃ level, resolve s = .ok level) ↔
    ¬IsUnreadable (lower (plain (trim s))) := by
  unfold resolve
  generalize plain (trim s) = text
  cases hsymbol : symbols.lookup text with
  | some level =>
    obtain ⟨c, hc, hdigit⟩ := not_digits_of_lookup lower_symbol hsymbol
    exact iff_of_true ⟨some level, by simp only [hsymbol]⟩ (not_isUnreadable_of_mem hc hdigit)
  | none => cases hbracket : bracketLevel? text with
    | some level =>
      exact iff_of_true ⟨some level, by simp only [hsymbol, hbracket]⟩
        (not_isUnreadable_of_mem (mem_of_bracketLevel? hbracket) (by decide +kernel))
    | none => cases hword : levelWords.lookup (lower text) with
      | some level =>
        obtain ⟨before, after, hsplit, -⟩ := List.lookup_eq_some_iff.1 hword
        obtain ⟨c, hc, hdigit⟩ := lower_levelWord (lower text, level) (by simp [hsplit])
        exact iff_of_true ⟨some level, by simp only [hsymbol, hbracket, hword]⟩
          (not_isUnreadable_of_mem hc hdigit)
      | none =>
        rw [isUnreadable_iff]
        simp only [hsymbol, hbracket, hword]
        cases !(lower text).isEmpty && (lower text).all isDigit <;>
          cases readNat? (lower text) <;> simp

end Priority

/-! ## Dates -/

theorem Moment.timestamp_isOk_iff {moment : Moment} (hwhole : moment.micro = 0) :
    (∃ timestamp, moment.timestamp = .ok timestamp) ↔ moment.date.number ≠ 0 := by
  by_cases hfirst : moment.date.number = 0
  · simp [timestamp, seconds_lt_firstSecond_iff.2 hfirst, hfirst]
  · exact iff_of_true ⟨_, timestamp_eq hwhole hfirst⟩ hfirst

namespace DateText

/-- The text names no day, or a day with a timestamp: relative to today it stays within the
calendar, and it is not the first day of the calendar. -/
structure HasTimestamp (today : Date) (s : Text) : Prop where
  keyword : ∀ word, keyword? (trim s) = some word → ∃ day, word.day today = .ok day ∧ day.number ≠ 0
  literal : ∀ moment, keyword? (trim s) = none → moment? (trim s) = some moment →
    moment.date.number ≠ 0

theorem relative_isOk_iff {today : Date} {s : Text} :
    (∃ timestamp, relative today s = .ok timestamp) ↔
    ∀ word, keyword? s = some word → ∃ day, word.day today = .ok day ∧ day.number ≠ 0 := by
  unfold relative
  cases hword : keyword? s with
  | none => simp
  | some word =>
    simp only [Option.some.injEq, forall_eq']
    rw [Result.bind_isOk_iff]
    refine exists_congr fun day => and_congr_right fun _ => ?_
    rw [Result.bind_isOk_iff]
    exact (exists_congr fun timestamp => and_iff_left ⟨_, rfl⟩).trans
      (@Moment.timestamp_isOk_iff (Moment.ofDate day) rfl)

theorem literal_isOk_iff {s : Text} :
    (∃ timestamp, literal s = .ok timestamp) ↔ ∀ moment, moment? s = some moment →
      moment.date.number ≠ 0 := by
  unfold literal
  cases hmoment : moment? s with
  | none => simp
  | some moment =>
    simp only [Option.some.injEq, forall_eq']
    rw [Result.map_isOk_iff, Moment.timestamp_isOk_iff (micro_of_moment? hmoment)]

theorem relative_eq_none_iff {today : Date} {s : Text} : relative today s = .ok none ↔
    keyword? s = none := by
  unfold relative
  cases hword : keyword? s with
  | none => simp
  | some word =>
    simp only [reduceCtorEq, iff_false]
    intro h
    obtain ⟨day, -, h⟩ := Result.bind_eq_ok.1 h
    obtain ⟨timestamp, -, h⟩ := Result.bind_eq_ok.1 h
    cases h

theorem resolve_isOk_iff {today : Date} {s : Text} :
    (∃ timestamp, resolve today s = .ok timestamp) ↔ HasTimestamp today s := by
  unfold resolve
  rw [Result.bind_isOk_iff]
  constructor
  · rintro ⟨found, hfound, hrest⟩
    refine ⟨relative_isOk_iff.1 ⟨found, hfound⟩, fun moment hword hmoment => ?_⟩
    rw [relative_eq_none_iff.2 hword] at hfound
    cases hfound
    exact literal_isOk_iff.1 hrest moment hmoment
  · intro h
    obtain ⟨found, hfound⟩ := relative_isOk_iff.2 h.keyword
    refine ⟨found, hfound, ?_⟩
    cases found with
    | some timestamp => exact ⟨_, rfl⟩
    | none =>
      exact literal_isOk_iff.2 fun moment hmoment =>
        h.literal moment (relative_eq_none_iff.1 hfound) hmoment

end DateText

/-! ## Recurrences -/

namespace Recurrence

/-- The phrase in lower case, without blanks around it and without a final `when done`. -/
def core (s : Text) : Text :=
  (splitWhenDone (squeeze (lower (trim s)))).1

/-- The interval of the phrase, if it has one in digits, has few enough digits for a number. -/
def HasInterval (s : Text) : Prop :=
  ∀ digits word unit, every? (core s) = some (.counted digits, word) → unit? word = some unit →
    digits.length ≤ digitLimit

theorem every?_of_adverb? {text : Text} {unit : Unit} (h : adverb? text = some unit) :
    every? text = none := by
  obtain ⟨before, after, hsplit, -⟩ := List.lookup_eq_some_iff.1 h
  have hmem : (text, unit) ∈ [("daily".toList, Unit.day), ("weekly".toList, .week),
      ("monthly".toList, .month), ("yearly".toList, .year), ("annually".toList, .year)] := by
    rw [hsplit]
    simp
  have hall : ∀ entry ∈ [("daily".toList, Unit.day), ("weekly".toList, .week),
      ("monthly".toList, .month), ("yearly".toList, .year), ("annually".toList, .year)],
      (every? entry.1).isNone = true := by decide +kernel
  simpa using hall _ hmem

theorem digits_of_every? {text digits word : Text}
    (h : every? text = some (.counted digits, word)) :
    digits ≠ [] ∧ ∀ c ∈ digits, isDecimal c = true := by
  unfold every? at h
  split at h
  · split at h <;> cases h
  · rename_i first count unitWord hwords
    split at h
    · split at h
      · cases h
      · split at h
        · rename_i hdigits
          cases h
          have hmem : digits ∈ words text := by
            rw [hwords]
            simp
          exact ⟨(mem_words hmem).1, List.all_eq_true.1 hdigits⟩
        · cases h
    · cases h
  · cases h

theorem count_isOk_iff {digits : Text} (hne : digits ≠ [])
    (hall : ∀ c ∈ digits, isDecimal c = true) :
    (∃ count, (Interval.counted digits).count = .ok count) ↔ digits.length ≤ digitLimit := by
  have hiff := readNat?_eq_none_iff hne
  have hdecimal : ¬∃ c ∈ digits, isDecimal c = false := by
    rintro ⟨c, hc, hfalse⟩
    rw [hall c hc] at hfalse
    cases hfalse
  cases hread : readNat? digits with
  | none =>
    have hlong : digitLimit < digits.length := (hiff.1 hread).resolve_left hdecimal
    have hnot : ¬digits.length ≤ digitLimit := by omega
    simp [Interval.count, hread, hnot]
  | some n =>
    have hshort : ¬digitLimit < digits.length := by
      intro hlong
      rw [hiff.2 (.inr hlong)] at hread
      cases hread
    have hle : digits.length ≤ digitLimit := by omega
    simp [Interval.count, hread, hle]

theorem parse_isOk_iff {s : Text} : (∃ recurrence, parse s = .ok recurrence) ↔ HasInterval s := by
  unfold parse HasInterval core
  by_cases hblank : (trim s).isEmpty = true
  · have hnil : trim s = [] := by simpa using hblank
    have hevery : every? (splitWhenDone (squeeze (lower []))).1 = none := by decide +kernel
    simp [hnil, hevery, pure, Except.pure]
  · simp only [hblank]
    generalize splitWhenDone (squeeze (lower (trim s))) = phrase
    cases hadverb : adverb? phrase.1 with
    | some unit => simp [every?_of_adverb? hadverb, pure, Except.pure]
    | none =>
      cases hevery : every? phrase.1 with
      | none => simp [pure, Except.pure]
      | some found =>
        obtain ⟨interval, word⟩ := found
        cases hunit : unit? word with
        | none =>
          have hnone : ∀ digits other unit,
              some (interval, word) = some (Interval.counted digits, other) →
              unit? other = some unit → digits.length ≤ digitLimit := by
            rintro digits other unit hpair hother
            cases hpair
            rw [hunit] at hother
            cases hother
          refine iff_of_true ?_ hnone
          cases hweekday : weekday? word <;> cases interval <;>
            simp [hunit, hweekday, pure, Except.pure]
        | some unit =>
          simp only [hunit, Bool.false_eq_true, if_false]
          rw [Result.bind_isOk_iff]
          cases interval with
          | once => simp [Interval.count, pure, Except.pure]
          | other => simp [Interval.count, pure, Except.pure]
          | counted digits =>
            obtain ⟨hne, hall⟩ := digits_of_every? hevery
            have hcount := count_isOk_iff hne hall
            have hlimit : (∀ others other unit',
                some (Interval.counted digits, word) = some (Interval.counted others, other) →
                unit? other = some unit' → others.length ≤ digitLimit) ↔
                digits.length ≤ digitLimit := by
              constructor
              · intro h
                exact h digits word unit rfl hunit
              · rintro hle others other unit' hpair -
                cases hpair
                exact hle
            rw [hlimit]
            simpa [pure, Except.pure] using hcount

end Recurrence

/-! ## Values -/

namespace Value

/-- Reading the value for a field succeeds: it can be written where its text counts, a date has a
timestamp, a number is readable. -/
def Suits (today : Date) (value : Value) (field : Field) : Prop :=
  match field with
  | .date _ => match value with
    | .null | .bool _ | .int _ | .moment _ (some _) => True
    | .date day => day.number ≠ 0
    | .moment instant none => ∃ timestamp, instant.timestamp = .ok timestamp
    | value => value.isWritable = true ∧ DateText.HasTimestamp today value.display
  | .priority => value.isWritable = true ∧ match value with
    | .null | .bool _ | .int _ => True
    | value => ¬IsUnreadable (lower (Priority.plain (trim value.display)))
  | .recurrence => value.isWritable = true ∧ Recurrence.HasInterval value.display
  | .project | .context | .area | .tags => value.isWritable = true

theorem written_eq_ok {value : Value} {s : Text} : value.written = .ok s ↔ value.isWritable = true ∧
    value.display = s := by
  unfold written
  split <;> simp_all

theorem bind_written_isOk_iff {α : Type} {value : Value} {f : Text → Except Failure α} :
    (∃ result, (value.written >>= f) = .ok result) ↔ value.isWritable = true ∧ ∃ result,
      f value.display = .ok result := by
  rw [Result.bind_isOk_iff]
  simp [written_eq_ok]

theorem map_written_isOk_iff {α : Type} {value : Value} {f : Text → α} :
    (∃ result, value.written.map f = .ok result) ↔ value.isWritable = true := by
  rw [Result.map_isOk_iff]
  simp [written_eq_ok]

theorem written_isOk_iff {α : Type} {value : Value} {read : Text → Except Failure (Option α)} :
    (∃ found, (value.written >>= read) = .ok found ∧ (found = none → value.isWritable = true)) ↔
      value.isWritable = true ∧ ∃ found, read value.display = .ok found := by
  rw [← bind_written_isOk_iff]
  refine exists_congr fun found => and_iff_left_of_imp fun h _ => ?_
  obtain ⟨s, hs, -⟩ := Result.bind_eq_ok.1 h
  exact (written_eq_ok.1 hs).1

theorem timestamp?_isOk_iff {today : Date} {value : Value} {kind : DateField} :
    (∃ found, value.timestamp? today = .ok found ∧ (found = none → value.isWritable = true)) ↔
      value.Suits today (.date kind) := by
  have htext : (∃ found, (value.written >>= DateText.resolve today) = .ok found ∧
      (found = none → value.isWritable = true)) ↔
      value.isWritable = true ∧ DateText.HasTimestamp today value.display := by
    rw [written_isOk_iff, DateText.resolve_isOk_iff]
  cases value with
  | null => exact iff_of_true ⟨none, rfl, fun _ => rfl⟩ trivial
  | bool b => exact iff_of_true ⟨none, rfl, fun _ => rfl⟩ trivial
  | int n => exact iff_of_true ⟨some n, rfl, fun h => nomatch h⟩ trivial
  | date day =>
    have htimestamp := @Moment.timestamp_isOk_iff (Moment.ofDate day) rfl
    rw [← Result.map_isOk_iff (f := some)] at htimestamp
    refine Iff.trans ?_ htimestamp
    exact exists_congr fun found => and_iff_left fun _ => rfl
  | moment instant offset =>
    cases offset with
    | none =>
      refine Iff.trans ?_ (Result.map_isOk_iff (f := some))
      exact exists_congr fun found => and_iff_left fun _ => rfl
    | some offset => exact iff_of_true ⟨_, rfl, fun h => nomatch h⟩ trivial
  | float x => exact htext
  | str s => exact htext
  | bytes octets => exact htext
  | list items => exact htext
  | set items => exact htext
  | map entries => exact htext
  | ring isMapping => exact htext

theorem level?_isOk_iff {today : Date} {value : Value} :
    (∃ found, value.level? = .ok found ∧ (found = none → value.isWritable = true)) ↔
      value.Suits today .priority := by
  have htext : (∃ found, (value.written >>= Priority.resolve) = .ok found ∧
      (found = none → value.isWritable = true)) ↔
      value.isWritable = true ∧ ¬IsUnreadable (lower (Priority.plain (trim value.display))) := by
    rw [written_isOk_iff, Priority.resolve_isOk_iff]
  cases value with
  | null => exact iff_of_true ⟨none, rfl, fun _ => rfl⟩ ⟨rfl, trivial⟩
  | bool b => exact iff_of_true ⟨none, rfl, fun _ => rfl⟩ ⟨rfl, trivial⟩
  | int n =>
    by_cases hrange : 1 ≤ n ∧ n ≤ 5
    · have hwritable : (Value.int n).isWritable = true := by
        obtain rfl | rfl | rfl | rfl | rfl : n = 1 ∨ n = 2 ∨ n = 3 ∨ n = 4 ∨ n = 5 := by omega
        all_goals decide
      exact iff_of_true ⟨_, rfl, fun _ => hwritable⟩ ⟨hwritable, trivial⟩
    · have hnone : (Value.int n).level? = .ok none := by simp [level?, Priority.inRange?, hrange]
      constructor
      · rintro ⟨found, hfound, hwritable⟩
        rw [hnone] at hfound
        cases hfound
        exact ⟨hwritable rfl, trivial⟩
      · rintro ⟨hwritable, -⟩
        exact ⟨none, hnone, fun _ => hwritable⟩
  | date day => exact htext
  | moment instant offset => exact htext
  | float x => exact htext
  | str s => exact htext
  | bytes octets => exact htext
  | list items => exact htext
  | set items => exact htext
  | map entries => exact htext
  | ring isMapping => exact htext

theorem recurrence?_isOk_iff {today : Date} {value : Value} :
    (∃ found, value.recurrence? = .ok found ∧ (found = none → value.isWritable = true)) ↔
      value.Suits today .recurrence := by
  refine written_isOk_iff.trans (and_congr_right fun _ => ?_)
  exact Recurrence.parse_isOk_iff

theorem writtenText?_isOk_iff {value : Value} :
    (∃ found, value.writtenText? = .ok found ∧ (found = none → value.isWritable = true)) ↔
      value.isWritable = true := by
  constructor
  · rintro ⟨found, hfound, -⟩
    exact map_written_isOk_iff.1 ⟨found, hfound⟩
  · intro hwritable
    obtain ⟨found, hfound⟩ := map_written_isOk_iff.2 hwritable
    exact ⟨found, hfound, fun _ => hwritable⟩

end Value

namespace Inheritance

theorem inheritField_isOk_iff_of_fill? {α : Type} {today : Date} {metadata : Metadata}
    {field : Field} {value : Value}
    {read : Except Failure (Option α)} {filled : Option α → Option Metadata}
    (h : fill? today metadata field value = (do return filled (← read)))
    (hfilled : ∀ found, filled found = none ↔ found = none) :
    (∃ result, inheritField today metadata field value = .ok result) ↔
      ∃ found, read = .ok found ∧ (found = none → value.isWritable = true) := by
  unfold inheritField
  rw [h]
  cases read with
  | error cause => simp [bind, Except.bind]
  | ok found =>
    have hnone := hfilled found
    cases found with
    | none => simp [bind, Except.bind, pure, Except.pure, Value.map_written_isOk_iff, hnone.2 rfl]
    | some a =>
      obtain ⟨filled', hfilled'⟩ :=
        Option.ne_none_iff_exists'.1 (mt hnone.1 (Option.some_ne_none a))
      simp [bind, Except.bind, pure, Except.pure, hfilled']

/-- A value is taken over for a field, or found to mean nothing, exactly if it suits the field. -/
theorem inheritField_isOk_iff {today : Date} {metadata : Metadata} {field : Field} {value : Value} :
    (∃ result, inheritField today metadata field value = .ok result) ↔ value.Suits today field := by
  have hmap : ∀ {α : Type} {filled : α → Metadata} (found : Option α), found.map filled = none ↔
      found = none := by simp
  cases field with
  | date kind => exact (inheritField_isOk_iff_of_fill? rfl hmap).trans Value.timestamp?_isOk_iff
  | priority =>
    exact (inheritField_isOk_iff_of_fill? rfl fun found => by cases found <;> simp).trans
      Value.level?_isOk_iff
  | recurrence => exact (inheritField_isOk_iff_of_fill? rfl hmap).trans Value.recurrence?_isOk_iff
  | project => exact (inheritField_isOk_iff_of_fill? rfl hmap).trans Value.writtenText?_isOk_iff
  | context => exact (inheritField_isOk_iff_of_fill? rfl hmap).trans Value.writtenText?_isOk_iff
  | area => exact (inheritField_isOk_iff_of_fill? rfl hmap).trans Value.writtenText?_isOk_iff
  | tags => exact Value.map_written_isOk_iff

end Inheritance

/-- What the markup of a line says about a field is read, or found to mean nothing, exactly if it
suits the field. -/
theorem Note.setField_isOk_iff {today : Date} {metadata : Metadata} {field : Field} {raw : Text} :
    (∃ result, Note.setField today metadata field raw = .ok result) ↔
      (Value.str raw).Suits today field := by
  have hread : ∀ {α : Type} {read : Except Failure (Option α)}
      {next : Option α → Except Failure Metadata},
      (∀ found, ∃ result, next found = .ok result) →
          ((∃ result, (read >>= next) = .ok result) ↔ ∃ found, read = .ok found) := by
    intro α read next hnext
    rw [Result.bind_isOk_iff]
    exact exists_congr fun found => and_iff_left (hnext found)
  have hwritable : (Value.str raw).isWritable = true := rfl
  cases field with
  | date kind =>
    refine (hread fun found => ?_).trans
      (DateText.resolve_isOk_iff.trans (and_iff_right hwritable).symm)
    cases found <;> exact ⟨_, rfl⟩
  | priority =>
    refine (hread fun found => ?_).trans
      (Priority.resolve_isOk_iff.trans (and_iff_right hwritable).symm)
    cases found <;> exact ⟨_, rfl⟩
  | recurrence =>
    refine (hread fun found => ?_).trans
      (Recurrence.parse_isOk_iff.trans (and_iff_right hwritable).symm)
    cases found <;> exact ⟨_, rfl⟩
  | project => exact iff_of_true ⟨_, rfl⟩ rfl
  | context => exact iff_of_true ⟨_, rfl⟩ rfl
  | area => exact iff_of_true ⟨_, rfl⟩ rfl
  | tags => exact iff_of_true ⟨_, rfl⟩ rfl

end Checklist
