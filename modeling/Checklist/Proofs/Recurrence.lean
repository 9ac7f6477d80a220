import Checklist.Recurrence
import Checklist.Proofs.Except
import Checklist.Proofs.Text

/-! # A recurrence phrase is read back

The phrase of a rule is read as that rule, and a phrase that is kept as it stands is kept again.
Main statements: a recurrence that was read from some text is read from its own text
(`parse_text`), and the rules that are read are the regular ones, each of which has a phrase
(`parse_normalises`). -/

namespace Checklist.Recurrence
set_option autoImplicit false
open Text

/-! ## Words in lower case -/

/-- The character is its own lower-case form wherever it stands. -/
def isLow (c : Char) : Bool :=
  c != 'İ' && c != 'Σ' && lowerChar c == c

theorem lowerAfter_eq_self {before s : Text} (h : ∀ c ∈ s, isLow c = true) :
    lowerAfter before s = s := by
  induction s generalizing before with
  | nil => rfl
  | cons c rest ih =>
    have hc := h c List.mem_cons_self
    simp only [isLow, Bool.and_eq_true, bne_iff_ne, beq_iff_eq] at hc
    rw [lowerAfter, ih fun d hd => h d (List.mem_cons_of_mem _ hd)]
    simp [hc]

theorem lower_eq_self {s : Text} (h : ∀ c ∈ s, isLow c = true) : lower s = s :=
  lowerAfter_eq_self h

/-- A word of a phrase: low characters, none of them a blank. -/
structure IsLowWord (word : Text) : Prop where
  ne_nil : word ≠ []
  low : ∀ c ∈ word, isLow c = true
  solid : ∀ c ∈ word, isBlank c = false

theorem isLowWord_ofNat (n : Nat) : IsLowWord (ofNat n) := by
  refine ⟨ofNat_ne_nil n, fun c hc => ?_, fun c hc => isBlank_of_isDigit (isDigit_of_mem_ofNat hc)⟩
  exact forall_digit (P := fun c => isLow c = true) (by decide) (isDigit_of_mem_ofNat hc)

theorem mem_join {parts : List Text} {c : Char} (h : c ∈ join [' '] parts) :
    c = ' ' ∨ ∃ part ∈ parts, c ∈ part := by
  induction parts with
  | nil => simp [join] at h
  | cons part rest ih =>
    cases rest with
    | nil => exact .inr ⟨part, List.mem_cons_self, h⟩
    | cons next others =>
      simp only [join, List.mem_append, List.mem_singleton] at h
      rcases h with (hpart | hspace) | hrest
      · exact .inr ⟨part, List.mem_cons_self, hpart⟩
      · exact .inl hspace
      · rcases ih hrest with hspace | ⟨other, hother, hc⟩
        · exact .inl hspace
        · exact .inr ⟨other, List.mem_cons_of_mem _ hother, hc⟩

theorem squeeze_lower_join {parts : List Text} (h : ∀ part ∈ parts, IsLowWord part) :
    squeeze (lower (join [' '] parts)) = join [' '] parts := by
  have hlower : lower (join [' '] parts) = join [' '] parts := by
    refine lower_eq_self fun c hc => ?_
    rcases mem_join hc with rfl | ⟨part, hpart, hc⟩
    · decide
    · exact (h part hpart).low c hc
  rw [hlower, squeeze, words_join fun part hpart => ⟨(h part hpart).ne_nil, (h part hpart).solid⟩]

/-! ## The words of a rule -/

/-- The words of a phrase before a final `when done`. -/
inductive IsPhrase : List Text → Rule → Prop where
  | every (unit : Unit) (whenDone : Bool) :
      IsPhrase ["every".toList, unit.name] ⟨unit, 1, none, whenDone⟩
  | counted (unit : Unit) (n : Nat) (whenDone : Bool) (hn : 2 ≤ n)
      (hlength : (ofNat n).length ≤ digitLimit) :
      IsPhrase ["every".toList, ofNat n, unit.name ++ ['s']] ⟨unit, n, none, whenDone⟩
  | weekday (index : Nat) (name : Text) (whenDone : Bool) (hname : weekdays[index]? = some name) :
      IsPhrase ["every".toList, name] ⟨.week, 1, some (index : Int), whenDone⟩

theorem isLowWord_of_mem {word : Text}
    (h : word ∈ ["every".toList, "when".toList, "done".toList] ++ weekdays) : IsLowWord word := by
  have hall : ∀ word ∈ ["every".toList, "when".toList, "done".toList] ++ weekdays,
      word ≠ [] ∧ (∀ c ∈ word, isLow c = true) ∧ ∀ c ∈ word, isBlank c = false := by decide +kernel
  exact ⟨(hall word h).1, (hall word h).2.1, (hall word h).2.2⟩

theorem isLowWord_unit (unit : Unit) : IsLowWord unit.name ∧ IsLowWord (unit.name ++ ['s']) := by
  cases unit <;> exact ⟨⟨by decide, by decide, by decide⟩, ⟨by decide, by decide, by decide⟩⟩

theorem IsPhrase.isLowWord {words : List Text} {rule : Rule} (h : IsPhrase words rule) :
    ∀ word ∈ words, IsLowWord word := by
  have hevery : IsLowWord "every".toList := isLowWord_of_mem (by decide)
  cases h with
  | every unit whenDone => simpa using ⟨hevery, (isLowWord_unit unit).1⟩
  | counted unit n whenDone hn hlength =>
    simpa using ⟨hevery, isLowWord_ofNat n, (isLowWord_unit unit).2⟩
  | weekday index name whenDone hname =>
    have hmem : name ∈ weekdays := List.mem_of_getElem? hname
    simpa using ⟨hevery, isLowWord_of_mem (by simp [hmem])⟩

def ending (whenDone : Bool) : List Text :=
  if whenDone then ["when".toList, "done".toList] else []

theorem IsPhrase.phrase_eq {words : List Text} {rule : Rule} (h : IsPhrase words rule) :
    rule.phrase = .ok (join [' '] (words ++ ending rule.whenDone)) := by
  cases h with
  | every unit whenDone => cases whenDone <;> cases unit <;> rfl
  | counted unit n whenDone hn hlength =>
    have hone : ((n : Int) == 1) = false := by
      rw [beq_eq_false_iff_ne]
      omega
    have hint : ofInt (n : Int) = ofNat n := rfl
    cases whenDone <;> simp [Rule.phrase, ending, join, hone, hint, pure,
      Except.pure, bind, Except.bind]
  | weekday index name whenDone hname =>
    have hnonneg : ¬((index : Int) < 0) := by omega
    have hweekday : weekdayName (index : Int) = .ok name := by simp [weekdayName, hnonneg, hname]
    cases whenDone <;> simp [Rule.phrase, ending, join, hweekday, pure, Except.pure, bind, Except.bind]

theorem isTrimmed_join {parts : List Text} (hne : parts ≠ []) (h : ∀ part ∈ parts, IsLowWord part) :
    IsTrimmed (join [' '] parts) := by
  have hword : ∀ part ∈ parts, IsTrimmed part :=
    fun part hpart => isTrimmed_of_forall (h part hpart).ne_nil (h part hpart).solid
  induction parts with
  | nil => exact absurd rfl hne
  | cons part rest ih =>
    cases rest with
    | nil => exact hword part List.mem_cons_self
    | cons next others =>
      have hrest := ih (by simp) (fun other hother => h other (List.mem_cons_of_mem _ hother))
        fun other hother => hword other (List.mem_cons_of_mem _ hother)
      exact (hword part List.mem_cons_self).append hrest [' ']

theorem splitWhenDone_append (text : Text) :
    splitWhenDone (text ++ " when done".toList) = (text, true) := by
  have hsuffix : " when done".toList.isSuffixOf (text ++ " when done".toList) = true := by
    rw [List.isSuffixOf_iff_suffix]
    exact List.suffix_append _ _
  simp only [splitWhenDone]
  rw [if_pos hsuffix]
  simp

theorem splitWhenDone_of_getLast? {text : Text} (h : text.getLast? ≠ some 'e') :
    splitWhenDone text = (text, false) := by
  have hsuffix : ¬" when done".toList.isSuffixOf text = true := by
    rw [List.isSuffixOf_iff_suffix]
    rintro ⟨before, rfl⟩
    exact h (by simp)
  simp only [splitWhenDone]
  rw [if_neg hsuffix]

/-! ## Reading a phrase -/

theorem splitWhenDone_phrase {words : List Text} {rule : Rule} (h : IsPhrase words rule) :
    splitWhenDone (join [' '] (words ++ ending rule.whenDone)) =
      (join [' '] words, rule.whenDone) := by
  have hne : words ≠ [] := by cases h <;> simp
  have hlast : (join [' '] words).getLast? ≠ some 'e' := by
    cases h with
    | every unit whenDone => cases unit <;> decide
    | counted unit n whenDone hn hlength =>
      have hconcat : join [' '] ["every".toList, ofNat n, unit.name ++ ['s']] =
          ("every ".toList ++ ofNat n ++ [' '] ++ unit.name) ++ ['s'] := by simp [join]
      rw [hconcat, List.getLast?_concat]
      decide
    | weekday index name whenDone hname =>
      have hall : ∀ name ∈ weekdays, (join [' '] ["every".toList, name]).getLast? ≠
          some 'e' := by decide +kernel
      exact hall name (List.mem_of_getElem? hname)
  cases hdone : rule.whenDone with
  | false => simpa [ending, hdone] using splitWhenDone_of_getLast? hlast
  | true =>
    have hjoin := join_append [' '] words ["when".toList, "done".toList] hne (by simp)
    have hending : [' '] ++ join [' '] ["when".toList, "done".toList] = " when done".toList := rfl
    rw [List.append_assoc, hending] at hjoin
    simp only [ending, if_true]
    rw [hjoin, splitWhenDone_append]

theorem every?_of_words {text word : Text} (h : words text = ["every".toList, word])
    (hword : isUnitWord word = true) :
    every? text = some (.once, word) := by
  simp [every?, h, hword]

theorem every?_of_count {text count word : Text} (h : words text = ["every".toList, count, word])
    (hword : isUnitWord word = true)
    (hcount : count ≠ "other".toList) (hdigits : count.all isDecimal = true) :
    every? text = some (.counted count, word) := by
  have hother : (count == "other".toList) = false := by rwa [beq_eq_false_iff_ne]
  unfold every?
  rw [h]
  simp only [hword, hdigits, hother, beq_self_eq_true, Bool.and_self, if_true]
  rfl

theorem unit?_name (unit : Unit) : unit? unit.name = some unit ∧ isUnitWord unit.name = true := by
  cases unit <;> decide

theorem unit?_names (unit : Unit) : unit? (unit.name ++ ['s']) = some unit ∧
    isUnitWord (unit.name ++ ['s']) = true := by
  cases unit <;> decide

theorem weekday?_name {index : Nat} {name : Text} (h : weekdays[index]? = some name) :
    unit? name = none ∧ weekday? name = some index ∧ isUnitWord name = true := by
  have hall : ∀ index < 7, ∀ name, weekdays[index]? = some name →
      unit? name = none ∧ weekday? name = some index ∧ isUnitWord name = true := by decide +kernel
  have hindex : index < 7 := (List.getElem?_eq_some_iff.1 h).1
  exact hall index hindex name h

theorem IsPhrase.isLowWord_all {words : List Text} {rule : Rule} (h : IsPhrase words rule) :
    ∀ part ∈ words ++ ending rule.whenDone, IsLowWord part := by
  intro part hpart
  rcases List.mem_append.1 hpart with hpart | hpart
  · exact h.isLowWord part hpart
  · unfold ending at hpart
    split at hpart
    · refine isLowWord_of_mem (List.mem_append_left _ ?_)
      simp only [List.mem_cons, List.not_mem_nil, or_false] at hpart ⊢
      exact .inr hpart
    · cases hpart

theorem IsPhrase.isTrimmed {words : List Text} {rule : Rule} (h : IsPhrase words rule) :
    IsTrimmed (join [' '] (words ++ ending rule.whenDone)) :=
  isTrimmed_join (by cases h <;> simp) h.isLowWord_all

theorem exists_weekday {word : Text} {index : Nat} (h : weekday? word = some index) :
    ∃ name, weekdays[index]? = some name := by
  obtain ⟨hlt, -⟩ := List.findIdx?_eq_some_iff_getElem.1 h
  exact ⟨_, List.getElem?_eq_getElem hlt⟩

theorem parse_phrase {words : List Text} {rule : Rule} (h : IsPhrase words rule) :
    parse (join [' '] (words ++ ending rule.whenDone)) = .ok (some (.rule rule)) := by
  have hlow := h.isLowWord_all
  have htrimmed := h.isTrimmed
  have hempty : (join [' '] (words ++ ending rule.whenDone)).isEmpty =
      false := by simpa using htrimmed.ne_nil
  have hwords := words_join fun part hpart =>
    ⟨(h.isLowWord part hpart).ne_nil, (h.isLowWord part hpart).solid⟩
  have hadverb : adverb? (join [' '] words) = none := by
    cases h <;> rfl
  unfold parse
  simp only [htrimmed.trim_eq, hempty, squeeze_lower_join hlow, splitWhenDone_phrase h, hadverb]
  cases h with
  | every unit whenDone =>
    rw [every?_of_words hwords (unit?_name unit).2]
    simp [(unit?_name unit).1, Interval.count, bind, Except.bind, pure, Except.pure]
  | counted unit n whenDone hn hlength =>
    have hdigits : (ofNat n).all isDecimal = true :=
      List.all_eq_true.2 fun c hc => (isDecimal_of_isDigit (isDigit_of_mem_ofNat hc)).1
    have hother : ofNat n ≠ "other".toList := by
      intro heq
      rw [heq] at hdigits
      exact absurd hdigits (by decide)
    have hpositive : ¬n < 1 := by omega
    rw [every?_of_count hwords (unit?_names unit).2 hother hdigits]
    simp [(unit?_names unit).1, Interval.count, readNat?_ofNat hlength, hpositive, bind,
      Except.bind, pure, Except.pure]
  | weekday index name whenDone hname =>
    obtain ⟨hunit, hweekday, hword⟩ := weekday?_name hname
    rw [every?_of_words hwords hword]
    simp [hunit, hweekday, pure, Except.pure]

theorem IsPhrase.forall_char {words : List Text} {rule : Rule} (h : IsPhrase words rule) :
    ∀ c ∈ join [' '] (words ++ ending rule.whenDone), c = ' ' ∨ c.isAlphanum = true := by
  have hunit : ∀ unit : Unit, ∀ c ∈ unit.name ++ ['s'], c.isAlphanum = true := by
    intro unit
    cases unit <;> decide
  have hname : ∀ name ∈ weekdays, ∀ c ∈ name, c.isAlphanum = true := by decide +kernel
  have hevery : ∀ c ∈ "every".toList, c.isAlphanum = true := by decide
  intro c hc
  rcases mem_join hc with hspace | ⟨part, hpart, hmem⟩
  · exact .inl hspace
  · refine .inr ?_
    rcases List.mem_append.1 hpart with hword | hend
    · clear hpart hc
      cases h with
      | every unit whenDone =>
        simp only [List.mem_cons, List.not_mem_nil, or_false] at hword
        rcases hword with rfl | rfl
        · exact hevery c hmem
        · exact hunit unit c (List.mem_append_left _ hmem)
      | counted unit n whenDone hn hlength =>
        simp only [List.mem_cons, List.not_mem_nil, or_false] at hword
        rcases hword with rfl | rfl | rfl
        · exact hevery c hmem
        · exact forall_digit (P := fun c => c.isAlphanum = true) (by decide) (isDigit_of_mem_ofNat hmem)
        · exact hunit unit c hmem
      | weekday index name whenDone hweekday =>
        simp only [List.mem_cons, List.not_mem_nil, or_false] at hword
        rcases hword with rfl | rfl
        · exact hevery c hmem
        · exact hname _ (List.mem_of_getElem? hweekday) c hmem
    · have hall : ∀ part ∈ ["when".toList, "done".toList], ∀ c ∈ part,
          c.isAlphanum = true := by decide
      unfold ending at hend
      split at hend
      · exact hall part hend c hmem
      · cases hend

/-! ## What a text is read as -/

theorem length_ofNat_count {interval : Interval} {n : Nat} (h : interval.count = .ok n) :
    (ofNat n).length ≤ digitLimit := by
  cases interval with
  | once =>
    obtain rfl : 1 = n := Except.ok.inj h
    decide
  | other =>
    obtain rfl : 2 = n := Except.ok.inj h
    decide
  | counted digits =>
    cases hread : readNat? digits with
    | none => simp [Interval.count, hread] at h
    | some m =>
      obtain rfl : m = n := by simpa [Interval.count, hread] using h
      obtain ⟨hlength, hvalue⟩ := readNat?_eq_some hread
      have hlt : m < 10 ^ digitLimit :=
        hvalue ▸ Nat.lt_of_lt_of_le (digitsValue_lt digits)
          (Nat.pow_le_pow_right (by omega) hlength)
      exact (length_ofNat_le_iff (by decide)).2 hlt

theorem exists_phrase_of_count {interval : Interval} {n : Nat} (hcount : interval.count = .ok n)
    (hpositive : ¬n < 1) (unit : Unit)
    (whenDone : Bool) : ∃ words, IsPhrase words ⟨unit, n, none, whenDone⟩ := by
  by_cases hone : n = 1
  · subst hone
    exact ⟨_, .every unit whenDone⟩
  · exact ⟨_, .counted unit n whenDone (by omega) (length_ofNat_count hcount)⟩

/-- What is read from a text: a rule that has a phrase, or the trimmed text as it stands. -/
theorem isPhrase_of_parse {s : Text} {recurrence : Recurrence}
    (h : parse s = .ok (some recurrence)) :
    (∃ words rule, IsPhrase words rule ∧ recurrence = .rule rule) ∨ recurrence = .phrase (trim s) ∧
      trim s ≠ [] := by
  simp only [parse] at h
  split at h
  · cases h
  · rename_i hne
    have hne : trim s ≠ [] := by simpa using hne
    split at h
    · cases h
      exact .inl ⟨_, _, .every _ _, rfl⟩
    · split at h
      · cases h
        exact .inr ⟨rfl, hne⟩
      · split at h
        · obtain ⟨n, hcount, h⟩ := Result.bind_eq_ok.1 h
          by_cases hzero : n < 1
          · simp only [hzero, if_true] at h
            cases h
            exact .inr ⟨rfl, hne⟩
          · simp only [hzero, if_false] at h
            cases h
            obtain ⟨words, hwords⟩ := exists_phrase_of_count hcount hzero _ _
            exact .inl ⟨words, _, hwords, rfl⟩
        · rename_i hweekday _
          cases h
          obtain ⟨name, hname⟩ := exists_weekday hweekday
          exact .inl ⟨_, _, .weekday _ name _ hname, rfl⟩
        · cases h
          exact .inr ⟨rfl, hne⟩

theorem parse_trim (s : Text) : parse (trim s) = parse s := by
  simp only [parse, trim_trim]

/-- A recurrence that was read from some text is read from its own text. -/
theorem parse_text {s : Text} {recurrence : Recurrence} (h : parse s = .ok (some recurrence)) :
    ∃ t, recurrence.text = .ok t ∧ parse t = .ok (some recurrence) ∧ IsTrimmed t := by
  rcases isPhrase_of_parse h with ⟨words, rule, hphrase, rfl⟩ | ⟨rfl, hne⟩
  · exact ⟨_, hphrase.phrase_eq, parse_phrase hphrase, hphrase.isTrimmed⟩
  · exact ⟨_, rfl, (parse_trim s).trans h, isTrimmed_trim hne⟩

/-! ## Rules and their phrases -/

/-- A rule of a phrase: any number of units from one on, or every week on one of its seven days. -/
structure Rule.IsRegular (rule : Rule) : Prop where
  one_le_interval : 1 ≤ rule.interval
  weekly : ∀ day, rule.weekday = some day → 0 ≤ day ∧ day ≤ 6 ∧
    rule.unit = .week ∧ rule.interval = 1

theorem IsPhrase.isRegular {words : List Text} {rule : Rule} (h : IsPhrase words rule) :
    rule.IsRegular := by
  cases h with
  | every unit whenDone => exact ⟨Int.le_refl 1, by simp⟩
  | counted unit n whenDone hn hlength => exact ⟨by dsimp only; omega, by simp⟩
  | weekday index name whenDone hname =>
    have hindex : index < 7 := (List.getElem?_eq_some_iff.1 hname).1
    refine ⟨Int.le_refl 1, ?_⟩
    rintro day hday
    cases hday
    exact ⟨by omega, by omega, rfl, rfl⟩

theorem Rule.IsRegular.exists_phrase {rule : Rule} (h : rule.IsRegular)
    (hlength : (ofInt rule.interval).length ≤ digitLimit) :
    ∃ words, IsPhrase words rule := by
  obtain ⟨unit, interval, weekday, whenDone⟩ := rule
  obtain ⟨hinterval, hweekly⟩ := h
  cases weekday with
  | some day =>
    obtain ⟨hfirst, hlast, hunit, hone⟩ := hweekly day rfl
    obtain ⟨index, rfl⟩ := Int.eq_ofNat_of_zero_le hfirst
    obtain rfl : unit = .week := hunit
    obtain rfl : interval = 1 := hone
    have hindex : index < weekdays.length := by
      have hcount : weekdays.length = 7 := rfl
      omega
    exact ⟨_, .weekday index _ whenDone (List.getElem?_eq_getElem hindex)⟩
  | none =>
    obtain ⟨n, rfl⟩ := Int.eq_ofNat_of_zero_le (by dsimp only at hinterval; omega : 0 ≤ interval)
    by_cases hone : n = 1
    · subst hone
      exact ⟨_, .every unit whenDone⟩
    · have hn : 2 ≤ n := by
        dsimp only at hinterval
        omega
      exact ⟨_, .counted unit n whenDone hn hlength⟩

theorem phrase_of_parse {s t : Text} (h : parse s = .ok (some (.phrase t))) :
    parse t = .ok (some (.phrase t)) := by
  obtain ⟨words, hwords, hread, -⟩ := parse_text h
  obtain rfl : t = words := Except.ok.inj hwords
  exact hread

/-- Reading a phrase normalises it: a rule that is read is regular and is read again from its own
phrase, a phrase that is kept is kept again, and every regular rule, if its interval can be read,
has a phrase from which it is read. -/
theorem parse_normalises :
    (∀ s rule, parse s = .ok (some (.rule rule)) →
      rule.IsRegular ∧ ∃ t, rule.phrase = .ok t ∧ parse t = .ok (some (.rule rule))) ∧
    (∀ s t, parse s = .ok (some (.phrase t)) → parse t = .ok (some (.phrase t))) ∧
    ∀ rule : Rule, rule.IsRegular → (ofInt rule.interval).length ≤ digitLimit →
      ∃ t, rule.phrase = .ok t ∧ parse t = .ok (some (.rule rule)) := by
  refine ⟨fun s rule h => ?_, fun s t => phrase_of_parse, fun rule hregular hlength => ?_⟩
  · obtain ⟨words, other, hphrase, heq⟩ | ⟨heq, -⟩ := isPhrase_of_parse h
    · cases heq
      exact ⟨hphrase.isRegular, _, hphrase.phrase_eq, parse_phrase hphrase⟩
    · cases heq
  · obtain ⟨words, hphrase⟩ := hregular.exists_phrase hlength
    exact ⟨_, hphrase.phrase_eq, parse_phrase hphrase⟩

theorem parse_normalises_other_weeks :
    parse "eVery other\tWeeks when  done ".toList = .ok (some (.rule ⟨.week, 2, none, true⟩)) ∧
      parse "every 2 weeks when done".toList = .ok (some (.rule ⟨.week, 2, none, true⟩)) ∧
        parse "every other monday".toList = .ok (some (.phrase "every other monday".toList)) ∧
          Rule.IsRegular ⟨.week, 1, some 6, false⟩ ∧
            parse "every sunday".toList = .ok (some (.rule ⟨.week, 1, some 6, false⟩)) := by
  obtain ⟨hrule, hphrase, hregular⟩ := parse_normalises
  have hread : parse "eVery other\tWeeks when  done ".toList =
      .ok (some (.rule ⟨.week, 2, none, true⟩)) := by decide +kernel
  have hkept : parse "  every other monday".toList =
      .ok (some (.phrase "every other monday".toList)) := by decide +kernel
  have hsunday : Rule.IsRegular ⟨.week, 1, some 6, false⟩ := ⟨by decide, by simp⟩
  obtain ⟨-, t, ht, hagain⟩ := hrule _ _ hread
  obtain ⟨u, hu, hagain'⟩ := hregular _ hsunday (by decide)
  obtain rfl : "every 2 weeks when done".toList = t :=
    Except.ok.inj ((by decide +kernel : _ = _).symm.trans ht)
  obtain rfl : "every sunday".toList = u :=
    Except.ok.inj ((by decide +kernel : _ = _).symm.trans hu)
  exact ⟨hread, hagain, hphrase _ _ hkept, hsunday, hagain'⟩

end Checklist.Recurrence
