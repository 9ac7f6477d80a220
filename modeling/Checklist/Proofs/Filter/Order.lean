import Checklist.Proofs.Filter.Verdict
import Checklist.Proofs.Calendar.TimestampText
import Mathlib.Data.Int.Order.Basic

/-! # Comparisons by an order

Levels and days are compared by one linear order of numbers: a level is its own number, and the day
of a timestamp is the number of whole days since 1970. Main statement: the six conditions on the
order go together as they do for numbers, and none of them holds where there is nothing to compare
(`compare_follows_order`). -/

namespace Checklist.Filter
set_option autoImplicit false
open Text

/-! ## Conditions on the order -/

def Order.name : Order → Text
  | .is => "is".toList
  | .isNot => "isNot".toList
  | .above => ['>']
  | .below => ['<']
  | .atLeast => ">=".toList
  | .atMost => "<=".toList

theorem Order.lookup_name (order : Order) : Order.names.lookup order.name = some order := by
  cases order <;> decide

theorem Order.name_ne (order : Order) : order.name ≠ "isEmpty".toList ∧
    order.name ≠ "isNotEmpty".toList := by
  cases order <;> decide

/-- Verdicts under the six conditions that go together: of less, equal and greater exactly one is
true, and they decide the rest. -/
structure IsLinear (verdict : Order → Bool) : Prop where
  one : [verdict .below, verdict .is, verdict .above].count true = 1
  isNot : verdict .isNot = !verdict .is
  atMost : verdict .atMost = (verdict .below || verdict .is)
  atLeast : verdict .atLeast = (verdict .above || verdict .is)

theorem isLinear_holds (a b : Int) : IsLinear fun order => order.holds a b where
  one := by
    rcases Int.lt_trichotomy a b with hlt | rfl | hgt
    · have hne : a ≠ b := by omega
      have hle : a ≤ b := by omega
      simp [Order.holds, hlt, hne, hle]
    · simp [Order.holds]
    · have hne : a ≠ b := by omega
      have hle : b ≤ a := by omega
      simp [Order.holds, hgt, hne, hle]
  isNot := rfl
  atMost := by
    rw [Bool.eq_iff_iff]
    simp only [Order.holds, Bool.or_eq_true, decide_eq_true_eq, beq_iff_eq]
    omega
  atLeast := by
    rw [Bool.eq_iff_iff]
    simp only [Order.holds, Bool.or_eq_true, decide_eq_true_eq, beq_iff_eq]
    omega

theorem Order.holds_add (order : Order) (a b shift : Int) :
    order.holds (a + shift) (b + shift) = order.holds a b := by
  cases order <;> simp [holds, bne]

theorem Order.holds_of_le {order : Order} (h : order = .below ∨ order = .atMost) {a b c : Int}
    (hle : a ≤ b) (hb : order.holds b c = true) :
    order.holds a c = true := by
  rcases h with rfl | rfl
  · simp only [holds, decide_eq_true_eq] at hb ⊢
    omega
  · simp only [holds, decide_eq_true_eq] at hb ⊢
    omega

theorem Order.holds_of_ge {order : Order} (h : order = .above ∨ order = .atLeast) {a b c : Int}
    (hle : b ≤ a) (hb : order.holds b c = true) :
    order.holds a c = true := by
  rcases h with rfl | rfl
  · simp only [holds, decide_eq_true_eq] at hb ⊢
    omega
  · simp only [holds, decide_eq_true_eq] at hb ⊢
    omega

/-! ## Comparing measures -/

/-- What a text means, measured. -/
def measured (measure : Int → Except Failure Int) : Option Int → Except Failure (Option Int)
  | none => .ok none
  | some value => (measure value).map some

variable {measure : Int → Except Failure Int} {target? means? : Text → Except Failure (Option Int)}
  {size : Int → Int} {shift : Int}

/-- Values and what operands mean are measured alike, in order, up to a shift that both have. An
empty text means nothing. -/
structure MeasuresBy (measure : Int → Except Failure Int)
    (target? means? : Text → Except Failure (Option Int)) (size : Int → Int)
    (shift : Int) : Prop where
  mono : ∀ {a b}, a ≤ b → size a ≤ size b
  size_of_measure : ∀ {value number}, measure value = .ok number → number = size value + shift
  target : ∀ s, target? s = means? s >>= measured measure
  empty : means? [] = .ok none

variable {actual : Option Int} {operand : Option Text} {order : Order} {value : Int}
  {s : Text} {verdict : Bool}

theorem compareOrdered_name : compareOrdered measure target? actual order.name operand =
    match actual, operand.filter (!·.isEmpty) with
    | some actual, some operand => do
      match ← target? operand with
      | none => return false
      | some target => (measure actual).map fun number => order.holds number target
    | _, _ => .ok false := by
  obtain ⟨hempty, hfull⟩ := order.name_ne
  unfold compareOrdered
  rw [if_neg (by simpa using hempty), if_neg (by simpa using hfull), order.lookup_name]
  rfl

theorem compareOrdered_of_absent :
    compareOrdered measure target? none order.name operand = .ok false := by
  rw [compareOrdered_name]

theorem compareOrdered_of_unasked (h : operand.filter (!·.isEmpty) = none) :
    compareOrdered measure target? actual order.name operand = .ok false := by
  rw [compareOrdered_name, h]
  cases actual <;> rfl

theorem compareOrdered_asked (hs : s ≠ []) :
    compareOrdered measure target? (some value) order.name (some s) =
    target? s >>= fun
      | none => .ok false
      | some target => (measure value).map fun number => order.holds number target := by
  have hasked : (some s).filter (!·.isEmpty) = some s := by simp [hs]
  rw [compareOrdered_name, hasked]
  rfl

namespace MeasuresBy

variable (h : MeasuresBy measure target? means? size shift)

include h in
theorem compare_of_meaningless (hmeans : means? s = .ok none) :
    compareOrdered measure target? actual order.name (some s) = .ok false := by
  cases actual with
  | none => exact compareOrdered_of_absent
  | some value =>
    by_cases hs : s = []
    · exact compareOrdered_of_unasked (by simp [hs])
    · rw [compareOrdered_asked hs, h.target, hmeans]
      rfl

include h in
theorem compare_eq_ok_iff {target : Int} (hmeans : means? s = .ok (some target)) :
    compareOrdered measure target? (some value) order.name (some s) = .ok verdict ↔
      (∃ number, measure target = .ok number) ∧ (∃ number, measure value = .ok number) ∧
        verdict = order.holds (size value) (size target) := by
  have hs : s ≠ [] := by
    rintro rfl
    rw [h.empty] at hmeans
    cases hmeans
  rw [compareOrdered_asked hs, h.target, hmeans]
  cases htarget : measure target with
  | error failure => simp [measured, htarget, bind, Except.bind, Except.map]
  | ok targetNumber =>
    -- Both sides are off by the same shift, so the numbers stand in the order of the sizes.
    cases hvalue : measure value with
    | error failure => simp [measured, htarget, bind, Except.bind, Except.map]
    | ok number =>
      have hholds := order.holds_add (size value) (size target) shift
      rw [← h.size_of_measure hvalue, ← h.size_of_measure htarget] at hholds
      simp [measured, htarget, bind, Except.bind, Except.map, hholds, eq_comm]

include h in
theorem exists_of_compare
    (htrue : compareOrdered measure target? (some value) order.name operand = .ok true) :
    ∃ s target, operand = some s ∧ means? s = .ok (some target) := by
  cases operand with
  | none =>
    rw [compareOrdered_of_unasked rfl] at htrue
    cases htrue
  | some s =>
    by_cases hs : s = []
    · rw [compareOrdered_of_unasked (by simp [hs])] at htrue
      cases htrue
    · cases hmeans : means? s with
      | error failure =>
        rw [compareOrdered_asked hs, h.target, hmeans] at htrue
        cases htrue
      | ok found =>
        cases found with
        | none =>
          rw [h.compare_of_meaningless hmeans] at htrue
          cases htrue
        | some target => exact ⟨s, target, rfl, hmeans⟩

end MeasuresBy

/-- The laws of comparisons by the six conditions, for values and operands that are measured
by numbers. -/
structure FollowsOrder (compare : Option Int → Text → Option Text → Except Failure Bool)
    (means? : Text → Except Failure (Option Int)) (size : Int → Int) : Prop where
  /-- Where one of the comparisons returns, all do, and only the sizes of the two sides count. -/
  holds : ∀ {value target s verdict} {order : Order}, means? s = .ok (some target) →
    compare (some value) order.name (some s) = .ok verdict →
    ∀ other : Order, compare (some value) other.name (some s) =
      .ok (other.holds (size value) (size target))
  linear : ∀ {value target s} {verdict : Order → Bool}, means? s = .ok (some target) →
    (∀ order, compare (some value) order.name (some s) = .ok (verdict order)) → IsLinear verdict
  below : ∀ {earlier later operand verdict} {order : Order}, order = .below ∨
    order = .atMost → earlier ≤ later →
    compare (some later) order.name operand = .ok true → compare (some earlier) order.name operand =
      .ok verdict → verdict = true
  above : ∀ {earlier later operand verdict} {order : Order}, order = .above ∨
    order = .atLeast → earlier ≤ later →
    compare (some earlier) order.name operand = .ok true → compare (some later) order.name operand =
      .ok verdict → verdict = true
  absent : ∀ {operand} {order : Order}, compare none order.name operand = .ok false
  unasked : ∀ {actual operand} {order : Order}, operand = none ∨ operand = some [] →
    compare actual order.name operand = .ok false
  meaningless : ∀ {actual s} {order : Order}, means? s = .ok none →
    compare actual order.name (some s) = .ok false

theorem MeasuresBy.followsOrder (h : MeasuresBy measure target? means? size shift) :
    FollowsOrder (compareOrdered measure target?) means? size where
  holds := by
    intro value target s verdict order hmeans hcompare other
    obtain ⟨htarget, hvalue, -⟩ := (h.compare_eq_ok_iff hmeans).1 hcompare
    exact (h.compare_eq_ok_iff hmeans).2 ⟨htarget, hvalue, rfl⟩
  linear := by
    intro value target s verdict hmeans hverdict
    have hholds : verdict = fun order => order.holds (size value) (size target) :=
      funext fun order => ((h.compare_eq_ok_iff hmeans).1 (hverdict order)).2.2
    rw [hholds]
    exact isLinear_holds _ _
  below := by
    intro earlier later operand verdict order horder hle htrue hverdict
    obtain ⟨s, target, rfl, hmeans⟩ := h.exists_of_compare htrue
    obtain ⟨-, -, hlater⟩ := (h.compare_eq_ok_iff hmeans).1 htrue
    obtain ⟨-, -, rfl⟩ := (h.compare_eq_ok_iff hmeans).1 hverdict
    exact Order.holds_of_le horder (h.mono hle) hlater.symm
  above := by
    intro earlier later operand verdict order horder hle htrue hverdict
    obtain ⟨s, target, rfl, hmeans⟩ := h.exists_of_compare htrue
    obtain ⟨-, -, hearlier⟩ := (h.compare_eq_ok_iff hmeans).1 htrue
    obtain ⟨-, -, rfl⟩ := (h.compare_eq_ok_iff hmeans).1 hverdict
    exact Order.holds_of_ge horder (h.mono hle) hearlier.symm
  absent := compareOrdered_of_absent
  unasked := by
    intro actual operand order hoperand
    apply compareOrdered_of_unasked
    rcases hoperand with rfl | rfl <;> rfl
  meaningless := h.compare_of_meaningless

/-! ## Days and levels -/

/-- The whole days from the start of 1970 to a timestamp, rounded down. -/
def wholeDays (timestamp : Int) : Int :=
  timestamp.fdiv 86400000

theorem wholeDays_eq (timestamp : Int) : wholeDays timestamp = timestamp / 86400000 :=
  Int.fdiv_eq_ediv_of_nonneg timestamp (by decide)

theorem wholeDays_mono {earlier later : Int} (h : earlier ≤ later) :
    wholeDays earlier ≤ wholeDays later := by
  rw [wholeDays_eq, wholeDays_eq]
  omega

theorem dayNumber_eq {timestamp day : Int} (h : dayNumber timestamp = .ok day) :
    day = wholeDays timestamp + Moment.epochDay := by
  obtain ⟨date, hdate, rfl⟩ := Result.map_eq_ok.1 h
  obtain ⟨moment, hmoment, rfl⟩ := Result.map_eq_ok.1 hdate
  obtain ⟨hfirst, hlast⟩ := Moment.ofTimestamp_isOk_iff.1 ⟨moment, hmoment⟩
  -- A timestamp that has a moment lies on some date, and the number of that date is the quotient.
  unfold Moment.firstSecond Moment.epochDay at hfirst
  unfold Moment.endSecond Moment.epochDay Date.count at hlast
  obtain ⟨number, hnumber⟩ : ∃ number : Nat, (number : Int) = timestamp / 86400000 + 719162 :=
    ⟨(timestamp / 86400000 + 719162).toNat, by omega⟩
  have hlt : number < Date.count := by
    unfold Date.count
    omega
  obtain ⟨date, rfl⟩ := Date.exists_date_of_lt_count hlt
  have hon : Moment.IsOn date timestamp := by
    unfold Moment.IsOn Moment.epochDay
    omega
  obtain ⟨found, rfl, -, -, hfound⟩ := hon.exists_ofTimestamp (by omega)
  obtain rfl : moment = found := Except.ok.inj (hmoment.symm.trans hfound)
  rw [wholeDays_eq, Moment.epochDay]
  exact hnumber

theorem measuresBy_day (today : Date) :
    MeasuresBy dayNumber (dayNumber? today) (DateText.resolve today) wholeDays Moment.epochDay where
  mono := wholeDays_mono
  size_of_measure := dayNumber_eq
  target := by
    intro s
    rw [dayNumber?]
    cases DateText.resolve today s with
    | error failure => rfl
    | ok found => cases found <;> rfl
  empty := rfl

/-- The level that a text names, as a number to compare with. -/
def levelOf? (s : Text) : Except Failure (Option Int) :=
  (Priority.resolve s).map (·.map Int.ofNat)

theorem measuresBy_level : MeasuresBy .ok levelOf? levelOf? (fun level => level) 0 where
  mono := fun h => h
  size_of_measure := by
    intro value number h
    rw [Int.add_zero]
    exact (Except.ok.inj h).symm
  target := by
    intro s
    cases levelOf? s with
    | error failure => rfl
    | ok found => cases found <;> rfl
  empty := rfl

/-- Dates are compared by the order of their days and levels by their own, and where a side is
missing or the operand means nothing, no condition on the order holds. -/
theorem compare_follows_order (today : Date) :
    FollowsOrder (compareDate today) (DateText.resolve today) wholeDays ∧
      FollowsOrder comparePriority levelOf? fun level => level :=
  ⟨(measuresBy_day today).followsOrder, measuresBy_level.followsOrder⟩

/-- The last millisecond before 1970 lies on the day before. -/
example : compareDate ⟨2024, 3, 13, rfl⟩ (some (-1)) ['<'] (some "1970-01-01".toList) =
    .ok true := by decide +kernel

end Checklist.Filter
