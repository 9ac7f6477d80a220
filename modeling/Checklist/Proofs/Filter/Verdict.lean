import Checklist.Filter.Tree
import Checklist.Proofs.Value.Suits

/-! # When a tree has a verdict

A filter compares values only where it has an operand and the task has the property, and then the
operand and the property must stand for a level or a day. Every filter of a tree is asked, also
where the others decide. Main statement: a tree has a verdict on a task exactly if every filter can
be answered for it (`passes_isOk_iff`). -/

namespace Checklist
set_option autoImplicit false
open Text

/-! ## Days of timestamps -/

namespace DateText

/-- The text is a date: a keyword or the literal of a moment. -/
def IsDate (s : Text) : Prop :=
  keyword? (trim s) ≠ none ∨ moment? (trim s) ≠ none

theorem resolve_eq_none_iff {today : Date} {s : Text} : resolve today s = .ok none ↔ ¬IsDate s := by
  unfold resolve IsDate
  rw [Result.bind_eq_ok]
  constructor
  · rintro ⟨found, hfound, h⟩
    cases found with
    | some timestamp => cases h
    | none =>
      have h : literal (trim s) = .ok none := h
      unfold literal at h
      rw [relative_eq_none_iff.1 hfound]
      cases hmoment : moment? (trim s) with
      | none => simp
      | some moment =>
        rw [hmoment] at h
        obtain ⟨timestamp, -, h⟩ := Result.map_eq_ok.1 h
        cases h
  · intro h
    obtain ⟨hkeyword, hmoment⟩ : keyword? (trim s) = none ∧
      moment? (trim s) = none := by simpa using h
    exact ⟨none, relative_eq_none_iff.2 hkeyword, by simp [literal, hmoment]⟩

theorem isOnCalendar_of_resolve {today : Date} {s : Text} {timestamp : Int}
    (h : resolve today s = .ok (some timestamp)) :
    Moment.IsOnCalendar timestamp := by
  obtain ⟨moment, hwhole, hfirst, rfl⟩ := exists_moment_of_resolve h
  exact Moment.ofTimestamp_isOk_iff.1 ⟨moment, Moment.ofTimestamp_seconds hwhole hfirst⟩

end DateText

theorem Field.name_inj {field other : Field} (h : field.name = other.name) : field = other := by
  have hfield := Field.ofName?_name field
  rw [h, Field.ofName?_name] at hfield
  exact (Option.some.inj hfield).symm

namespace Filter

theorem dayNumber_isOk_iff {timestamp : Int} : (∃ day, dayNumber timestamp = .ok day) ↔
    Moment.IsOnCalendar timestamp := by
  unfold dayNumber DateText.dayOf
  rw [Result.map_isOk_iff, Result.map_isOk_iff, Moment.ofTimestamp_isOk_iff]

/-- The day of a date that is read can be told, so reading the day fails only where reading
the date does. -/
theorem dayNumber?_isOk_iff {today : Date} {s : Text} : (∃ day, dayNumber? today s = .ok day) ↔
    DateText.HasTimestamp today s := by
  unfold dayNumber?
  rw [Result.bind_isOk_iff, ← DateText.resolve_isOk_iff]
  refine exists_congr fun found => and_iff_left_of_imp fun hfound => ?_
  cases found with
  | none => exact ⟨none, rfl⟩
  | some timestamp =>
    exact Result.bind_isOk_iff.2
      ((dayNumber_isOk_iff.2 (DateText.isOnCalendar_of_resolve hfound)).imp fun day hday =>
        ⟨hday, _, rfl⟩)

theorem dayNumber?_eq_none_iff {today : Date} {s : Text} : dayNumber? today s = .ok none ↔
    ¬DateText.IsDate s := by
  unfold dayNumber?
  rw [Result.bind_eq_ok, ← @DateText.resolve_eq_none_iff today]
  constructor
  · rintro ⟨found, hfound, h⟩
    cases found with
    | none => exact hfound
    | some timestamp =>
      obtain ⟨day, -, h⟩ := Result.bind_eq_ok.1 h
      cases h
  · intro h
    exact ⟨none, h, rfl⟩

/-! ## Comparisons -/

/-- The operand that a condition compares with: none for the two conditions that ask only whether
there is a value. -/
def comparedWith? (condition : Text) (operand : Option Text) : Option Text :=
  if condition = "isEmpty".toList ∨ condition = "isNotEmpty".toList then
    none else operand.filter (!·.isEmpty)

/-- A comparison has a verdict if the operand can be read and, unless it means nothing, the value
can be measured. -/
theorem compareOrdered_isOk_iff {measure : Int → Except Failure Int}
    {target? : Text → Except Failure (Option Int)} {actual : Option Int}
    {condition : Text} {operand : Option Text} :
    (∃ verdict, compareOrdered measure target? actual condition operand = .ok verdict) ↔
      ∀ value s, actual = some value → comparedWith? condition operand = some s →
        (∃ target, target? s = .ok target) ∧
          (target? s ≠ .ok none → ∃ number, measure value = .ok number) := by
  unfold compareOrdered comparedWith?
  by_cases hempty : condition = "isEmpty".toList
  · simp [hempty]
  by_cases hfull : condition = "isNotEmpty".toList
  · simp [hfull]
  simp only [beq_iff_eq, hempty, hfull, if_false, or_self]
  cases actual with
  | none => simp
  | some value =>
    cases operand.filter (!·.isEmpty) with
    | none => simp
    | some s =>
      rw [Result.bind_isOk_iff]
      constructor
      · rintro ⟨target, htarget, hrest⟩ _ _ ⟨⟩ ⟨⟩
        refine ⟨⟨target, htarget⟩, fun hmeans => ?_⟩
        cases target with
        | none => exact absurd htarget hmeans
        | some target =>
          obtain ⟨number, hnumber, -⟩ := Result.bind_isOk_iff.1 hrest
          exact ⟨number, hnumber⟩
      · intro h
        obtain ⟨⟨target, htarget⟩, hmeasure⟩ := h value s rfl rfl
        refine ⟨target, htarget, ?_⟩
        cases target with
        | none => exact ⟨false, rfl⟩
        | some target =>
          obtain ⟨number, hnumber⟩ := hmeasure (by simp [htarget])
          exact Result.bind_isOk_iff.2 ⟨number, hnumber, _, rfl⟩

theorem comparePriority_isOk_iff {level : Option Int} {condition : Text} {operand : Option Text} :
    (∃ verdict, comparePriority level condition operand = .ok verdict) ↔
      ∀ value s, level = some value → comparedWith? condition operand = some s →
        ¬IsUnreadable (lower (Priority.plain (trim s))) := by
  unfold comparePriority
  rw [compareOrdered_isOk_iff]
  simp only [Result.map_isOk_iff, Priority.resolve_isOk_iff]
  exact forall₄_congr fun value s _ _ => and_iff_left fun _ => ⟨value, rfl⟩

theorem compareDate_isOk_iff {today : Date} {timestamp : Option Int} {condition : Text}
    {operand : Option Text} :
    (∃ verdict, compareDate today timestamp condition operand = .ok verdict) ↔
      ∀ moment s, timestamp = some moment → comparedWith? condition operand = some s →
        DateText.HasTimestamp today s ∧ (DateText.IsDate s → Moment.IsOnCalendar moment) := by
  unfold compareDate
  rw [compareOrdered_isOk_iff]
  simp only [dayNumber?_isOk_iff, dayNumber_isOk_iff, ne_eq, dayNumber?_eq_none_iff, not_not]

/-! ## Filters -/

variable {today : Date} {task : Task} {filter : Filter}

/-- The operand that the filter compares the property with, if it compares at all. -/
def compared? (filter : Filter) : Option Text :=
  if filter.condition = [] then none else comparedWith? filter.condition filter.operand

/-- What the filter compares stands for a level or a day: an operand for the priority is no run of
digits that names no number, and an operand for a date names no day without a timestamp, and a day
only where the task's date lies on one. -/
structure IsAnswerable (today : Date) (task : Task) (filter : Filter) : Prop where
  level : ∀ level s, filter.property = Field.priority.name → task.metadata.priority = some level →
    filter.compared? = some s →
    ¬IsUnreadable (lower (Priority.plain (trim s)))
  day : ∀ kind timestamp s, filter.property = (Field.date kind).name →
    task.metadata.dates.get kind = some timestamp →
    filter.compared? = some s → DateText.HasTimestamp today s ∧
      (DateText.IsDate s → Moment.IsOnCalendar timestamp)

theorem isAnswerable_priority_iff (hname : filter.property = Field.priority.name) :
    filter.IsAnswerable today task ↔
    ∀ level s, task.metadata.priority = some level → filter.compared? = some s →
      ¬IsUnreadable (lower (Priority.plain (trim s))) := by
  refine ⟨fun h level s => h.level level s hname,
    fun h => ⟨fun level s _ => h level s, fun kind timestamp s hdate => ?_⟩⟩
  have hne : Field.priority = .date kind := Field.name_inj (hname.symm.trans hdate)
  cases hne

theorem isAnswerable_date_iff {kind : DateField}
    (hname : filter.property = (Field.date kind).name) : filter.IsAnswerable today task ↔
    ∀ timestamp s, task.metadata.dates.get kind = some timestamp → filter.compared? = some s →
      DateText.HasTimestamp today s ∧ (DateText.IsDate s → Moment.IsOnCalendar timestamp) := by
  refine ⟨fun h timestamp s => h.day kind timestamp s hname,
    fun h => ⟨fun level s hpriority => ?_, fun other timestamp s hother => ?_⟩⟩
  · have hne : Field.date kind = .priority := Field.name_inj (hname.symm.trans hpriority)
    cases hne
  · have heq : Field.date kind = .date other := Field.name_inj (hname.symm.trans hother)
    cases heq
    exact h timestamp s

theorem compare_date (kind : DateField) (condition : Text) (operand : Option Text) :
    compare today task (Field.date kind).name condition operand =
      compareDate today (task.metadata.dates.get kind) condition operand := by
  cases kind <;> rfl

theorem exists_compare {property condition : Text} {operand : Option Text}
    (hpriority : property ≠ Field.priority.name)
    (hdate : ∀ kind, property ≠ (Field.date kind).name) :
    ∃ verdict, compare today task property condition operand = .ok verdict := by
  have hpriority : Field.ofName? property ≠ some .priority :=
    mt Field.ofName?_eq_some_iff.1 hpriority
  have hdate : ∀ kind, Field.ofName? property ≠ some (.date kind) :=
    fun kind => mt Field.ofName?_eq_some_iff.1 (hdate kind)
  unfold compare
  split
  · exact ⟨_, rfl⟩
  split
  · exact ⟨_, rfl⟩
  split
  · exact ⟨_, rfl⟩
  split
  · exact ⟨_, rfl⟩
  cases hfield : Field.ofName? property with
  | none => exact ⟨_, rfl⟩
  | some field =>
    cases field with
    | date kind => exact absurd hfield (hdate kind)
    | priority => exact absurd hfield hpriority
    | _ => exact ⟨_, rfl⟩

theorem compare_isOk_iff (hcondition : filter.condition ≠ []) :
    (∃ verdict, compare today task filter.property filter.condition filter.operand = .ok verdict) ↔
      filter.IsAnswerable today task := by
  have hcompared : filter.compared? = comparedWith? filter.condition filter.operand :=
    if_neg hcondition
  by_cases hpriority : filter.property = Field.priority.name
  · have hcompare : compare today task Field.priority.name filter.condition filter.operand =
        comparePriority task.metadata.priority filter.condition filter.operand := rfl
    rw [isAnswerable_priority_iff hpriority, hpriority, hcompare, comparePriority_isOk_iff, hcompared]
  by_cases hdate : ∃ kind, filter.property = (Field.date kind).name
  · obtain ⟨kind, hkind⟩ := hdate
    rw [isAnswerable_date_iff hkind, hkind, compare_date, compareDate_isOk_iff, hcompared]
  · have hother : ∀ kind, filter.property ≠ (Field.date kind).name :=
      fun kind hname => hdate ⟨kind, hname⟩
    exact iff_of_true (exists_compare hpriority hother)
      ⟨fun level s hname => absurd hname hpriority, fun kind timestamp s hname =>
        absurd hname (hother kind)⟩

theorem passes_isOk_iff_isAnswerable : (∃ verdict, filter.passes today task = .ok verdict) ↔
    filter.IsAnswerable today task := by
  unfold passes
  by_cases hcondition : filter.condition = []
  · have hnone : filter.compared? = none := if_pos hcondition
    exact iff_of_true ⟨true, by simp [hcondition]⟩ ⟨by simp [hnone], by simp [hnone]⟩
  · rw [if_neg (by simpa using hcondition), compare_isOk_iff hcondition]

/-! ## Trees -/

theorem Group.passes_isOk_iff_forall {group : Group} :
    (∃ verdict, group.passes today task = .ok verdict) ↔ ∀ filter ∈ group.filters,
      filter.IsAnswerable today task := by
  unfold Group.passes
  by_cases hnone : group.filters = []
  · simp [hnone]
  · have hsome : group.filters.isEmpty = false := by simpa using hnone
    rw [hsome, if_neg Bool.false_ne_true, Result.map_isOk_iff, Result.mapM_isOk_iff]
    simp only [passes_isOk_iff_isAnswerable]

/-- A tree has a verdict on a task exactly if every filter in it can be answered for the task. -/
theorem Tree.passes_isOk_iff {tree : Tree} :
    (∃ verdict, tree.passes today task = .ok verdict) ↔ ∀ group ∈ tree.groups,
      ∀ filter ∈ group.filters, filter.IsAnswerable today task := by
  unfold Tree.passes
  by_cases hnone : tree.groups = []
  · simp [hnone]
  · have hsome : tree.groups.isEmpty = false := by simpa using hnone
    rw [hsome, if_neg Bool.false_ne_true, Result.map_isOk_iff, Result.mapM_isOk_iff]
    simp only [Group.passes_isOk_iff_forall]

/-- An operand of one digit that is no decimal digit keeps a tree from having a verdict on a task
with a level. -/
theorem no_verdict_with_superscript_operand :
    let note : Note := { path := "n.md".toList, content := "- [ ] a 🔺".toList }
    let data : Value :=
      .map [(.str "filterGroups".toList, .list [.map [(.str "filters".toList, .list [.map [
      (.str "property".toList, .str "priority".toList), (.str "condition".toList, .str "is".toList),
      (.str "value".toList, .str "²".toList)]])]])]
    ∃ task tree, note.tasks {} ⟨2024, 3, 13, rfl⟩ = .ok [task] ∧ Tree.schema data = .ok tree ∧
      ¬∃ verdict, tree.passes ⟨2024, 3, 13, rfl⟩ task = .ok verdict := by
  intro note data
  let tree : Tree :=
    ⟨.any, [⟨none, .all, [⟨none, "priority".toList, "is".toList, some "²".toList⟩]⟩]⟩
  have hverdicts :
      ((note.tasks {} ⟨2024, 3, 13, rfl⟩).map
        (·.map fun task => (tree.passes ⟨2024, 3, 13, rfl⟩ task).toOption)).toOption =
      some [none] := by decide +kernel
  obtain ⟨tasks, htasks, hnone⟩ := Result.exists_of_map hverdicts
  obtain ⟨task, rfl, htask⟩ := List.map_eq_singleton_iff.1 hnone
  refine ⟨task, tree, htasks, rfl, ?_⟩
  rintro ⟨verdict, hverdict⟩
  rw [hverdict] at htask
  cases htask

end Filter
end Checklist
