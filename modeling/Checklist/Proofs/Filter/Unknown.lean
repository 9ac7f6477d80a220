import Checklist.Proofs.Filter.Groups
import Checklist.Proofs.Filter.Verdict
import Checklist.Proofs.Table

/-! # Conditions that a property does not know

A filter whose condition is none of those that its property knows asks for nothing, but some
operands are read all the same. Main statement: such a filter lets a task through unless it compares
a level or a date that the task has with an operand that names none (`passes_of_unknown_iff`). -/

namespace Checklist.Filter
set_option autoImplicit false
open Text

/-! ## The conditions of a property -/

/-- The conditions that the comparison of a property knows; a property that no comparison
knows has none. -/
def knownConditions (property : Text) : List Text :=
  if property = "content".toList ∨ property = "status".toList ∨ property = "filePath".toList then
    TextTest.names.map (·.1)
  else if property = "completed".toList then ["isTrue".toList, "isFalse".toList]
  else match Field.ofName? property with
    | some (.date _) | some .priority =>
      "isEmpty".toList :: "isNotEmpty".toList :: Order.names.map (·.1)
    | some .project | some .context | some .area => TextTest.names.map (·.1)
    | some .tags =>
      ["contains".toList, "doesNotContain".toList, "isEmpty".toList, "isNotEmpty".toList]
    | some .recurrence | none => []

variable {condition : Text} {operand : Option Text}

theorem compareText_of_unknown (h : condition ∉ TextTest.names.map (·.1)) (s : Option Text) :
    compareText s condition operand = true := by
  have hnone : TextTest.names.lookup condition = none := Table.lookup_eq_none_iff.2 h
  rw [compareText, hnone]

theorem compareTags_of_unknown
    (h : condition ∉ ["contains".toList, "doesNotContain".toList, "isEmpty".toList,
      "isNotEmpty".toList])
    (tags : List Text) : compareTags tags condition operand = true := by
  unfold compareTags
  cases hfound : TextTest.names.lookup condition with
  | none => rfl
  | some test =>
    have hmem : (condition, test) ∈ TextTest.names := Table.mem_of_lookup hfound
    simp only [TextTest.names, List.mem_cons, Prod.mk.injEq, List.not_mem_nil, or_false] at hmem
    rcases hmem with ⟨rfl, rfl⟩ | ⟨rfl, rfl⟩ | ⟨rfl, rfl⟩ | ⟨rfl, rfl⟩ | ⟨rfl, rfl⟩ |
      ⟨rfl, rfl⟩ | ⟨rfl, rfl⟩ | ⟨rfl, rfl⟩
    all_goals first | rfl | exact absurd (by decide) h

theorem compareDone_of_unknown (h : condition ∉ ["isTrue".toList, "isFalse".toList]) (done : Bool) :
    compareDone done condition = true := by
  obtain ⟨htrue, hfalse⟩ : condition ≠ "isTrue".toList ∧
    condition ≠ "isFalse".toList := by simpa only [List.mem_pair, not_or] using h
  rw [compareDone, if_neg (by simpa using htrue), if_neg (by simpa using hfalse)]

/-- An unknown condition is not asked, but the operand is read first, and one that means
nothing refuses. -/
theorem compareOrdered_of_unknown {measure : Int → Except Failure Int}
    {target? : Text → Except Failure (Option Int)} {actual : Option Int} {verdict : Bool}
    (h : condition ∉ "isEmpty".toList :: "isNotEmpty".toList :: Order.names.map (·.1))
    (hverdict : compareOrdered measure target? actual condition operand = .ok verdict) :
    verdict = true ↔ ¬∃ value s, actual = some value ∧ comparedWith? condition operand = some s ∧
      target? s = .ok none := by
  simp only [List.mem_cons, not_or] at h
  obtain ⟨hempty, hfull, hunknown⟩ := h
  have hnone : Order.names.lookup condition = none := Table.lookup_eq_none_iff.2 hunknown
  unfold compareOrdered at hverdict
  unfold comparedWith?
  rw [if_neg (by simpa using hempty), if_neg (by simpa using hfull), hnone] at hverdict
  rw [if_neg (by simp only [hempty, hfull, or_self, not_false_eq_true])]
  cases actual with
  | none =>
    cases hverdict
    simp
  | some value =>
    cases hasked : operand.filter (!·.isEmpty) with
    | none =>
      rw [hasked] at hverdict
      cases hverdict
      simp
    | some s =>
      rw [hasked] at hverdict
      obtain ⟨found, hfound, hverdict⟩ := Result.bind_eq_ok.1 hverdict
      cases found with
      | none =>
        cases hverdict
        simp [hfound]
      | some target =>
        obtain ⟨number, -, hverdict⟩ := Result.bind_eq_ok.1 hverdict
        cases hverdict
        simp [hfound]

variable {today : Date} {task : Task} {filter : Filter}

/-- The filter compares a level or a date that the task has with an operand that names none. -/
inductive AsksInVain (today : Date) (task : Task) (filter : Filter) : Prop
  | level {level : Int} {s : Text} (hname : filter.property = Field.priority.name)
      (hlevel : task.metadata.priority = some level)
      (hasked : filter.compared? = some s) (hmeans : Priority.resolve s = .ok none)
  | day {kind : DateField} {timestamp : Int} {s : Text}
      (hname : filter.property = (Field.date kind).name)
      (hdate : task.metadata.dates.get kind = some timestamp) (hasked : filter.compared? = some s)
      (hmeans : DateText.resolve today s = .ok none)

theorem asksInVain_priority_iff (hname : filter.property = Field.priority.name) :
    filter.AsksInVain today task ↔
    ∃ level s, task.metadata.priority = some level ∧ filter.compared? = some s ∧
      Priority.resolve s = .ok none := by
  constructor
  · rintro (⟨-, hlevel, hasked, hmeans⟩ | ⟨hdate, -⟩)
    · exact ⟨_, _, hlevel, hasked, hmeans⟩
    · have hne : Field.priority = .date _ := Field.name_inj (hname.symm.trans hdate)
      cases hne
  · rintro ⟨level, s, hlevel, hasked, hmeans⟩
    exact .level hname hlevel hasked hmeans

theorem asksInVain_date_iff {kind : DateField} (hname : filter.property = (Field.date kind).name) :
    filter.AsksInVain today task ↔
    ∃ timestamp s, task.metadata.dates.get kind = some timestamp ∧ filter.compared? = some s ∧
      DateText.resolve today s = .ok none := by
  constructor
  · rintro (⟨hpriority, -⟩ | ⟨hother, hdate, hasked, hmeans⟩)
    · have hne : Field.date kind = .priority := Field.name_inj (hname.symm.trans hpriority)
      cases hne
    · have heq : Field.date kind = .date _ := Field.name_inj (hname.symm.trans hother)
      cases heq
      exact ⟨_, _, hdate, hasked, hmeans⟩
  · rintro ⟨timestamp, s, hdate, hasked, hmeans⟩
    exact .day hname hdate hasked hmeans

/-- A property that is neither the priority nor a date lets every task through under an
unknown condition. -/
theorem compare_of_unknown {property : Text} (hpriority : property ≠ Field.priority.name)
    (hdate : ∀ kind, property ≠ (Field.date kind).name)
    (hunknown : condition ∉ knownConditions property) :
    compare today task property condition operand = .ok true := by
  have hpriority : Field.ofName? property ≠ some .priority :=
    mt Field.ofName?_eq_some_iff.1 hpriority
  have hdate : ∀ kind, Field.ofName? property ≠ some (.date kind) :=
    fun kind => mt Field.ofName?_eq_some_iff.1 (hdate kind)
  unfold knownConditions at hunknown
  by_cases htext : property = "content".toList ∨ property = "status".toList ∨
    property = "filePath".toList
  · rw [if_pos htext] at hunknown
    rcases htext with rfl | rfl | rfl
    all_goals exact congrArg Except.ok (compareText_of_unknown hunknown _)
  rw [if_neg htext] at hunknown
  by_cases hcompleted : property = "completed".toList
  · subst hcompleted
    rw [if_pos rfl] at hunknown
    exact congrArg Except.ok (compareDone_of_unknown hunknown _)
  rw [if_neg hcompleted] at hunknown
  simp only [not_or] at htext
  obtain ⟨hcontent, hstatus, hpath⟩ := htext
  unfold compare
  simp only [beq_iff_eq, hcontent, hstatus, hpath, hcompleted, if_false]
  cases hfield : Field.ofName? property with
  | none => rfl
  | some field =>
    rw [hfield] at hunknown
    cases field with
    | date kind => exact absurd hfield (hdate kind)
    | priority => exact absurd hfield hpriority
    | tags => exact congrArg Except.ok (compareTags_of_unknown hunknown _)
    | recurrence => rfl
    | project => exact congrArg Except.ok (compareText_of_unknown hunknown _)
    | context => exact congrArg Except.ok (compareText_of_unknown hunknown _)
    | area => exact congrArg Except.ok (compareText_of_unknown hunknown _)

theorem knownConditions_date (kind : DateField) :
    knownConditions (Field.date kind).name = "isEmpty".toList :: "isNotEmpty".toList ::
      Order.names.map (·.1) := by
  cases kind <;> rfl

/-- A filter whose condition its property does not know lets a task through, unless it compares a
level or a date that the task has with an operand that names none. -/
theorem passes_of_unknown_iff {verdict : Bool}
    (hunknown : filter.condition ∉ knownConditions filter.property)
    (h : filter.passes today task = .ok verdict) :
    verdict = true ↔ ¬filter.AsksInVain today task := by
  -- An empty condition is not looked up, and without a condition nothing is compared.
  unfold passes at h
  by_cases hcondition : filter.condition = []
  · have hnone : filter.compared? = none := if_pos hcondition
    rw [if_pos (by simpa using hcondition)] at h
    cases h
    refine iff_of_true rfl ?_
    rintro (⟨-, -, hasked, -⟩ | ⟨-, -, hasked, -⟩)
    all_goals
      rw [hnone] at hasked
      cases hasked
  have hcompared : filter.compared? = comparedWith? filter.condition filter.operand :=
    if_neg hcondition
  rw [if_neg (by simpa using hcondition)] at h
  -- Only the priority and the dates read the operand before the condition.
  by_cases hpriority : filter.property = Field.priority.name
  · rw [asksInVain_priority_iff hpriority, hcompared]
    rw [hpriority] at h hunknown
    have hresolve : ∀ s, (Priority.resolve s).map (·.map Int.ofNat) = .ok none ↔
        Priority.resolve s = .ok none := by
      intro s
      simp [Result.map_eq_ok]
    rw [compareOrdered_of_unknown hunknown h]
    simp only [hresolve]
  by_cases hdate : ∃ kind, filter.property = (Field.date kind).name
  · obtain ⟨kind, hkind⟩ := hdate
    rw [asksInVain_date_iff hkind, hcompared]
    rw [hkind, compare_date] at h
    rw [hkind, knownConditions_date] at hunknown
    rw [compareOrdered_of_unknown hunknown h]
    simp only [dayNumber?_eq_none_iff, DateText.resolve_eq_none_iff]
  · have hother : ∀ kind, filter.property ≠ (Field.date kind).name :=
      fun kind hkind => hdate ⟨kind, hkind⟩
    rw [compare_of_unknown hpriority hother hunknown] at h
    cases h
    refine iff_of_true rfl ?_
    rintro (⟨hname, -⟩ | ⟨hname, -⟩)
    · exact hpriority hname
    · exact hother _ hname

def datedTask (content : Text) (due : Int) : Task :=
  { bareTask content with metadata := { dates := { due := some due } } }

theorem passes_of_unknown_iff_before :
    let before : Filter := ⟨none, "dueDate".toList, "before".toList, some "next week".toList⟩
    before.condition ∉ knownConditions before.property ∧
      before.passes ⟨2024, 3, 13, rfl⟩ (datedTask ['a'] 1710288000000) = .ok true ∧
        ¬before.AsksInVain ⟨2024, 3, 13, rfl⟩ (datedTask ['a'] 1710288000000) := by
  intro before
  have hunknown : before.condition ∉ knownConditions before.property := by decide
  have hpasses : before.passes ⟨2024, 3, 13, rfl⟩ (datedTask ['a'] 1710288000000) =
      .ok true := by decide +kernel
  exact ⟨hunknown, hpasses, (passes_of_unknown_iff hunknown hpasses).1 rfl⟩

/-- A task that is let through whatever day an unknown condition asks for is refused where the
operand is no day. -/
theorem unknown_condition_excludes :
    let note : Note := { path := "n.md".toList, content := "- [ ] a 📅 2024-03-13".toList }
    let before (operand : Text) : Filter := ⟨none, "dueDate".toList, "before".toList, some operand⟩
    (∀ operand, (before operand).condition ∉ knownConditions (before operand).property) ∧
      ∃ task, note.tasks {} ⟨2024, 3, 13, rfl⟩ = .ok [task] ∧
        (before "next week".toList).passes ⟨2024, 3, 13, rfl⟩ task = .ok true ∧
        (before "someday".toList).passes ⟨2024, 3, 13, rfl⟩ task = .ok false := by
  intro note before
  have hunknown : "before".toList ∉ knownConditions "dueDate".toList := by decide
  have hverdicts : ((note.tasks {} ⟨2024, 3, 13, rfl⟩).map (·.map fun task =>
      ((before "next week".toList).passes ⟨2024, 3, 13, rfl⟩ task,
      (before "someday".toList).passes ⟨2024, 3, 13, rfl⟩ task))).toOption =
        some [(.ok true, .ok false)] := by decide +kernel
  obtain ⟨tasks, htasks, hone⟩ := Result.exists_of_map hverdicts
  obtain ⟨task, rfl, htask⟩ := List.map_eq_singleton_iff.1 hone
  obtain ⟨hweek, hsomeday⟩ := Prod.mk.inj htask
  exact ⟨fun operand => hunknown, task, htasks, hweek, hsomeday⟩

end Checklist.Filter
