import Checklist.View.Select
import Checklist.Proofs.Filter.Groups
import Checklist.Proofs.Filter.Order

/-! # The rules of a view as a filter tree

Rules about the text, the path and dates can be written as a tree with one group for each rule in
force, all of which must accept. Main statement: the rules and the tree accept the same tasks
(`allow_iff_tree_passes`). -/

namespace Checklist.View
set_option autoImplicit false
open Text

variable {today : Date} {rules : Rules} {task : Task}

/-! ## Rules as groups -/

def groupOf (property condition : Text) (operand : Option Text) : Filter.Group :=
  ⟨none, .all, [⟨none, property, condition, operand⟩]⟩

/-- The group that compares a property with the text of a rule, if it is not empty. -/
def givenGroups (property condition : Text) (rule : Option Text) : List Filter.Group :=
  (rule.filter (!·.isEmpty)).toList.map fun s => groupOf property condition (some s)

def pathFilter (part : Text) : Filter :=
  ⟨none, "filePath".toList, "contains".toList, some part⟩

/-- The group for a rule about the path, if it has parts: a filter for each of them. -/
def pathGroups (combinator : Filter.Combinator) (rule : Option Text) : List Filter.Group :=
  match commaParts (rule.getD []) with
  | [] => []
  | parts => [⟨none, combinator, parts.map pathFilter⟩]

/-- The group for a rule about whether there is a date, unless it asks for nothing. -/
def presenceGroups (kind : DateField) (rule : Option Presence) : List Filter.Group :=
  match rule with
  | some .present => [groupOf (Field.date kind).name "isNotEmpty".toList none]
  | some .absent => [groupOf (Field.date kind).name "isEmpty".toList none]
  | some .any | none => []

/-- The rules as a tree: one group for each rule in force, and all of them must accept. -/
def Rules.tree (rules : Rules) : Filter.Tree :=
  ⟨.all, givenGroups "content".toList "contains".toList rules.textContains
    ++ pathGroups .any rules.pathIncludes ++ pathGroups .none rules.pathExcludes
    ++ givenGroups (Field.date .due).name "is".toList rules.due ++
    givenGroups (Field.date .start).name "is".toList rules.start
    ++ givenGroups (Field.date .scheduled).name "is".toList rules.scheduled
    ++ presenceGroups .due rules.hasDue ++ presenceGroups .start rules.hasStart
    ++ presenceGroups .scheduled rules.hasScheduled ++ presenceGroups .completed rules.hasCompleted⟩

/-- Only rules that filters know are in force, and their keywords for dates name days. -/
structure Rules.IsExpressible (today : Date) (rules : Rules) : Prop where
  tagsInclude : rules.tagsInclude = []
  tagsExclude : rules.tagsExclude = []
  project : rules.project.filter (!·.isEmpty) = none
  priority : rules.priority = none
  statusInclude : rules.statusInclude = []
  statusExclude : rules.statusExclude = []
  days : ∀ rule ∈ [rules.due, rules.start, rules.scheduled], ∀ s ∈ rule, s ≠ [] → ∃ day,
    Filter.dayNumber? today s = .ok (some day)

/-! ## One rule and its group -/

/-- The conditions and the groups have the same verdicts on the task, one after the other. -/
def Agree (today : Date) (task : Task) (checks : List Check) (groups : List Filter.Group) : Prop :=
  List.Forall₂ (fun check group => check task = group.passes today task) checks groups

theorem Agree.append {checks others : List Check} {groups more : List Filter.Group}
    (h : Agree today task checks groups)
    (h' : Agree today task others more) : Agree today task (checks ++ others) (groups ++ more) :=
  List.rel_append h h'

theorem passes_groupOf (property condition : Text) (operand : Option Text)
    (hcondition : condition ≠ []) :
    (groupOf property condition operand).passes today task =
      Filter.compare today task property condition operand := by
  have hfilter : Filter.passes today task ⟨none, property, condition, operand⟩ =
      Filter.compare today task property condition operand := by
    simp [Filter.passes, hcondition]
  rw [Filter.Group.passes, groupOf]
  simp only [List.isEmpty_cons, Bool.false_eq_true, if_false, List.mapM_cons, List.mapM_nil, hfilter]
  cases Filter.compare today task property condition operand with
  | error failure => rfl
  | ok verdict => simp [pure, Except.pure, Except.map, bind, Except.bind, Filter.Combinator.combine]

theorem agree_text (rule : Option Text) :
    Agree today task (ifGiven rule fun s task => occursIn (lower s) (lower task.content))
      (givenGroups "content".toList "contains".toList rule) := by
  unfold ifGiven givenGroups
  cases rule.filter (!·.isEmpty) with
  | none => exact .nil
  | some s =>
    refine .cons ?_ .nil
    rw [passes_groupOf _ _ _ (by decide)]
    rfl

theorem passes_paths (combinator : Filter.Combinator) {parts : List Text} (h : parts ≠ []) :
    Filter.Group.passes today task ⟨none, combinator, parts.map pathFilter⟩ =
      .ok (combinator.combine (parts.map fun part => occursIn (lower part) (lower task.path))) := by
  have hsome : (parts.map pathFilter).isEmpty = false := by simpa using h
  have hverdicts : (parts.map pathFilter).mapM (Filter.passes today task) =
      .ok (parts.map fun part => occursIn (lower part) (lower task.path)) := by
    rw [Result.mapM_eq_ok, List.forall₂_map_left_iff, List.forall₂_map_right_iff, List.forall₂_same]
    intro part _
    rfl
  rw [Filter.Group.passes, hsome, if_neg Bool.false_ne_true, hverdicts]
  rfl

theorem agree_paths {combinator : Filter.Combinator} {check : List Text → Task → Bool}
    (hcheck : ∀ parts, check parts task =
      combinator.combine (parts.map fun part => occursIn (lower part) (lower task.path)))
    (rule : Option Text) :
    Agree today task (ifAny (commaParts (rule.getD [])) check) (pathGroups combinator rule) := by
  unfold ifAny pathGroups
  cases hparts : commaParts (rule.getD []) with
  | nil => exact .nil
  | cons part parts =>
    refine .cons ?_ .nil
    rw [passes_paths combinator (List.cons_ne_nil part parts), ← hcheck]
    rfl

theorem compare_is {kind : DateField} {s : Text} {day : Int} (hs : s ≠ [])
    (hday : Filter.dayNumber? today s = .ok (some day)) :
    Filter.compare today task (Field.date kind).name "is".toList (some s) =
      onDay kind day task := by
  rw [Filter.compare_date, onDay]
  change Filter.compareOrdered _ _ _ Filter.Order.is.name _ = _
  cases task.metadata.dates.get kind with
  | none => exact Filter.compareOrdered_of_absent
  | some timestamp =>
    rw [Filter.compareOrdered_asked hs, hday]
    rfl

theorem agree_days (kind : DateField) {rule : Option Text}
    (hday : ∀ s ∈ rule, s ≠ [] → ∃ day, Filter.dayNumber? today s = .ok (some day)) :
    ∃ checks, dayChecks today kind rule = .ok checks ∧
      Agree today task checks (givenGroups (Field.date kind).name "is".toList rule) := by
  unfold dayChecks givenGroups
  cases hrule : rule.filter (!·.isEmpty) with
  | none => exact ⟨[], rfl, .nil⟩
  | some s =>
    obtain ⟨hmem, hne⟩ := Option.filter_eq_some_iff.1 hrule
    have hs : s ≠ [] := by simpa using hne
    obtain ⟨day, hnumber⟩ := hday s hmem hs
    refine ⟨[onDay kind day], by simp [hnumber, Except.map], .cons ?_ .nil⟩
    rw [passes_groupOf _ _ _ (by decide), compare_is hs hnumber]

theorem agree_presence (kind : DateField) (rule : Option Presence) :
    Agree today task (presenceChecks kind rule) (presenceGroups kind rule) := by
  cases rule with
  | none => exact .nil
  | some presence =>
    cases presence with
    | any => exact .nil
    | present =>
      refine .cons ?_ .nil
      rw [passes_groupOf _ _ _ (by decide), Filter.compare_date]
      rfl
    | absent =>
      refine .cons ?_ .nil
      rw [passes_groupOf _ _ _ (by decide), Filter.compare_date]
      rfl

/-! ## All rules and their tree -/

theorem agree_checks (h : rules.IsExpressible today) : ∃ checks, rules.checks today = .ok checks ∧
    Agree today task checks rules.tree.groups := by
  obtain ⟨due, hdue, hagreeDue⟩ := @agree_days today task .due rules.due (h.days _ (by simp))
  obtain ⟨start, hstart, hagreeStart⟩ :=
    @agree_days today task .start rules.start (h.days _ (by simp))
  obtain ⟨scheduled, hscheduled, hagreeScheduled⟩ :=
    @agree_days today task .scheduled rules.scheduled (h.days _ (by simp))
  have hincludes : ∀ parts, pathHas parts task = Filter.Combinator.any.combine
      (parts.map fun part => occursIn (lower part) (lower task.path)) := by
    intro parts
    simp [pathHas, Filter.Combinator.combine]
  have hexcludes : ∀ parts, (!pathHas parts task) =
      Filter.Combinator.none.combine
          (parts.map fun part => occursIn (lower part) (lower task.path)) := by
    intro parts
    rw [hincludes, Filter.combine_none]
  have hnone : ∀ check, ifAny [] check = [] := fun check => rfl
  have hproject : ∀ check, ifGiven rules.project check = [] := by
    intro check
    rw [ifGiven, h.project]
    rfl
  refine ⟨_, by rw [Rules.checks, hdue, hstart, hscheduled]; rfl, ?_⟩
  rw [h.tagsInclude, h.tagsExclude, h.priority, h.statusInclude, h.statusExclude]
  simp only [hnone, hproject, Option.toList_none, List.map_nil, List.append_nil]
  have hexcluded :=
    @agree_paths today task .none
      (fun parts task => !pathHas parts task) hexcludes rules.pathExcludes
  have hpaths :=
    ((agree_text rules.textContains).append (agree_paths hincludes rules.pathIncludes)).append
      hexcluded
  have hdays := ((hpaths.append hagreeDue).append hagreeStart).append hagreeScheduled
  exact (((hdays.append (agree_presence .due rules.hasDue)).append
    (agree_presence .start rules.hasStart)).append
    (agree_presence .scheduled rules.hasScheduled)).append
    (agree_presence .completed rules.hasCompleted)

theorem Agree.meets_eq {checks : List Check} {groups : List Filter.Group}
    (h : Agree today task checks groups) :
    meets checks task = groups.allM (Filter.Group.passes today task) := by
  induction h with
  | nil => rfl
  | cons hcheck _ ih =>
    rw [meets, List.allM_cons, List.allM_cons, hcheck]
    exact congrArg _ (funext fun verdict => by cases verdict; rfl; exact ih)

theorem passes_all (groups : List Filter.Group) :
    Filter.Tree.passes today task ⟨.all, groups⟩ =
      (groups.mapM (Filter.Group.passes today task)).map (·.all id) := by
  cases groups <;> rfl

/-- Rules that filters can express accept a task exactly if their tree does. Where the tree, which
asks everything, has a verdict, the rules have the same one. -/
theorem allow_iff_tree_passes (h : rules.IsExpressible today) :
    (rules.allow today task = .ok true ↔ rules.tree.passes today task = .ok true) ∧
      ∀ verdict, rules.tree.passes today task = .ok verdict →
        rules.allow today task = .ok verdict := by
  obtain ⟨checks, hchecks, hagree⟩ := @agree_checks today rules task h
  have hallow : rules.allow today task =
      rules.tree.groups.allM (Filter.Group.passes today task) := by
    rw [← hagree.meets_eq, Rules.allow, hchecks]
    rfl
  have hverdict : ∀ verdict, rules.tree.passes today task = .ok verdict →
      rules.allow today task = .ok verdict := by
    intro verdict hpasses
    obtain ⟨verdicts, hverdicts, rfl⟩ :=
      Result.map_eq_ok.1 ((passes_all rules.tree.groups).symm.trans hpasses)
    rw [hallow, Result.allM_of_mapM hverdicts]
  refine ⟨⟨fun haccepted => ?_, hverdict true⟩, hverdict⟩
  -- Nothing is skipped where every condition holds, so the tree can answer as well.
  rw [hallow, Result.allM_eq_true_iff] at haccepted
  obtain ⟨verdicts, hverdicts⟩ := Result.mapM_isOk_iff.2 fun group hmem =>
    ⟨true, haccepted group hmem⟩
  have hpasses : rules.tree.passes today task = .ok (verdicts.all id) := by
    refine (passes_all rules.tree.groups).trans ?_
    rw [hverdicts]
    rfl
  rw [hpasses, ← Result.allM_of_mapM hverdicts, Result.allM_eq_true_iff]
  exact haccepted

def errandRules : Rules :=
  { textContains := some "MILK".toList, pathIncludes := some " home/ ,, Work".toList,
    pathExcludes := some "old".toList
    due := some "Tomorrow".toList, start := some "2024-03-13".toList, hasDue := some .present,
    hasScheduled := some .absent, hasCompleted := some .any }

theorem isExpressible_errandRules : errandRules.IsExpressible ⟨2024, 3, 13, rfl⟩ where
  tagsInclude := rfl
  tagsExclude := rfl
  project := rfl
  priority := rfl
  statusInclude := rfl
  statusExclude := rfl
  days := by
    have htomorrow : Filter.dayNumber? ⟨2024, 3, 13, rfl⟩ "Tomorrow".toList =
        .ok (some 738958) := by decide +kernel
    have htoday : Filter.dayNumber? ⟨2024, 3, 13, rfl⟩ "2024-03-13".toList =
        .ok (some 738957) := by decide +kernel
    intro rule hrule s hs _
    simp only [errandRules, List.mem_cons, List.not_mem_nil, or_false] at hrule
    rcases hrule with rfl | rfl | rfl
    · obtain rfl := Option.some.inj hs
      exact ⟨_, htomorrow⟩
    · obtain rfl := Option.some.inj hs
      exact ⟨_, htoday⟩
    · cases hs

/-- An errand with two dates, which starts late on a day. -/
def errand (path : Text) : Task :=
  { Filter.bareTask "Buy milk".toList with
    path := path,
    metadata := { dates := { due := some 1710374400000, start := some 1710374399999 } } }

theorem allow_iff_tree_passes_errand :
    errandRules.IsExpressible ⟨2024, 3, 13, rfl⟩ ∧
      errandRules.tree.groups.length = 7 ∧
      errandRules.allow ⟨2024, 3, 13, rfl⟩ (errand "Home/shop.md".toList) = .ok true ∧
      errandRules.allow ⟨2024, 3, 13, rfl⟩ (errand "Home/OLD.md".toList) = .ok false := by
  have haccepted : errandRules.tree.passes ⟨2024, 3, 13, rfl⟩ (errand "Home/shop.md".toList) =
      .ok true := by decide +kernel
  have hrefused : errandRules.tree.passes ⟨2024, 3, 13, rfl⟩ (errand "Home/OLD.md".toList) =
      .ok false := by decide +kernel
  refine ⟨isExpressible_errandRules, by decide +kernel, ?_, ?_⟩
  · exact (allow_iff_tree_passes isExpressible_errandRules).1.2 haccepted
  · exact (allow_iff_tree_passes isExpressible_errandRules).2 false hrefused

end Checklist.View
