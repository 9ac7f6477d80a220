import Checklist.View.Select
import Checklist.Proofs.Filter.Groups
import Mathlib.Tactic.MkIffOfInductiveProp

/-! # What a view selects

A task is selected if it passes every stage, whether the stages are asked one after the other or all
at once. Main statement: a selection keeps the tasks that pass every stage in their order, leaves
its result as it is, goes through a list piece by piece, and loses nothing when a stage is left out
(`select_conjoins`). -/

namespace Checklist.View
set_option autoImplicit false
open Text

variable {today : Date} {view : View} {tree : Option Filter.Tree} {query : Text}
  {tasks kept : List Task}

/-- The task passes every stage: the view does not hide it, the rules and a tree with groups let it
through, and a query that is not empty occurs in it. -/
@[mk_iff]
structure Selects (today : Date) (view : View) (tree : Option Filter.Tree) (query : Text)
    (task : Task) : Prop where
  shown : view.shows task = true
  allowed : view.rules.allow today task = .ok true
  passed : ∀ state ∈ tree, state.groups ≠ [] → state.passes today task = .ok true
  found : query ≠ [] → matchesText query task = true

instance (task : Task) : Decidable (Selects today view tree query task) :=
  decidable_of_iff' _ (selects_iff today view tree query task)

theorem passes_of_no_groups {state : Filter.Tree} (h : state.groups = []) (task : Task) :
    state.passes today task = .ok true := by
  simp [Filter.Tree.passes, h]

/-- Every stage that the task reaches has a verdict on it. -/
structure IsDecided (today : Date) (view : View) (tree : Option Filter.Tree)
    (task : Task) : Prop where
  rules : view.shows task = true → ∃ verdict, view.rules.allow today task = .ok verdict
  tree : view.shows task = true → view.rules.allow today task = .ok true → ∀ state ∈ tree,
    ∃ verdict, state.passes today task = .ok verdict

theorem allow_eq_meets {rules : Rules} {checks : List Check} (h : rules.checks today = .ok checks) :
    rules.allow today = meets checks := by
  funext task
  rw [Rules.allow, h]
  rfl

theorem shown_eq_ok_iff {shown : List Task} :
    (tasks.filterM fun task => if view.shows task then view.rules.allow today task else .ok false) =
      .ok shown ↔
      (∀ task ∈ tasks, view.shows task = true → ∃ verdict, view.rules.allow today task = .ok verdict) ∧
        shown = tasks.filter fun task => view.shows task = true ∧
          view.rules.allow today task = .ok true := by
  rw [Result.filterM_eq_ok]
  refine and_congr (forall₂_congr fun task _ => ?_)
    (Eq.congr_right (List.filter_congr fun task _ => ?_))
  · cases view.shows task <;> simp
  · cases view.shows task <;> simp

/-- The tasks that a tree lets through, all of them if there is none. -/
def through (today : Date) (tree : Option Filter.Tree) (shown : List Task) :
    Except Failure (List Task) :=
  match tree with
  | none => .ok shown
  | some state => shown.filterM (state.passes today)

theorem through_eq_ok_iff {shown passed : List Task} : through today tree shown = .ok passed ↔
    (∀ task ∈ shown, ∀ state ∈ tree, ∃ verdict, state.passes today task = .ok verdict) ∧
      passed = shown.filter fun task => ∀ state ∈ tree, state.passes today task = .ok true := by
  cases tree with
  | none => simp [through, eq_comm]
  | some state => simp [through, Result.filterM_eq_ok]

theorem found_eq (passed : List Task) :
    (if query.isEmpty then passed else passed.filter (matchesText query)) =
      passed.filter fun task => query ≠ [] → matchesText query task = true := by
  cases query <;> simp

theorem filter_selects (tasks : List Task) :
    (tasks.filter fun task => Selects today view tree query task) =
      ((tasks.filter fun task =>
          view.shows task = true ∧ view.rules.allow today task = .ok true).filter fun task =>
        ∀ state ∈ tree, state.passes today task = .ok true).filter fun task =>
      query ≠ [] → matchesText query task = true := by
  -- A tree without groups lets everything through, so nothing is lost by asking it as well.
  have hpassed : ∀ task, (∀ state ∈ tree, state.groups ≠ [] → state.passes today task = .ok true) ↔
      ∀ state ∈ tree, state.passes today task = .ok true := by
    intro task
    refine forall₂_congr fun state _ => ⟨fun h => ?_, fun h _ => h⟩
    by_cases hnone : state.groups = []
    · exact passes_of_no_groups hnone task
    · exact h hnone
  rw [List.filter_filter, List.filter_filter]
  apply List.filter_congr
  intro task _
  rw [← Bool.decide_and, ← Bool.decide_and, decide_eq_decide, selects_iff, hpassed]
  tauto

theorem select_eq : select today view tree query tasks = do
    let _ ← view.rules.checks today
    let shown ← tasks.filterM fun task =>
      if view.shows task then view.rules.allow today task else .ok false
    let passed ← through today tree shown
    return if query.isEmpty then passed else passed.filter (matchesText query) := by
  rw [select]
  cases hchecks : view.rules.checks today with
  | error failure => rfl
  | ok checks =>
    rw [allow_eq_meets hchecks]
    cases tree <;> rfl

/-- A selection has a result if the rules can be read and every task is decided, and keeps the tasks
that pass every stage. -/
theorem select_eq_ok_iff : select today view tree query tasks = .ok kept ↔
    (∃ checks, view.rules.checks today = .ok checks) ∧
      (∀ task ∈ tasks, IsDecided today view tree task) ∧
      kept = tasks.filter fun task => Selects today view tree query task := by
  rw [select_eq, filter_selects, ← found_eq]
  constructor
  · intro h
    obtain ⟨checks, hchecks, h⟩ := Result.bind_eq_ok.1 h
    obtain ⟨shown, hshown, h⟩ := Result.bind_eq_ok.1 h
    obtain ⟨passed, hpassed, h⟩ := Result.bind_eq_ok.1 h
    obtain ⟨hrules, rfl⟩ := shown_eq_ok_iff.1 hshown
    obtain ⟨htree, rfl⟩ := through_eq_ok_iff.1 hpassed
    refine ⟨⟨checks, hchecks⟩, fun task hmem =>
      ⟨hrules task hmem, fun hshows hallows => htree task ?_⟩, ?_⟩
    · exact List.mem_filter.2 ⟨hmem, by simp [hshows, hallows]⟩
    · exact (Except.ok.inj h).symm
  · rintro ⟨⟨checks, hchecks⟩, hdecided, rfl⟩
    refine Result.bind_eq_ok.2 ⟨checks, hchecks, ?_⟩
    refine Result.bind_eq_ok.2
      ⟨_, shown_eq_ok_iff.2 ⟨fun task hmem => (hdecided task hmem).rules, rfl⟩, ?_⟩
    refine Result.bind_eq_ok.2 ⟨_, through_eq_ok_iff.2 ⟨fun task hmem => ?_, rfl⟩, rfl⟩
    obtain ⟨hmem, hpass⟩ := List.mem_filter.1 hmem
    obtain ⟨hshows, hallows⟩ := of_decide_eq_true hpass
    exact (hdecided task hmem).tree hshows hallows

theorem Selects.mono {tree' : Option Filter.Tree} {query' : Text} (htree : tree' ∈ [tree, none])
    (hquery : query' ∈ [query, []]) {task : Task}
    (h : Selects today view tree query task) : Selects today view tree' query' task := by
  refine ⟨h.shown, h.allowed, ?_, ?_⟩
  · rcases List.mem_pair.1 htree with rfl | rfl
    · exact h.passed
    · simp
  · rcases List.mem_pair.1 hquery with rfl | rfl
    · exact h.found
    · simp

theorem IsDecided.mono {tree' : Option Filter.Tree} (htree : tree' ∈ [tree, none]) {task : Task}
    (h : IsDecided today view tree task) :
    IsDecided today view tree' task := by
  rcases List.mem_pair.1 htree with rfl | rfl
  · exact h
  · exact ⟨h.rules, by simp⟩

/-- A selection that has a result keeps the tasks that pass every stage, in their order and as often
as they occur. It leaves its result as it is, goes through a list piece by piece, and keeps no task
less without the tree, without the query or without both. -/
theorem select_conjoins (h : select today view tree query tasks = .ok kept) :
    (kept = tasks.filter fun task => Selects today view tree query task) ∧
      select today view tree query kept = .ok kept ∧
      (∀ others all, select today view tree query (tasks ++ others) = .ok all ↔
        ∃ more, select today view tree query others = .ok more ∧ all = kept ++ more) ∧
      ∀ tree' ∈ [tree, none], ∀ query' ∈ [query, []],
        ∃ wider, select today view tree' query' tasks = .ok wider ∧ kept.Sublist wider := by
  obtain ⟨hchecks, hdecided, rfl⟩ := select_eq_ok_iff.1 h
  refine ⟨rfl, ?_, fun others all => ?_, fun tree' htree query' hquery => ?_⟩
  · refine select_eq_ok_iff.2 ⟨hchecks,
      fun task hmem => hdecided task (List.mem_of_mem_filter hmem), ?_⟩
    rw [List.filter_filter]
    simp
  · simp only [select_eq_ok_iff, List.forall_mem_append, List.filter_append]
    constructor
    · rintro ⟨-, ⟨-, hothers⟩, rfl⟩
      exact ⟨_, ⟨hchecks, hothers, rfl⟩, rfl⟩
    · rintro ⟨more, ⟨-, hothers, rfl⟩, rfl⟩
      exact ⟨hchecks, ⟨hdecided, hothers⟩, rfl⟩
  · refine ⟨_, select_eq_ok_iff.2 ⟨hchecks, fun task hmem => (hdecided task hmem).mono htree, rfl⟩, ?_⟩
    apply List.monotone_filter_right
    intro task hselects
    simpa using (of_decide_eq_true hselects).mono htree hquery

def shopping : List Task :=
  [Filter.bareTask "Buy milk".toList,
   { Filter.bareTask "Buy old milk".toList with category := .completed },
    Filter.bareTask "Buy tea".toList, Filter.bareTask "Sell milk".toList,
    Filter.bareTask "Buy milk".toList]

theorem select_conjoins_shopping :
    let view : View := { hidesDone := true, rules := { textContains := some "milk".toList } }
    let tree : Filter.Tree :=
      ⟨.any, [⟨none, .all, [⟨none, "content".toList, "startsWith".toList, some "buy".toList⟩]⟩]⟩
    ∃ kept, select ⟨2024, 3, 13, rfl⟩ view (some tree) ['K'] shopping = .ok kept ∧
      kept.map Task.content = ["Buy milk".toList, "Buy milk".toList] ∧
      select ⟨2024, 3, 13, rfl⟩ view (some tree) ['K'] kept = .ok kept ∧
      select ⟨2024, 3, 13, rfl⟩ view (some tree) ['K'] (shopping ++ shopping) = .ok (kept ++ kept) ∧
      ∃ wider, select ⟨2024, 3, 13, rfl⟩ view none ['K'] shopping = .ok wider ∧
          kept.Sublist wider := by
  intro view tree
  have hcontents :
      ((select ⟨2024, 3, 13, rfl⟩ view (some tree) ['K'] shopping).map
        (·.map Task.content)).toOption =
      some ["Buy milk".toList, "Buy milk".toList] := by decide +kernel
  obtain ⟨kept, hkept, hcontents⟩ := Result.exists_of_map hcontents
  obtain ⟨-, hagain, happend, hwider⟩ := select_conjoins hkept
  exact ⟨kept, hkept, hcontents, hagain, (happend shopping _).2 ⟨kept, hkept, rfl⟩,
    hwider none (by simp) _ (by simp)⟩

end Checklist.View
