import Checklist.Filter.Tree
import Checklist.Proofs.Except

/-! # Groups without filters

A group without filters accepts every task, so one that is added to a tree acts on the verdict as
one more accepting group does. Main statements: it changes nothing for all, decides for any and
refuses for none (`passes_insert`), so a task that is accepted stays accepted exactly unless the
groups are combined with none (`passes_with_empty_group_iff`). -/

namespace Checklist.Filter
set_option autoImplicit false

/-! ## One more accepting result -/

def Combinator.withTrue (combinator : Combinator) (verdict : Bool) : Bool :=
  match combinator with
  | .all => verdict
  | .any => true
  | .none => false

theorem Combinator.combine_insert_true (combinator : Combinator) (before after : List Bool) :
    combinator.combine (before ++ true :: after) =
      combinator.withTrue (combinator.combine (before ++ after)) := by
  cases combinator with
  | all => simp [combine, withTrue]
  | any => simp [combine, withTrue]
  | none => simp [combine, withTrue]

theorem Combinator.withTrue_true_iff {combinator : Combinator} : combinator.withTrue true = true ↔
    combinator ≠ .none := by
  cases combinator <;> decide

/-! ## Trees -/

/-- A group without filters acts on the verdict as one more accepting group does,
wherever it stands. -/
theorem Tree.passes_insert (today : Date) (task : Task) (combinator inner : Combinator)
    (id : Option Text) (before after : List Group) :
    Tree.passes today task ⟨combinator, before ++ ⟨id, inner, []⟩ :: after⟩ =
      (Tree.passes today task ⟨combinator, before ++ after⟩).map combinator.withTrue := by
  have hempty : Group.passes today task ⟨id, inner, []⟩ = .ok true := rfl
  by_cases hnone : before ++ after = []
  · -- A tree without groups accepts whatever its combinator, also where none of no results would say
    -- otherwise.
    obtain ⟨rfl, rfl⟩ := List.append_eq_nil_iff.1 hnone
    cases combinator <;> rfl
  · have hsome : (before ++ after).isEmpty = false := by simpa using hnone
    have hinserted : (before ++ (⟨id, inner, []⟩ : Group) :: after).isEmpty = false := by simp
    simp only [Tree.passes, hsome, hinserted, Bool.false_eq_true, if_false, List.mapM_append,
      List.mapM_cons, hempty]
    cases before.mapM (Group.passes today task) with
    | error failure => rfl
    | ok verdicts =>
      cases after.mapM (Group.passes today task) with
      | error failure => rfl
      | ok rest => exact congrArg Except.ok (combinator.combine_insert_true verdicts rest)

/-- A task that a tree accepts is still accepted after a group without filters is added, exactly
unless the groups are combined with none. -/
theorem Tree.passes_with_empty_group_iff {today : Date} {task : Task}
    {combinator inner : Combinator} {id : Option Text} {before after : List Group}
    (h : Tree.passes today task ⟨combinator, before ++ after⟩ = .ok true) :
    Tree.passes today task ⟨combinator, before ++ ⟨id, inner, []⟩ :: after⟩ = .ok true ↔
      combinator ≠ .none := by
  rw [Tree.passes_insert, h, ← Combinator.withTrue_true_iff]
  simp [Except.map]

def bareTask (content : Text) : Task :=
  { id := "n.md-L0".toList, path := "n.md".toList, line := 0, content, status := [' '],
    category := .notStarted
    lineText := "- [ ] ".toList ++ content }

def Group.ofContent (content : Text) : Group :=
  ⟨none, .all, [⟨none, "content".toList, "is".toList, some content⟩]⟩

theorem Tree.passes_with_empty_group_between :
    Tree.passes ⟨2024, 3, 13, rfl⟩ (bareTask ['a'])
      ⟨.any, [.ofContent ['b']] ++ [.ofContent ['a']]⟩ = .ok true ∧
      Tree.passes ⟨2024, 3, 13, rfl⟩ (bareTask ['a'])
        ⟨.any, [.ofContent ['b']] ++ ⟨none, .any, []⟩ :: [.ofContent ['a']]⟩ = .ok true := by
  have haccepted : Tree.passes ⟨2024, 3, 13, rfl⟩ (bareTask ['a'])
      ⟨.any, [.ofContent ['b']] ++ [.ofContent ['a']]⟩ = .ok true := by
    decide +kernel
  exact ⟨haccepted, (Tree.passes_with_empty_group_iff haccepted).2 (by decide)⟩

/-- A task that none of the groups accepts is refused because of a group without filters. -/
theorem Tree.empty_group_excludes :
    Tree.passes ⟨2024, 3, 13, rfl⟩ (bareTask ['a']) ⟨.none, [.ofContent ['b']]⟩ = .ok true ∧
      Tree.passes ⟨2024, 3, 13, rfl⟩ (bareTask ['a'])
        ⟨.none, [.ofContent ['b'], ⟨none, .all, []⟩]⟩ = .ok false := by
  decide +kernel

end Checklist.Filter
