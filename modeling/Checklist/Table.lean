import Checklist.Text.Ranges

/-! # Tables

A table files values under texts and keeps the order in which the texts first came. Main statements:
what is set is found (`lookup_set_self`), and nothing else changes (`lookup_set_of_ne`). -/

namespace Checklist
set_option autoImplicit false

/-- Values under texts, in the order in which the texts first came. -/
abbrev Table (α : Type) := List (Text × α)

namespace Table

variable {α : Type}

/-- Files a value: a text already there keeps its place, a new one comes last. -/
def set : Table α → Text → α → Table α
  | [], key, value => [(key, value)]
  | (k, v) :: rest, key, value =>
    if key == k then (k, value) :: rest else (k, v) :: set rest key value

def setNew (table : Table α) (key : Text) (value : α) : Table α :=
  if (table.lookup key).isSome then table else table ++ [(key, value)]

/-- The table of values filed one after the other; of two under one text the last one counts. -/
def ofList (entries : List (Text × α)) : Table α :=
  entries.foldl (fun table entry => table.set entry.1 entry.2) []

/-- The table of values filed one after the other; of two under one text the first one counts. -/
def ofListFirst (entries : List (Text × α)) : Table α :=
  entries.foldl (fun table entry => table.setNew entry.1 entry.2) []

theorem lookup_set_self (table : Table α) (key : Text) (value : α) :
    (table.set key value).lookup key = some value := by
  induction table with
  | nil => simp [set]
  | cons entry rest ih =>
    obtain ⟨k, v⟩ := entry
    by_cases h : key == k
    · simp [set, h, List.lookup_cons]
    · simp [set, h, List.lookup_cons, ih]

theorem lookup_set_of_ne (table : Table α) {key other : Text} (h : other ≠ key) (value : α) :
    (table.set key value).lookup other = table.lookup other := by
  induction table with
  | nil => simp [set, h]
  | cons entry rest ih =>
    obtain ⟨k, v⟩ := entry
    by_cases hk : key = k
    · subst hk
      have hne : (other == key) = false := by simp [h]
      simp [set, List.lookup_cons, hne]
    · simp [set, hk, List.lookup_cons, ih]

end Table
end Checklist
