import Checklist.Index.Basic
import Mathlib.Data.List.Basic
import Mathlib.Tactic.Common

/-! # What is filed in a table

A table is known by what its keys look up. Main statements: dropping keys drops what they look up
and nothing else (`lookup_filter`), filing a list of values leaves each of them under its key
(`lookup_setAll_of_mem`), and no operation files two values under one key (`nodup_keys_set`,
`nodup_keys_setAll`). -/

namespace Checklist.Table
set_option autoImplicit false

variable {α β : Type}

/-- The keys of a table, in order. -/
def keys (table : Table α) : List Text :=
  table.map (·.1)

theorem isSome_lookup_iff {table : Table α} {key : Text} : (table.lookup key).isSome ↔
    key ∈ keys table := by
  rw [List.lookup_isSome_iff, keys, List.mem_map]
  constructor
  · rintro ⟨entry, hmem, heq⟩
    exact ⟨entry, hmem, (beq_iff_eq.1 heq).symm⟩
  · rintro ⟨entry, hmem, rfl⟩
    exact ⟨entry, hmem, by simp⟩

theorem lookup_eq_none_iff {table : Table α} {key : Text} : table.lookup key = none ↔
    key ∉ keys table := by
  rw [← isSome_lookup_iff]
  cases table.lookup key <;> simp

theorem mem_of_lookup {table : Table α} {key : Text} {value : α}
    (h : table.lookup key = some value) : (key, value) ∈ table := by
  obtain ⟨before, after, rfl, -⟩ := List.lookup_eq_some_iff.1 h
  simp

theorem lookup_of_mem {table : Table α} (hnodup : (keys table).Nodup) {key : Text} {value : α}
    (h : (key, value) ∈ table) :
    table.lookup key = some value := by
  induction table with
  | nil => simp at h
  | cons entry rest ih =>
    obtain ⟨k, v⟩ := entry
    rw [keys, List.map_cons, List.nodup_cons] at hnodup
    rcases List.mem_cons.1 h with heq | hrest
    · cases heq
      simp
    · have hne : key ≠ k := by
        rintro rfl
        exact hnodup.1 (List.mem_map.2 ⟨_, hrest, rfl⟩)
      rw [List.lookup_cons, beq_false_of_ne hne]
      exact ih hnodup.2 hrest

/-! ## Dropping keys -/

theorem lookup_filter (table : Table α) (p : Text → Bool) (key : Text) :
    (table.filter fun entry => p entry.1).lookup key = if p key then
      table.lookup key else none := by
  induction table with
  | nil => simp
  | cons entry rest ih =>
    obtain ⟨k, v⟩ := entry
    rw [List.filter_cons]
    by_cases hk : key = k
    · subst hk
      by_cases hp : p key = true
      · simp [hp]
      · simp [hp, ih]
    · have hne := beq_false_of_ne hk
      by_cases hp : p k = true
      · simp only [hp, if_true, List.lookup_cons, hne, ih]
      · simp only [hp, if_false, List.lookup_cons, hne, ih, Bool.false_eq_true]

theorem lookup_erase_self (table : Table α) (key : Text) : (table.erase key).lookup key = none := by
  rw [erase, lookup_filter table (fun other => other != key)]
  simp

theorem lookup_erase_of_ne (table : Table α) {key other : Text} (h : other ≠ key) :
    (table.erase key).lookup other = table.lookup other := by
  rw [erase, lookup_filter table (fun other => other != key)]
  simp [h]

theorem nodup_keys_filter {table : Table α} (h : (keys table).Nodup) (p : Text × α → Bool) :
    (keys (table.filter p)).Nodup :=
  h.sublist (List.filter_sublist.map _)

/-! ## Filing values -/

theorem keys_set (table : Table α) (key : Text) (value : α) :
    keys (table.set key value) = if key ∈ keys table then keys table else keys table ++ [key] := by
  induction table with
  | nil => simp [set, keys]
  | cons entry rest ih =>
    obtain ⟨k, v⟩ := entry
    rw [set]
    by_cases hk : key = k
    · subst hk
      simp [keys]
    · rw [if_neg (by simpa using hk)]
      simp only [keys, List.map_cons, List.mem_cons, hk, false_or] at ih ⊢
      rw [ih]
      by_cases hmem : key ∈ rest.map (·.1) <;> simp [hmem]

theorem mem_keys_set {table : Table α} {key other : Text} {value : α} :
    other ∈ keys (table.set key value) ↔ other = key ∨ other ∈ keys table := by
  rw [keys_set]
  split
  · rename_i hmem
    constructor
    · exact Or.inr
    · rintro (rfl | h)
      · exact hmem
      · exact h
  · rw [List.mem_append, List.mem_singleton, or_comm]

theorem nodup_keys_set {table : Table α} (h : (keys table).Nodup) (key : Text) (value : α) :
    (keys (table.set key value)).Nodup := by
  rw [keys_set]
  split
  · exact h
  · rename_i hmem
    refine List.nodup_append.2 ⟨h, by simp, fun a ha b hb heq => hmem ?_⟩
    rw [← List.mem_singleton.1 hb, ← heq]
    exact ha

/-- Files values one after the other. -/
def setAll (table : Table β) (key : α → Text) (value : α → β) (items : List α) : Table β :=
  items.foldl (fun table item => table.set (key item) (value item)) table

theorem nodup_keys_setAll {table : Table β} (h : (keys table).Nodup) (key : α → Text)
    (value : α → β) (items : List α) :
    (keys (setAll table key value items)).Nodup := by
  induction items generalizing table with
  | nil => exact h
  | cons item rest ih => exact ih (nodup_keys_set h _ _)

theorem nodup_keys_ofList (entries : List (Text × α)) : (keys (ofList entries)).Nodup :=
  nodup_keys_setAll (show (keys ([] : Table α)).Nodup from List.nodup_nil) _ _ entries

theorem set_of_notMem {table : Table α} {key : Text} (h : key ∉ keys table) (value : α) :
    table.set key value = table ++ [(key, value)] := by
  induction table with
  | nil => rfl
  | cons entry rest ih =>
    rw [keys, List.map_cons, List.mem_cons, not_or] at h
    rw [set, if_neg (by simpa using h.1), ih h.2]
    rfl

theorem mem_set {table : Table α} {key : Text} {value : α} {entry : Text × α}
    (h : entry ∈ table.set key value) :
    entry = (key, value) ∨ entry ∈ table := by
  induction table with
  | nil => exact .inl (List.mem_singleton.1 h)
  | cons first rest ih =>
    obtain ⟨k, v⟩ := first
    rw [set] at h
    split at h
    · next hkey =>
      rcases List.mem_cons.1 h with rfl | h
      · exact .inl (by rw [beq_iff_eq.1 hkey])
      · exact .inr (List.mem_cons_of_mem _ h)
    · rcases List.mem_cons.1 h with rfl | h
      · exact .inr List.mem_cons_self
      · exact (ih h).imp_right (List.mem_cons_of_mem _)

theorem mem_of_mem_ofList {entries : List (Text × α)} {entry : Text × α}
    (h : entry ∈ ofList entries) : entry ∈ entries := by
  have hfold : ∀ (entries : List (Text × α)) (table : Table α),
      entry ∈ entries.foldl (fun table entry => table.set entry.1 entry.2) table →
      entry ∈ entries ∨ entry ∈ table := by
    intro entries
    induction entries with
    | nil => exact fun table h => .inr h
    | cons first rest ih =>
      intro table h
      rcases ih _ h with hrest | hset
      · exact .inl (List.mem_cons_of_mem _ hrest)
      · rcases mem_set hset with rfl | htable
        · exact .inl List.mem_cons_self
        · exact .inr htable
  exact (hfold entries [] h).resolve_right List.not_mem_nil

theorem ofList_of_nodup {entries : Table α} (h : (keys entries).Nodup) :
    ofList entries = entries := by
  have hfold : ∀ (entries table : Table α), (keys (table ++ entries)).Nodup →
      entries.foldl (fun table entry => table.set entry.1 entry.2) table = table ++ entries := by
    intro entries
    induction entries with
    | nil => exact fun table _ => (List.append_nil table).symm
    | cons first rest ih =>
      intro table h
      have hfirst : first.1 ∉ keys table := by
        rw [keys, List.map_append, List.map_cons] at h
        exact fun hmem => (List.nodup_append.1 h).2.2 _ hmem _ List.mem_cons_self rfl
      rw [List.foldl_cons, set_of_notMem hfirst, ih _ (by simpa using h), List.append_assoc]
      rfl
  exact hfold entries [] h

theorem lookup_setAll_of_notMem (table : Table β) (key : α → Text) (value : α → β)
    {items : List α} {k : Text}
    (h : k ∉ items.map key) : (setAll table key value items).lookup k = table.lookup k := by
  induction items generalizing table with
  | nil => rfl
  | cons item rest ih =>
    rw [List.map_cons, List.mem_cons, not_or] at h
    rw [setAll, List.foldl_cons, ← setAll, ih _ h.2, lookup_set_of_ne _ h.1]

/-- Each of several values under different keys is found under its key. -/
theorem lookup_setAll_of_mem (table : Table β) {key : α → Text} (value : α → β) {items : List α}
    (hnodup : (items.map key).Nodup)
    {item : α} (h : item ∈ items) : (setAll table key value items).lookup (key item) =
      some (value item) := by
  induction items generalizing table with
  | nil => simp at h
  | cons first rest ih =>
    rw [List.map_cons, List.nodup_cons] at hnodup
    rw [setAll, List.foldl_cons, ← setAll]
    rcases List.mem_cons.1 h with rfl | hrest
    · rw [lookup_setAll_of_notMem _ _ _ hnodup.1, lookup_set_self]
    · exact ih _ hnodup.2 hrest

end Checklist.Table
