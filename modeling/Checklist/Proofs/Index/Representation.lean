import Checklist.Index.Update
import Checklist.Proofs.Note.Identity
import Checklist.Proofs.Table
import Mathlib.Data.List.Nodup
import Mathlib.Data.List.Perm.Basic

/-! # What the tables of an index say of each other

An index keeps tasks by id, ids by note and checksums by note in separate tables. Main statements:
the tables agree with each other in a sound index (`Sound`), storing and removing a note keep them
so (`Sound.store`, `Sound.remove`) and leave the other notes alone (`tasksOf_store_of_ne`,
`tasksOf_remove_of_ne`), and the list of all tasks holds each task once, note by note and line by
line (`toList_perm`, `pairwise_toList`). -/

namespace Checklist.Index
set_option autoImplicit false
open Text

/-! ## Sound indexes -/

/-- The tasks filed under ids and the ids filed under notes agree: a note lists the ids of tasks
labelled with its path in the order of their lines, and a task is filed under its own id, which its
note lists. -/
structure Filed (index : Index) : Prop where
  nodup_tasks : (Table.keys index.tasks).Nodup
  nodup_files : (Table.keys index.files).Nodup
  listed : ∀ path ids, index.files.lookup path = some ids →
    ∃ tasks, Note.Labelled path tasks ∧ ids = tasks.map Task.id ∧ ∀ task ∈ tasks,
      index.tasks.lookup task.id = some task
  owned : ∀ id task, index.tasks.lookup id = some task →
    task.id = id ∧ ∃ ids, index.files.lookup task.path = some ids ∧ id ∈ ids

/-- The tables of an index agree, and the notes with tasks are those with a checksum. -/
structure Sound (index : Index) : Prop extends Filed index where
  nodup_checksums : (Table.keys index.checksums).Nodup
  checked : ∀ path, path ∈ Table.keys index.checksums ↔ path ∈ Table.keys index.files

theorem sound_empty : Sound {} where
  nodup_tasks := List.nodup_nil
  nodup_files := List.nodup_nil
  listed := by simp
  owned := by simp
  nodup_checksums := List.nodup_nil
  checked := by simp [Table.keys]

/-! ## Reading a note back -/

theorem tasksOf_of_lookup {index : Index} {path : Text} {tasks : List Task}
    (hids : index.files.lookup path = some (tasks.map Task.id))
    (htasks : ∀ task ∈ tasks, index.tasks.lookup task.id = some task) :
    index.tasksOf path = tasks := by
  have hfind : ∀ task ∈ tasks, index.task? task.id = some task := htasks
  rw [tasksOf, hids, Option.getD_some, List.filterMap_map]
  clear htasks hids
  induction tasks with
  | nil => rfl
  | cons task rest ih =>
    rw [List.filterMap_cons, Function.comp_apply, hfind task List.mem_cons_self]
    rw [ih fun other hother => hfind other (List.mem_cons_of_mem _ hother)]

theorem tasksOf_of_lookup_eq_none {index : Index} {path : Text}
    (h : index.files.lookup path = none) : index.tasksOf path = [] := by
  simp [tasksOf, h]

theorem Filed.tasksOf_spec {index : Index} (h : Filed index) {path : Text} {ids : List Text}
    (hids : index.files.lookup path = some ids) :
    Note.Labelled path (index.tasksOf path) ∧ (index.tasksOf path).map Task.id = ids ∧
      ∀ task ∈ index.tasksOf path, index.tasks.lookup task.id = some task := by
  obtain ⟨tasks, hlabelled, rfl, htasks⟩ := h.listed path ids hids
  rw [tasksOf_of_lookup hids htasks]
  exact ⟨hlabelled, rfl, htasks⟩

theorem Filed.labelled_tasksOf {index : Index} (h : Filed index) (path : Text) :
    Note.Labelled path (index.tasksOf path) := by
  cases hids : index.files.lookup path with
  | none =>
    rw [tasksOf_of_lookup_eq_none hids]
    exact ⟨by simp, .nil⟩
  | some ids => exact (h.tasksOf_spec hids).1

theorem Filed.mem_tasksOf_iff {index : Index} (h : Filed index) {path : Text} {task : Task} :
    task ∈ index.tasksOf path ↔ task.path = path ∧ index.tasks.lookup task.id = some task := by
  constructor
  · intro hmem
    obtain ⟨number, hlabel⟩ := (h.labelled_tasksOf path).labels task hmem
    cases hids : index.files.lookup path with
    | none => simp [tasksOf_of_lookup_eq_none hids] at hmem
    | some ids => exact ⟨hlabel.path_eq, (h.tasksOf_spec hids).2.2 task hmem⟩
  · rintro ⟨rfl, hlookup⟩
    obtain ⟨-, ids, hids, hid⟩ := h.owned _ _ hlookup
    obtain ⟨hlabelled, rfl, htasks⟩ := h.tasksOf_spec hids
    obtain ⟨other, hother, hotherId⟩ := List.mem_map.1 hid
    have hsame := htasks other hother
    rw [hotherId, hlookup] at hsame
    cases hsame
    exact hother

/-! ## Dropping the tasks of a note -/

theorem files_dropTasks_self (index : Index) (path : Text) :
    (index.dropTasks path).files.lookup path = none :=
  Table.lookup_erase_self _ _

theorem files_dropTasks_of_ne (index : Index) {path other : Text} (h : other ≠ path) :
    (index.dropTasks path).files.lookup other = index.files.lookup other :=
  Table.lookup_erase_of_ne _ h

theorem lookup_tasks_dropTasks (index : Index) (path id : Text) :
    (index.dropTasks path).tasks.lookup id = if id ∈ (index.files.lookup path).getD [] then
      none else index.tasks.lookup id := by
  have hfilter :=
    Table.lookup_filter index.tasks (fun id => !((index.files.lookup path).getD []).contains id) id
  refine hfilter.trans ?_
  by_cases hid : id ∈ (index.files.lookup path).getD [] <;> simp [hid]

theorem Filed.lookup_tasks_dropTasks_iff {index : Index} (h : Filed index)
    {path id : Text} {task : Task} :
    (index.dropTasks path).tasks.lookup id = some task ↔ index.tasks.lookup id = some task ∧
      task.path ≠ path := by
  rw [lookup_tasks_dropTasks]
  constructor
  · intro hlookup
    split at hlookup
    · simp at hlookup
    · rename_i hid
      refine ⟨hlookup, ?_⟩
      rintro rfl
      obtain ⟨-, ids, hids, hmem⟩ := h.owned _ _ hlookup
      exact hid (by rw [hids]; exact hmem)
  · rintro ⟨hlookup, hne⟩
    rw [if_neg, hlookup]
    intro hmem
    cases hids : index.files.lookup path with
    | none => simp [hids] at hmem
    | some ids =>
      obtain ⟨hlabelled, rfl, htasks⟩ := h.tasksOf_spec hids
      rw [hids, Option.getD_some] at hmem
      obtain ⟨other, hother, rfl⟩ := List.mem_map.1 hmem
      have hsame := htasks other hother
      rw [hlookup] at hsame
      cases hsame
      exact hne (h.mem_tasksOf_iff.1 hother).1

theorem Filed.dropTasks {index : Index} (h : Filed index) (path : Text) :
    Filed (index.dropTasks path) where
  nodup_tasks := Table.nodup_keys_filter h.nodup_tasks _
  nodup_files := Table.nodup_keys_filter h.nodup_files _
  listed := by
    intro other ids hids
    have hne : other ≠ path := by
      rintro rfl
      rw [files_dropTasks_self] at hids
      simp at hids
    rw [files_dropTasks_of_ne _ hne] at hids
    obtain ⟨tasks, hlabelled, rfl, htasks⟩ := h.listed other ids hids
    refine ⟨tasks, hlabelled, rfl,
      fun task htask => h.lookup_tasks_dropTasks_iff.2 ⟨htasks task htask, ?_⟩⟩
    obtain ⟨number, hlabel⟩ := hlabelled.labels task htask
    rw [hlabel.path_eq]
    exact hne
  owned := by
    intro id task hlookup
    obtain ⟨hlookup, hne⟩ := h.lookup_tasks_dropTasks_iff.1 hlookup
    rw [files_dropTasks_of_ne _ hne]
    exact h.owned id task hlookup

/-! ## Storing the tasks of a note -/

/-- The index with tasks added as those of a note that has none. -/
def addTasks (index : Index) (path : Text) (tasks : List Task) : Index :=
  { index with
    tasks := Table.setAll index.tasks Task.id id tasks
    files := index.files.set path (tasks.map Task.id) }

theorem Filed.addTasks {index : Index} (h : Filed index) {path : Text}
    (habsent : index.files.lookup path = none)
    {tasks : List Task} (hlabelled : Note.Labelled path tasks) :
    Filed (index.addTasks path tasks) where
  nodup_tasks := Table.nodup_keys_setAll h.nodup_tasks _ _ _
  nodup_files := Table.nodup_keys_set h.nodup_files _ _
  listed := by
    intro other ids hids
    by_cases hother : other = path
    · subst hother
      rw [Index.addTasks, Table.lookup_set_self] at hids
      cases hids
      exact ⟨tasks, hlabelled, rfl, fun task htask =>
        Table.lookup_setAll_of_mem _ _ hlabelled.nodup_ids htask⟩
    · rw [Index.addTasks, Table.lookup_set_of_ne _ hother] at hids
      obtain ⟨others, hothers, rfl, hlookup⟩ := h.listed other ids hids
      refine ⟨others, hothers, rfl, fun task htask => ?_⟩
      rw [Index.addTasks, Table.lookup_setAll_of_notMem]
      · exact hlookup task htask
      · intro hmem
        obtain ⟨added, hadded, hid⟩ := List.mem_map.1 hmem
        obtain ⟨m, hm⟩ := hlabelled.labels added hadded
        obtain ⟨n, hn⟩ := hothers.labels task htask
        rw [hm.id_eq, hn.id_eq] at hid
        exact hother (Task.idOf_inj hid).1.symm
  owned := by
    intro id task hlookup
    by_cases hid : id ∈ tasks.map Task.id
    · obtain ⟨added, hadded, rfl⟩ := List.mem_map.1 hid
      rw [Index.addTasks, Table.lookup_setAll_of_mem _ _ hlabelled.nodup_ids hadded] at hlookup
      cases hlookup
      obtain ⟨number, hlabel⟩ := hlabelled.labels added hadded
      refine ⟨rfl, tasks.map Task.id, ?_, hid⟩
      rw [id_eq, hlabel.path_eq]
      exact Table.lookup_set_self _ _ _
    · rw [Index.addTasks, Table.lookup_setAll_of_notMem _ _ _ hid] at hlookup
      obtain ⟨hown, ids, hids, hmem⟩ := h.owned id task hlookup
      have hne : task.path ≠ path := by
        rintro rfl
        rw [habsent] at hids
        simp at hids
      refine ⟨hown, ids, ?_, hmem⟩
      rw [Index.addTasks, Table.lookup_set_of_ne _ hne]
      exact hids

theorem store_eq (index : Index) (path checksum : Text) (tasks : List Task) :
    index.store path checksum tasks =
      { (index.dropTasks path).addTasks path
        tasks with checksums := index.checksums.set path checksum } :=
  rfl

theorem Sound.store {index : Index} (h : Sound index) {path : Text}
    (checksum : Text) {tasks : List Task}
    (hlabelled : Note.Labelled path tasks) : Sound (index.store path checksum tasks) := by
  have hfiled := (h.toFiled.dropTasks path).addTasks (files_dropTasks_self index path) hlabelled
  rw [store_eq]
  refine ⟨⟨hfiled.nodup_tasks, hfiled.nodup_files, hfiled.listed, hfiled.owned⟩,
    Table.nodup_keys_set h.nodup_checksums _ _, ?_⟩
  intro other
  have hfiles : other ∈ Table.keys ((index.dropTasks path).addTasks path tasks).files ↔
      other = path ∨ other ∈ Table.keys index.files := by
    rw [Index.addTasks, Table.mem_keys_set]
    refine or_congr_right' fun hne => ?_
    rw [← Table.isSome_lookup_iff, files_dropTasks_of_ne _ hne, Table.isSome_lookup_iff]
  rw [Table.mem_keys_set, h.checked]
  exact hfiles.symm

theorem tasksOf_store_self (index : Index) {path : Text} (checksum : Text) {tasks : List Task}
    (hlabelled : Note.Labelled path tasks) :
    (index.store path checksum tasks).tasksOf path = tasks :=
  tasksOf_of_lookup (Table.lookup_set_self _ _ _) fun _ htask =>
    Table.lookup_setAll_of_mem _ _ hlabelled.nodup_ids htask

/-! ## Other notes are left alone -/

/-- Two indexes hold the same for a note: its ids, its tasks and its checksum. -/
structure SameAt (path : Text) (before after : Index) : Prop where
  files_eq : after.files.lookup path = before.files.lookup path
  tasks_eq : after.tasksOf path = before.tasksOf path
  checksum_eq : after.checksums.lookup path = before.checksums.lookup path

theorem SameAt.refl (path : Text) (index : Index) : SameAt path index index :=
  ⟨rfl, rfl, rfl⟩

theorem SameAt.symm {path : Text} {before after : Index} (h : SameAt path before after) :
    SameAt path after before :=
  ⟨h.files_eq.symm, h.tasks_eq.symm, h.checksum_eq.symm⟩

theorem SameAt.trans {path : Text} {first second third : Index} (h : SameAt path first second)
    (h' : SameAt path second third) :
    SameAt path first third :=
  ⟨h'.files_eq.trans h.files_eq, h'.tasks_eq.trans h.tasks_eq, h'.checksum_eq.trans h.checksum_eq⟩

theorem Filed.tasksOf_eq {before after : Index} (h : Filed before) {path : Text}
    (hfiles : after.files.lookup path = before.files.lookup path)
    (htasks : ∀ task, task.path = path → before.tasks.lookup task.id = some task →
      after.tasks.lookup task.id = some task) :
    after.tasksOf path = before.tasksOf path := by
  cases hids : before.files.lookup path with
  | none => rw [tasksOf_of_lookup_eq_none hids, tasksOf_of_lookup_eq_none (hfiles.trans hids)]
  | some ids =>
    obtain ⟨hlabelled, rfl, -⟩ := h.tasksOf_spec hids
    refine tasksOf_of_lookup (hfiles.trans hids) fun task htask => ?_
    obtain ⟨hpath, hlookup⟩ := h.mem_tasksOf_iff.1 htask
    exact htasks task hpath hlookup

theorem Filed.sameAt_dropTasks {index : Index} (h : Filed index) {path other : Text}
    (hne : other ≠ path) :
    SameAt other index (index.dropTasks path) := by
  refine ⟨files_dropTasks_of_ne _ hne, h.tasksOf_eq (files_dropTasks_of_ne _ hne) ?_, rfl⟩
  rintro task rfl hlookup
  exact h.lookup_tasks_dropTasks_iff.2 ⟨hlookup, hne⟩

theorem Sound.sameAt_store {index : Index} (h : Sound index) {path other : Text}
    (checksum : Text) {tasks : List Task}
    (hlabelled : Note.Labelled path tasks) (hne : other ≠ path) :
    SameAt other index (index.store path checksum tasks) := by
  have hdrop := h.toFiled.sameAt_dropTasks hne
  have hfiles : (index.store path checksum tasks).files.lookup other =
      (index.dropTasks path).files.lookup other :=
    Table.lookup_set_of_ne _ hne _
  refine hdrop.trans ⟨hfiles, (h.toFiled.dropTasks path).tasksOf_eq hfiles ?_,
    Table.lookup_set_of_ne _ hne _⟩
  rintro task rfl hlookup
  refine (Table.lookup_setAll_of_notMem _ _ _ ?_).trans hlookup
  intro hmem
  obtain ⟨added, hadded, hid⟩ := List.mem_map.1 hmem
  obtain ⟨m, hm⟩ := hlabelled.labels added hadded
  have hfiled := h.toFiled.dropTasks path
  obtain ⟨n, hn⟩ :=
    (hfiled.labelled_tasksOf task.path).labels task (hfiled.mem_tasksOf_iff.2 ⟨rfl, hlookup⟩)
  rw [hm.id_eq, hn.id_eq] at hid
  exact hne (Task.idOf_inj hid).1.symm

/-! ## Taking a version number and removing a note -/

theorem Sound.nextVersion {index : Index} (h : Sound index) (path : Text) :
    Sound (index.nextVersion path).2 :=
  ⟨⟨h.nodup_tasks, h.nodup_files, h.listed, h.owned⟩, h.nodup_checksums, h.checked⟩

theorem sameAt_nextVersion (index : Index) (path other : Text) :
    SameAt other index (index.nextVersion path).2 :=
  ⟨rfl, rfl, rfl⟩

theorem remove_snd (index : Index) (path : Text) :
    (index.remove path).2 =
      { (index.nextVersion path).2.dropTasks path with checksums := index.checksums.erase path } :=
  rfl

theorem Sound.remove {index : Index} (h : Sound index) (path : Text) :
    Sound (index.remove path).2 := by
  have hfiled := (h.nextVersion path).toFiled.dropTasks path
  rw [remove_snd]
  refine ⟨⟨hfiled.nodup_tasks, hfiled.nodup_files, hfiled.listed, hfiled.owned⟩,
    Table.nodup_keys_filter h.nodup_checksums _, ?_⟩
  intro other
  rw [← Table.isSome_lookup_iff, ← Table.isSome_lookup_iff]
  by_cases hne : other = path
  · subst hne
    simp [Table.lookup_erase_self, files_dropTasks_self]
  · rw [Table.lookup_erase_of_ne _ hne, files_dropTasks_of_ne _ hne, Table.isSome_lookup_iff,
      h.checked, Table.isSome_lookup_iff]
    rfl

theorem Sound.sameAt_remove {index : Index} (h : Sound index) {path other : Text}
    (hne : other ≠ path) :
    SameAt other index (index.remove path).2 := by
  have hdrop := (h.nextVersion path).toFiled.sameAt_dropTasks hne
  exact ⟨hdrop.files_eq, hdrop.tasks_eq, Table.lookup_erase_of_ne _ hne⟩

theorem files_remove_self (index : Index) (path : Text) :
    (index.remove path).2.files.lookup path = none :=
  Table.lookup_erase_self _ _

theorem checksums_remove_self (index : Index) (path : Text) :
    (index.remove path).2.checksums.lookup path = none :=
  Table.lookup_erase_self _ _

/-! ## All tasks -/

/-- The order of all tasks: by the paths of their notes, and within a note by their lines. -/
def Precedes (a b : Task) : Prop :=
  (a.path ≠ b.path ∧ le a.path b.path = true) ∨ (a.path = b.path ∧ a.line < b.line)

theorem Filed.pairwise_paths {index : Index} (h : Filed index) :
    index.paths.Pairwise fun s t => s ≠ t ∧ le s t = true := by
  have hnodup : index.paths.Nodup := (List.mergeSort_perm _ _).nodup_iff.2 h.nodup_files
  exact List.Pairwise.and hnodup (pairwise_sort _)

theorem Filed.pairwise_toList {index : Index} (h : Filed index) :
    index.toList.Pairwise Precedes := by
  rw [toList, List.flatMap, List.pairwise_flatten, List.pairwise_map]
  constructor
  · intro tasks htasks
    obtain ⟨path, -, rfl⟩ := List.mem_map.1 htasks
    have hlabelled := h.labelled_tasksOf path
    refine hlabelled.ascending.imp_of_mem fun ha hb hlt => ?_
    obtain ⟨m, hm⟩ := hlabelled.labels _ ha
    obtain ⟨n, hn⟩ := hlabelled.labels _ hb
    exact .inr ⟨hm.path_eq.trans hn.path_eq.symm, hlt⟩
  · refine h.pairwise_paths.imp fun hlt a ha b hb => ?_
    rw [(h.mem_tasksOf_iff.1 ha).1.symm, (h.mem_tasksOf_iff.1 hb).1.symm] at hlt
    exact .inl hlt

theorem Filed.mem_toList_iff {index : Index} (h : Filed index) {task : Task} :
    task ∈ index.toList ↔ index.tasks.lookup task.id = some task := by
  rw [toList, List.mem_flatMap]
  constructor
  · rintro ⟨path, -, hmem⟩
    exact (h.mem_tasksOf_iff.1 hmem).2
  · intro hlookup
    obtain ⟨-, ids, hids, -⟩ := h.owned _ _ hlookup
    refine ⟨task.path, ?_, h.mem_tasksOf_iff.2 ⟨rfl, hlookup⟩⟩
    exact mem_sort.2 (Table.isSome_lookup_iff.1 (by rw [hids]; rfl))

theorem Filed.nodup_toList {index : Index} (h : Filed index) : index.toList.Nodup := by
  refine h.pairwise_toList.imp ?_
  rintro a b (⟨hne, -⟩ | ⟨-, hlt⟩) rfl
  · exact hne rfl
  · exact Int.lt_irrefl _ hlt

/-- All tasks are listed, each once. -/
theorem Filed.toList_perm {index : Index} (h : Filed index) :
    index.toList.Perm (index.tasks.map (·.2)) := by
  have hvalues : (index.tasks.map (·.2)).Nodup := by
    have hids : index.tasks.map (·.1) = (index.tasks.map (·.2)).map Task.id := by
      rw [List.map_map]
      refine List.map_congr_left ?_
      rintro ⟨id, task⟩ hentry
      exact (h.owned id task (Table.lookup_of_mem h.nodup_tasks hentry)).1.symm
    have hkeys := h.nodup_tasks
    rw [Table.keys, hids] at hkeys
    exact List.Nodup.of_map _ hkeys
  rw [List.perm_ext_iff_of_nodup h.nodup_toList hvalues]
  intro task
  rw [h.mem_toList_iff, List.mem_map]
  constructor
  · intro hlookup
    exact ⟨_, Table.mem_of_lookup hlookup, rfl⟩
  · rintro ⟨⟨id, _⟩, hmem, rfl⟩
    have hlookup := Table.lookup_of_mem h.nodup_tasks hmem
    rw [(h.owned _ _ hlookup).1]
    exact hlookup

theorem Filed.map_id_toList {index : Index} (h : Filed index) :
    index.toList.map Task.id = index.paths.flatMap fun path =>
      (index.files.lookup path).getD [] := by
  rw [toList, List.map_flatMap]
  refine List.flatMap_congr fun path _ => ?_
  cases hids : index.files.lookup path with
  | none => rw [tasksOf_of_lookup_eq_none hids]; rfl
  | some ids => exact (h.tasksOf_spec hids).2.1

end Checklist.Index
