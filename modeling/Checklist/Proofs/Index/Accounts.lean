import Checklist.Proofs.Index.Jobs

/-! # What a report accounts for

Main statement: the report on a folder accounts for every note that is found in it once, as indexed,
unchanged or failed, and for every note that is gone, and it counts the notes and the tasks that are
left (`report_is_partition`). -/

namespace Checklist.Index
set_option autoImplicit false
open Text

/-- A report accounts for what became of the notes of a folder. -/
structure Accounts (reader : Reader) (folder : Folder) (before : Index) (report : Report)
    (after : Index) : Prop where
  /-- Every note is on one of the lists, and on it once. -/
  parts : (report.indexed ++ report.unchanged ++ report.failed.map Prod.fst).Perm
    (folder.notes.map fun entry => Route.text entry.1)
  apart : (report.indexed ++ report.unchanged ++ report.failed.map Prod.fst).Nodup
  indexed : ∀ entry ∈ folder.notes,
    (Route.text entry.1 ∈ report.indexed ↔ Deserves reader before after entry .indexed)
  unchanged : ∀ entry ∈ folder.notes,
    (Route.text entry.1 ∈ report.unchanged ↔ Deserves reader before after entry .unchanged)
  failed : ∀ entry ∈ folder.notes, ∀ message,
    ((Route.text entry.1, message) ∈ report.failed ↔
      Deserves reader before after entry (.failed message))
  /-- What was indexed before and is not found any more is removed, and listed once. -/
  removed : ∀ path, path ∈ report.removed ↔ path ∈ before.paths ∧ ∀ entry ∈ folder.notes,
    Route.text entry.1 ≠ path
  once : report.removed.Nodup
  total : report.total = folder.notes.length
  taskCount : report.taskCount = (after.files.map fun filed => filed.2.length).foldr (· + ·) 0

/-! ## Lists of fates -/

theorem perm_report (fates : List (Text × Fate)) (removed : List Text) (index : Index) :
    ((report fates removed index).indexed ++ (report fates removed index).unchanged ++
      (report fates removed index).failed.map Prod.fst).Perm
      (fates.map Prod.fst) := by
  have hsorted : ∀ has, (withFate fates has).Perm
      ((fates.filter fun found => has found.2).map Prod.fst) := fun has => List.mergeSort_perm _ _
  unfold report
  dsimp only
  refine (((hsorted _).append (hsorted _)).append_right _).trans ?_
  clear hsorted
  induction fates with
  | nil => exact .nil
  | cons found fates ih =>
    refine .trans ?_ (ih.cons found.1)
    obtain ⟨path, fate⟩ := found
    cases fate with
    | indexed => exact .refl _
    | unchanged => exact List.perm_middle.append_right _
    | failed message => exact List.perm_middle

theorem mem_withFate_of_eq {fates : List (Text × Fate)} {has : Fate → Bool} {found : Fate}
    (h : ∀ fate, has fate = true ↔ fate = found)
    {path : Text} : path ∈ withFate fates has ↔ (path, found) ∈ fates := by
  rw [mem_withFate_iff]
  constructor
  · rintro ⟨⟨path, fate⟩, hmem, hhas, rfl⟩
    rwa [← (h fate).1 hhas]
  · exact fun hmem => ⟨_, hmem, (h found).2 rfl, rfl⟩

theorem mem_indexed_iff {fates : List (Text × Fate)} {removed : List Text}
    {index : Index} {path : Text} :
    path ∈ (report fates removed index).indexed ↔ (path, .indexed) ∈ fates := by
  unfold report
  dsimp only
  refine mem_withFate_of_eq fun fate => ?_
  cases fate <;> simp

theorem mem_unchanged_iff {fates : List (Text × Fate)} {removed : List Text}
    {index : Index} {path : Text} :
    path ∈ (report fates removed index).unchanged ↔ (path, .unchanged) ∈ fates := by
  unfold report
  dsimp only
  refine mem_withFate_of_eq fun fate => ?_
  cases fate <;> simp

theorem mem_failed_iff {fates : List (Text × Fate)} {removed : List Text} {index : Index}
    {path message : Text} :
    (path, message) ∈ (report fates removed index).failed ↔ (path, .failed message) ∈ fates := by
  have hmessage : ∀ found : Fate, found.message? = some message ↔ found = .failed message := by
    intro found
    cases found <;> simp [Fate.message?]
  simp [report, hmessage]

theorem Sound.size_eq {index : Index} (h : index.Sound) :
    index.size = (index.files.map fun filed => filed.2.length).foldr (· + ·) 0 := by
  have hpaths : index.paths.Perm (index.files.map Prod.fst) := List.mergeSort_perm _ _
  have hids : ((index.files.map Prod.fst).flatMap fun path => (index.files.lookup path).getD []) =
      index.files.flatMap Prod.snd := by
    rw [List.flatMap_map]
    refine List.flatMap_congr fun filed hfiled => ?_
    rw [Table.lookup_of_mem h.nodup_files hfiled, Option.getD_some]
  have hlength : ∀ files : Table (List Text), (files.flatMap Prod.snd).length =
      (files.map fun filed => filed.2.length).foldr (· + ·) 0 := by
    intro files
    induction files with
    | nil => rfl
    | cons filed files ih =>
      rw [List.flatMap_cons, List.length_append, ih, List.map_cons, List.foldr_cons]
  calc index.size = (index.toList.map Task.id).length := by
        rw [List.length_map, h.toList_perm.length_eq, List.length_map]
        rfl
    _ = (index.paths.flatMap fun path => (index.files.lookup path).getD []).length := by
      rw [h.map_id_toList]
    _ = (index.files.flatMap Prod.snd).length := by rw [(hpaths.flatMap_right _).length_eq, hids]
    _ = _ := hlength index.files

/-! ## Whole runs -/

variable {parse : Parse} {files : Option ProjectFiles} {reader : Reader} {folder : Folder}
  {state after : State} {report : Report}

theorem Deserves.eq {before index : Index} {entry : Route × StoredFile} {first second : Fate}
    (h : Deserves reader before index entry first)
    (h' : Deserves reader before index entry second) : first = second := by
  cases first <;> cases second <;> simp_all [Deserves]

section Fates

variable {before : Index} {ran : Gathering} {fates : List (Text × Fate)}
  (hfates : List.Forall₂ (fun job found => found.1 = Route.text job.1.1 ∧
    job.2 = .ended found.2) ran.jobs fates)

include hfates

theorem Reached.map_fates (h : Reached reader folder before ran) :
    fates.map Prod.fst = folder.notes.map fun entry => Route.text entry.1 := by
  rw [← h.entries, List.map_map]
  exact (Result.map_eq_map (fun job found h => h.1.symm) hfates).symm

/-- When all jobs have come to their ends, each note has the fate that it deserves, as long as its
checksum stays. -/
theorem Reached.mem_fates_iff (h : Reached reader folder before ran) (hfolder : folder.IsDirectory)
    {index : Index}
    (hstays : ∀ entry ∈ folder.notes, SameAt (Route.text entry.1) ran.state.index index)
    {entry : Route × StoredFile} (hentry : entry ∈ folder.notes)
    {found : Fate} : (Route.text entry.1, found) ∈ fates ↔
      Deserves reader before index entry found := by
  obtain ⟨job, hjob, rfl⟩ := List.mem_map.1 (h.entries ▸ hentry)
  obtain ⟨⟨_, due⟩, hmem, rfl, hended⟩ := Result.exists_right_of_mem hfates hjob
  have hkeeps := h.keeps job hjob
  rw [hended] at hkeeps
  have hdeserves := Deserves.of_sameAt hkeeps (hstays job.1 hentry)
  constructor
  · intro hfound
    have hnodup : (fates.map Prod.fst).Nodup := h.map_fates hfates ▸ hfolder.nodup_texts
    cases List.inj_on_of_nodup_map hnodup hfound hmem rfl
    exact hdeserves
  · intro hfound
    rwa [hfound.eq hdeserves]

end Fates

theorem Gathers.accounts (hlabels : Labels parse) (hfolder : folder.IsDirectory)
    (hsound : state.index.Sound) (h : Gathers parse files reader folder state report after) :
    Accounts reader folder state.index report after.index ∧ after.index.Sound := by
  obtain ⟨ran, fates, hsteps, hfates, rfl, rfl⟩ := h
  have hreached := Reached.of_steps hlabels hfolder hsound hsteps
  have hstays := (hreached.sound.removeMissing folder).1
  have hswept := (hreached.sound.removeAll (ran.state.index.missing folder)).1
  have hparts := hreached.map_fates hfates ▸ perm_report fates (ran.state.index.missing folder)
    (ran.state.index.removeAll (ran.state.index.missing folder))
  refine ⟨?_, hswept⟩
  exact {
    parts := hparts
    apart := hparts.nodup_iff.2 hfolder.nodup_texts
    indexed := fun entry hentry =>
      mem_indexed_iff.trans (hreached.mem_fates_iff hfates hfolder hstays hentry)
    unchanged := fun entry hentry =>
      mem_unchanged_iff.trans (hreached.mem_fates_iff hfates hfolder hstays hentry)
    failed := fun entry hentry message =>
      mem_failed_iff.trans (hreached.mem_fates_iff hfates hfolder hstays hentry)
    removed := fun path => by
      refine mem_missing_iff.trans (and_congr_left fun hgone => ?_)
      simp only [paths, mem_sort]
      rw [← Table.keys, ← Table.keys, ← Table.isSome_lookup_iff, ← Table.isSome_lookup_iff,
        (hreached.others path hgone).files_eq]
    once := ((List.mergeSort_perm _ _).nodup_iff.2 hreached.sound.nodup_files).filter _
    total := by
      rw [total_report]
      simpa using congrArg List.length (hreached.map_fates hfates)
    taskCount := hswept.size_eq }

/-- The report on a directory, made after whatever else was indexed and in whatever order the jobs
for its notes take turns, accounts for the notes that a walk through the directory comes to. The
directory is as it is listed: the notes of a folder in it that cannot be listed count as gone. -/
theorem report_is_partition (indexer : Indexer) {folder : Folder} (hfolder : folder.IsDirectory)
    {state : State} (hsound : state.index.Sound) :
    folder.notes.Nodup ∧ folder.notes = folder.walk ∧
    (∀ entry, entry ∈ folder.notes ↔ entry ∈ folder ∧ Folder.IsShown entry.1 ∧
      Folder.IsNoteName (entry.1.getLastD [])) ∧
    (∀ report after, indexer.index folder state = .ok (report, after) →
      Gathers indexer.parse (indexer.files folder) indexer.reader folder state report after) ∧
    ∀ report after,
      Gathers indexer.parse (indexer.files folder) indexer.reader folder state report after →
      Accounts indexer.reader folder state.index report after.index ∧ after.index.Sound := by
  have hproper : Proper indexer.parse := proper_parseWith indexer.settings indexer.today
  refine ⟨(hfolder.inOrder _).nodup, hfolder.notes_eq_walk, fun entry => Folder.mem_notes_iff,
    fun report after h => ?_, fun report after h => ?_⟩
  · exact gathers_of_indexFolder hproper h
  · exact h.accounts hproper.labels hfolder hsound

/-- A file that is no text lies beside a note. -/
theorem report_is_partition_of_octet : (folderOf ⟨[0xff], 1⟩).IsDirectory ∧
    ({} : State).index.Sound ∧
    ∃ report after, plainIndexer.index (folderOf ⟨[0xff], 1⟩) {} = .ok (report, after) ∧
      Accounts plainIndexer.reader (folderOf ⟨[0xff], 1⟩) {} report after.index := by
  have hfolder : (folderOf ⟨[0xff], 1⟩).IsDirectory :=
    ((Folder.traced_empty _).after (List.Subset.refl _)).isDirectory
  obtain ⟨report, after, hrun⟩ := (@report_folderOf_iff ⟨[0xff], 1⟩).2 rfl
  obtain ⟨-, -, -, hgathers, haccounts⟩ :=
    @report_is_partition plainIndexer _ hfolder {} sound_empty
  exact ⟨hfolder, sound_empty, report, after, hrun,
    (haccounts report after (hgathers report after hrun)).1⟩

end Checklist.Index
