import Checklist.Project.File
import Checklist.Proofs.Except
import Checklist.Proofs.Folder

/-! # What is kept of project files

The data of a project file is kept with the time at which the file was written, and read again when
that time is another. Main statements: as long as what is kept stood in files that their places and
times tell apart, it makes no difference and stays so (`StoodIn.map_read_eq`, `StoodIn.read`); this
is so while no two writes of one file have one time (`read_of_backed`). -/

namespace Checklist.ProjectFile
set_option autoImplicit false
open Text

variable {load : Yaml.Loader}

/-! ## The data at a place -/

theorem mem_places_of_nearest? {rules : ProjectFileRules} {folder : Folder}
    {root note place : Route} {file : StoredFile}
    (h : nearest? rules folder root note = some (place, file)) :
    place ∈ places rules root note ∧ folder.file? place = some file := by
  unfold nearest? at h
  split at h
  · cases h
  · obtain ⟨other, hother, hfile⟩ := List.exists_of_findSome?_eq_some h
    obtain ⟨found, hfound, heq⟩ := Option.map_eq_some_iff.1 hfile
    cases heq
    exact ⟨hother, hfound⟩

theorem mem_of_nearest? {rules : ProjectFileRules} {folder : Folder}
    {root note place : Route} {file : StoredFile}
    (h : nearest? rules folder root note = some (place, file)) : (place, file) ∈ folder := by
  obtain ⟨before, rest, hsplit, -⟩ := List.lookup_eq_some_iff.1 (mem_places_of_nearest? h).2
  rw [hsplit]
  exact List.mem_append_right _ List.mem_cons_self

/-- The data in a project file at a place, or what is kept of it under the time of the file. -/
def dataWith (load : Yaml.Loader) (kept : Kept) (place : Route) (file : StoredFile) :
    Except Error (Option Entries) :=
  match (kept.lookup place).filter fun entry => entry.1 == file.modified with
  | some entry => .ok (some entry.2)
  | none => data load file

theorem map_read {rules : ProjectFileRules} (folder : Folder) (root note : Route) (kept : Kept)
    (henabled : rules.enabled = true) :
    (read load rules folder root note kept).map Prod.fst =
      match nearest? rules folder root note with
      | some (place, file) => dataWith load kept place file
      | none => .ok none := by
  unfold read dataWith
  rw [if_neg (by simp [henabled])]
  cases nearest? rules folder root note with
  | none => rfl
  | some found =>
    dsimp only
    cases (kept.lookup found.1).filter fun entry => entry.1 == found.2.modified with
    | some entry => rfl
    | none => cases data load found.2 with
      | error cause => rfl
      | ok entries? => cases entries? <;> rfl

/-- Reading keeps what was kept before, or puts the data of a file in the place of what was
kept of it. -/
theorem kept_of_read {rules : ProjectFileRules} {folder : Folder} {root note : Route}
    {kept after : Kept} {found : Option Entries}
    (h : read load rules folder root note kept = .ok (found, after)) : after = kept ∨
      ∃ place file entries, nearest? rules folder root note = some (place, file) ∧
        data load file = .ok (some entries) ∧
        dataWith load kept place file = .ok (some entries) ∧
          after = (place, file.modified, entries) :: kept.filter fun entry => entry.1 != place := by
  unfold read at h
  split at h
  · cases h
    exact .inl rfl
  · split at h
    · cases h
      exact .inl rfl
    · rename_i place file hnearest
      split at h
      · cases h
        exact .inl rfl
      · rename_i hentry
        split at h <;> cases h
        · exact .inl rfl
        · rename_i entries hdata
          exact .inr ⟨place, file, entries, hnearest, hdata, by rw [dataWith, hentry]; exact hdata, rfl⟩

/-! ## Where what is kept comes from -/

/-- What is kept stood in files that were once at their places. -/
def StoodIn (load : Yaml.Loader) (stood : Route → StoredFile → Prop) (kept : Kept) : Prop :=
  ∀ entry ∈ kept, ∃ file, stood entry.1 file ∧ file.modified = entry.2.1 ∧
    data load file = .ok (some entry.2.2)

section

variable {stood : Route → StoredFile → Prop} {kept : Kept} {rules : ProjectFileRules}
  {folder : Folder} {root note : Route}
  (hkept : StoodIn load stood kept)

include hkept

/-- While files of one place and one time are one file, what is kept of a file is what the
file holds. -/
theorem StoodIn.dataWith_eq (htimes : ∀ place file other, stood place file → stood place other →
    file.modified = other.modified → file = other)
    {place : Route} {file : StoredFile} (hfile : stood place file) :
    dataWith load kept place file = data load file := by
  unfold dataWith
  cases hentry : (kept.lookup place).filter fun entry => entry.1 == file.modified with
  | none => rfl
  | some entry =>
    obtain ⟨hlookup, htime⟩ := Option.filter_eq_some_iff.1 hentry
    obtain ⟨before, rest, hsplit, -⟩ := List.lookup_eq_some_iff.1 hlookup
    -- The entry is of a file that was here once, and the time of that file makes it this one.
    obtain ⟨other, hother, hmodified, hdata⟩ := hkept (place, entry) (by rw [hsplit]; simp)
    rw [htimes place file other hfile hother ((beq_iff_eq.1 htime).symm.trans hmodified.symm)]
    exact hdata.symm

/-- Then the data for a note are what they would be if nothing were kept. -/
theorem StoodIn.map_read_eq (htimes : ∀ place file other, stood place file → stood place other →
    file.modified = other.modified → file = other)
    (hnearest : ∀ place file, nearest? rules folder root note = some (place, file) → stood place file) :
    (read load rules folder root note kept).map Prod.fst =
      (read load rules folder root note []).map Prod.fst := by
  by_cases henabled : rules.enabled = true
  · rw [map_read _ _ _ _ henabled, map_read _ _ _ _ henabled]
    cases hfind : nearest? rules folder root note with
    | none => rfl
    | some found => exact hkept.dataWith_eq htimes (hnearest _ _ hfind)
  · unfold read
    rw [if_pos (by simp [henabled]), if_pos (by simp [henabled])]
    rfl

/-- What is kept after a reading stood in files as well. -/
theorem StoodIn.read (hnearest : ∀ place file,
    nearest? rules folder root note = some (place, file) → stood place file)
    {found : Option Entries} {after : Kept}
    (h : ProjectFile.read load rules folder root note kept = .ok (found, after)) :
    StoodIn load stood after := by
  rcases kept_of_read h with rfl | ⟨place, file, entries, hfind, hdata, -, rfl⟩
  · exact hkept
  · intro entry hmem
    rcases List.mem_cons.1 hmem with rfl | hmem
    · exact ⟨file, hnearest _ _ hfind, rfl, hdata⟩
    · exact hkept entry (List.mem_of_mem_filter hmem)

end

/-- What is kept stood in files that were written. -/
def Backed (load : Yaml.Loader) (edits : List Edit) (kept : Kept) : Prop :=
  ∀ entry ∈ kept, ∃ file, (entry.1, file) ∈ writes edits ∧ file.modified = entry.2.1 ∧
    data load file = .ok (some entry.2.2)

/-- The data for a note is what it would be if nothing were kept, and what is kept afterwards stood
in files as well. -/
theorem read_of_backed {edits : List Edit} {folder : Folder} {kept : Kept}
    (htimes : DistinctTimes edits) (hfolder : folder.Traced edits)
    (hkept : Backed load edits kept) (rules : ProjectFileRules) (root note : Route) :
    (read load rules folder root note kept).map Prod.fst =
      (read load rules folder root note []).map Prod.fst ∧
      ∀ found after, read load rules folder root note kept = .ok (found, after) →
        Backed load edits after := by
  have hstood : StoodIn load (fun place file => (place, file) ∈ writes edits) kept := hkept
  have hnearest : ∀ place file, nearest? rules folder root note = some (place, file) →
      (place, file) ∈ writes edits :=
    fun place file hfind => hfolder.written (mem_of_nearest? hfind)
  exact ⟨hstood.map_read_eq (fun _ _ _ hfile hother htime => htimes.eq hfile hother htime) hnearest,
    fun found after h => hstood.read hnearest h⟩

/-! ## One reading after another -/

theorem lookup_filter_of_ne {kept : Kept} {place other : Route} (h : other ≠ place) :
    (kept.filter fun entry => entry.1 != place).lookup other = kept.lookup other := by
  induction kept with
  | nil => rfl
  | cons entry kept ih =>
    by_cases hplace : entry.1 = place
    · rw [List.filter_cons_of_neg (by simp [hplace]), ih, List.lookup_cons,
        beq_false_of_ne (hplace ▸ h)]
    · rw [List.filter_cons_of_pos (by simpa using hplace), List.lookup_cons, List.lookup_cons, ih]

theorem dataWith_after {kept : Kept} {place : Route} {file : StoredFile} {entries : Entries}
    (h : dataWith load kept place file = .ok (some entries))
    {other : Route} {file' : StoredFile} (hfile : other = place → file' = file) :
    dataWith load ((place, file.modified, entries) :: kept.filter fun entry => entry.1 != place)
      other file' = dataWith load kept other file' := by
  by_cases hplace : other = place
  · subst hplace
    obtain rfl := hfile rfl
    rw [h, dataWith, List.lookup_cons_self]
    simp [Option.filter]
  · rw [dataWith, dataWith, List.lookup_cons, beq_false_of_ne hplace, lookup_filter_of_ne hplace]

theorem read_after_read {rules : ProjectFileRules} {folder : Folder} {root note : Route}
    {kept after : Kept} {found : Option Entries}
    (h : read load rules folder root note kept = .ok (found, after)) (other : Route) :
    (read load rules folder root other after).map Prod.fst =
      (read load rules folder root other kept).map Prod.fst := by
  by_cases henabled : rules.enabled = true
  · rw [map_read _ _ _ _ henabled, map_read _ _ _ _ henabled]
    rcases kept_of_read h with rfl | ⟨place, file, entries, hfind, -, hdata, rfl⟩
    · rfl
    · cases hnearest : nearest? rules folder root other with
      | none => rfl
      | some nearest =>
        refine dataWith_after hdata fun hplace => Option.some.inj ?_
        rw [← (mem_places_of_nearest? hfind).2, ← hplace, (mem_places_of_nearest? hnearest).2]
  · unfold read
    rw [if_pos (by simp [henabled]), if_pos (by simp [henabled])]
    rfl

/-! ## Fewer files -/

theorem lookup_filter_of_eq_none {folder : Folder} {place : Route} (h : folder.lookup place = none)
    (stays : Route × StoredFile → Bool) :
    (folder.filter stays).lookup place = none :=
  List.lookup_eq_none_iff.2 fun entry hentry =>
    List.lookup_eq_none_iff.1 h entry (List.mem_of_mem_filter hentry)

theorem lookup_filter_of_stays {folder : Folder} {place : Route} {file : StoredFile}
    (h : folder.lookup place = some file)
    {stays : Route × StoredFile → Bool} (hstays : stays (place, file) = true) :
    (folder.filter stays).lookup place = some file := by
  obtain ⟨before, after, rfl, hbefore⟩ := List.lookup_eq_some_iff.1 h
  refine List.lookup_eq_some_iff.2 ⟨before.filter stays, after.filter stays, ?_,
    fun entry hentry => hbefore entry (List.mem_of_mem_filter hentry)⟩
  rw [List.filter_append, List.filter_cons_of_pos hstays]

theorem nearest?_filter {rules : ProjectFileRules} {folder : Folder} {root note : Route}
    {stays : Route × StoredFile → Bool}
    (h : ∀ found, nearest? rules folder root note = some found → stays found = true) :
    nearest? rules (folder.filter stays) root note = nearest? rules folder root note := by
  unfold nearest? at h ⊢
  split
  · rfl
  · rename_i hfileName
    rw [if_neg hfileName] at h
    generalize places rules root note = routes at h ⊢
    induction routes with
    | nil => rfl
    | cons place routes ih =>
      rw [List.findSome?_cons] at h
      rw [List.findSome?_cons, List.findSome?_cons]
      cases hfile : folder.lookup place with
      | none =>
        rw [Folder.file?, hfile] at h
        rw [Folder.file?, Folder.file?, hfile, lookup_filter_of_eq_none hfile]
        exact ih h
      | some file =>
        rw [Folder.file?, hfile] at h
        rw [Folder.file?, Folder.file?, hfile, lookup_filter_of_stays hfile (h _ rfl)]
        rfl

end Checklist.ProjectFile
