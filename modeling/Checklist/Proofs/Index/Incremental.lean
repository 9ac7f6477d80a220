import Checklist.Proofs.Index.Folder
import Checklist.Proofs.Index.Unchanged

/-! # Indexing again and again

A folder is edited and indexed in turns, with what an index and the reader of project files keep
from run to run. Main statement: after the last run the index holds for every note that can be read
what a new index of the folder holds, and nothing for notes that are gone (`incremental_eq_fresh`).
A note that can no longer be read stays as it was, while a new index has nothing of it
(`unreadable_note_stays`). -/

namespace Checklist.Index
set_option autoImplicit false
open Text

/-- How a folder is indexed: the settings and the day for its notes, and where project files are
looked for, if they are. -/
structure Indexer where
  settings : Settings
  today : Date
  projectFiles : Option (ProjectFileRules × Route) := none
  reader : Reader := {}

/-- A folder with its index and what is kept of project files. -/
structure Indexing where
  folder : Folder := []
  state : State := {}

namespace Indexer

def parse (indexer : Indexer) : Parse :=
  parseWith indexer.settings indexer.today

/-- Where the project files of a folder are looked for. -/
def files (indexer : Indexer) (folder : Folder) : Option ProjectFiles :=
  indexer.projectFiles.map fun found => ⟨found.1, folder, found.2⟩

/-- The note in a file of a folder with the data of its project file. -/
def reading (indexer : Indexer) (folder : Folder) (entry : Route × StoredFile) :
    Except Error Note :=
  Index.reading (indexer.files folder) indexer.reader entry

/-- The notes that can be read in a folder. -/
def readings (indexer : Indexer) (folder : Folder) : List Note :=
  folder.notes.filterMap fun entry => (indexer.reading folder entry).toOption

/-- All notes that are read when a folder is edited batch by batch and read after each. -/
def readingsOf (indexer : Indexer) (folder : Folder) : List (List Edit) → List Note
  | [] => []
  | edits :: rest =>
    indexer.readings (folder.after edits) ++ indexer.readingsOf (folder.after edits) rest

/-- Edits a folder and indexes it. -/
def run (indexer : Indexer) (indexing : Indexing) (edits : List Edit) : Except Error Indexing :=
  let folder := indexing.folder.after edits
  (indexFolder indexer.parse (indexer.files folder) indexer.reader folder indexing.state).map
    fun found => ⟨folder, found.2⟩

/-- Edits and indexes a folder, empty at first, batch by batch. -/
def runs (indexer : Indexer) (batches : List (List Edit)) : Except Error Indexing :=
  batches.foldlM indexer.run {}

/-- Indexes a folder with a new index. -/
def fresh (indexer : Indexer) (folder : Folder) : Except Error Indexing :=
  indexer.run ⟨folder, {}⟩ []

/-- The note in a file can be read. -/
def CanRead (indexer : Indexer) (entry : Route × StoredFile) : Prop :=
  ∃ note, indexer.reader.note entry = .ok note

/-! ## One run -/

/-- What is known between runs. -/
structure Tracked (indexer : Indexer) (edits : List Edit) (known : List Note)
    (indexing : Indexing) : Prop where
  traced : indexing.folder.Traced edits
  knows : Knows indexer.parse known indexing.state.index
  backed : ProjectFile.Backed indexer.reader.load edits indexing.state.kept

theorem tracked_empty (indexer : Indexer) (edits : List Edit) (known : List Note) :
    indexer.Tracked edits known {} where
  traced := Folder.traced_empty edits
  knows := ⟨sound_empty, fun path checksum h => by cases h⟩
  backed := fun entry h => by cases h

abbrev Ran (indexer : Indexer) (before after : Indexing) : Prop :=
  IndexedFolder indexer.parse (indexer.files after.folder) indexer.reader after.folder
    before.state.index after.state.index

theorem folder_of_files {indexer : Indexer} {folder : Folder} {found : ProjectFiles}
    (h : indexer.files folder = some found) :
    found.folder = folder := by
  obtain ⟨rules, -, rfl⟩ := Option.map_eq_some_iff.1 h
  rfl

theorem mem_readings {indexer : Indexer} {folder : Folder} {entry : Route × StoredFile}
    {note : Note} (hentry : entry ∈ folder.notes)
    (h : indexer.reading folder entry = .ok note) : note ∈ indexer.readings folder :=
  List.mem_filterMap.2 ⟨entry, hentry, by rw [h]; rfl⟩

theorem run_eq_ok {indexer : Indexer} {before after : Indexing} {batch : List Edit}
    (h : indexer.run before batch = .ok after) :
    after.folder = before.folder.after batch ∧
      ∃ report, indexFolder indexer.parse (indexer.files after.folder)
        indexer.reader after.folder before.state =
        .ok (report, after.state) := by
  obtain ⟨⟨report, state⟩, hindex, rfl⟩ := Result.map_eq_ok.1 h
  exact ⟨rfl, report, hindex⟩

section Runs

variable {indexer : Indexer} {edits : List Edit} (htimes : DistinctTimes edits) {known : List Note}
  (hdecide : ChecksumsDecide indexer.parse known)

include htimes hdecide

theorem Tracked.run {before after : Indexing} (h : indexer.Tracked edits known before)
    {batch : List Edit} (hbatch : batch ⊆ edits)
    (hread : indexer.readings (before.folder.after batch) ⊆ known)
    (hrun : indexer.run before batch = .ok after) :
    indexer.Tracked edits known after ∧ indexer.Ran before after := by
  obtain ⟨hfolder, report, hindex⟩ := run_eq_ok hrun
  have htraced : after.folder.Traced edits := hfolder ▸ h.traced.after hbatch
  obtain ⟨hran, hknows, hbacked⟩ :=
    indexedFolder htimes (fun found hfound => folder_of_files hfound ▸ htraced)
    (proper_parseWith indexer.settings indexer.today) htraced hdecide
    (fun entry hentry note hnote => hread (hfolder ▸ mem_readings hentry hnote)) h.knows h.backed hindex
  exact ⟨⟨htraced, hknows, hbacked⟩, hran⟩

theorem Tracked.runs {before after : Indexing} (h : indexer.Tracked edits known before)
    {batches : List (List Edit)}
    (hbatches : batches.flatten ⊆ edits) (hread : indexer.readingsOf before.folder batches ⊆ known)
    (hruns : batches.foldlM indexer.run before = .ok after) :
    indexer.Tracked edits known after ∧ after.folder = before.folder.after batches.flatten := by
  induction batches generalizing before with
  | nil =>
    cases hruns
    exact ⟨h, rfl⟩
  | cons batch rest ih =>
    rw [List.foldlM_cons] at hruns
    obtain ⟨next, hnext, hrest⟩ := Result.bind_eq_ok.1 hruns
    have hfolder := (run_eq_ok hnext).1
    rw [List.flatten_cons, List.append_subset] at hbatches
    rw [readingsOf, List.append_subset] at hread
    obtain ⟨htracked, -⟩ := h.run htimes hdecide hbatches.1 hread.1 hnext
    obtain ⟨htracked, hafter⟩ := ih htracked hbatches.2 (hfolder ▸ hread.2) hrest
    refine ⟨htracked, ?_⟩
    rw [hafter, hfolder, List.flatten_cons, Folder.after_append]

end Runs
end Indexer

/-! ## Indexes that hold the same -/

theorem Sound.eq_of_sameAt {first second : Index} (h : first.Sound) (h' : second.Sound)
    (hsame : ∀ path, SameAt path first second) :
    second.paths = first.paths ∧ second.toList = first.toList ∧ ∀ id,
      second.task? id = first.task? id := by
  have hpaths : second.paths = first.paths := by
    refine List.Perm.eq_of_pairwise (fun s t _ _ => Text.le_antisymm)
      (pairwise_sort _) (pairwise_sort _) ?_
    rw [List.perm_ext_iff_of_nodup (h'.pairwise_paths.imp And.left) (h.pairwise_paths.imp And.left)]
    intro path
    rw [paths, paths, mem_sort, mem_sort]
    have hkeys := @Table.isSome_lookup_iff _ second.files path
    rw [(hsame path).files_eq] at hkeys
    exact hkeys.symm.trans Table.isSome_lookup_iff
  have hlist : second.toList = first.toList := by
    rw [toList, toList, hpaths]
    exact List.flatMap_congr fun path _ => (hsame path).tasks_eq
  refine ⟨hpaths, hlist, fun id => Option.ext fun task => ?_⟩
  have hlisted : ∀ {index : Index}, index.Sound →
      (index.task? id = some task ↔ task.id = id ∧ task ∈ index.toList) := by
    intro index hsound
    refine ⟨fun hlookup => ?_, fun hmem => ?_⟩
    · have hid := (hsound.owned id task hlookup).1
      exact ⟨hid, hsound.mem_toList_iff.2 (hid.symm ▸ hlookup)⟩
    · exact hmem.1 ▸ hsound.mem_toList_iff.1 hmem.2
  rw [hlisted h', hlisted h, hlist]

theorem HoldsNote.sameAt {parse : Parse} {first second : Index} {note : Note}
    (h : HoldsNote parse first note)
    (h' : HoldsNote parse second note) : SameAt note.path first second := by
  obtain ⟨checksum, tasks, hsucceeds, hholds⟩ := h
  obtain ⟨checksum', tasks', hsucceeds', hholds'⟩ := h'
  obtain rfl : checksum = checksum' :=
    Except.ok.inj (hsucceeds.checksum_eq.symm.trans hsucceeds'.checksum_eq)
  obtain rfl : tasks = tasks' := Except.ok.inj (hsucceeds.parse_eq.symm.trans hsucceeds'.parse_eq)
  exact ⟨hholds'.files_eq.trans hholds.files_eq.symm, hholds'.tasks_eq.trans hholds.tasks_eq.symm,
    hholds'.checksum_eq.trans hholds.checksum_eq.symm⟩

theorem Sound.sameAt_of_none {first second : Index} (h : first.Sound)
    (h' : second.Sound) {path : Text}
    (hnone : first.files.lookup path = none) (hnone' : second.files.lookup path = none) :
    SameAt path first second := by
  refine ⟨hnone'.trans hnone.symm, ?_,
    (h'.checksum_eq_none hnone').trans (h.checksum_eq_none hnone).symm⟩
  rw [tasksOf_of_lookup_eq_none hnone, tasksOf_of_lookup_eq_none hnone']

/-! ## The last run and a new index -/

namespace Indexer

theorem readingsOf_append (indexer : Indexer) (folder : Folder) (before : List (List Edit))
    (edits : List Edit) :
    indexer.readingsOf folder (before ++ [edits]) =
      indexer.readingsOf folder before ++
        indexer.readings ((folder.after before.flatten).after edits) := by
  induction before generalizing folder with
  | nil => simp [readingsOf, Folder.after]
  | cons batch rest ih =>
    rw [List.cons_append, readingsOf, ih, readingsOf, List.flatten_cons,
      Folder.after_append, List.append_assoc]

theorem exists_reading {indexer : Indexer} {before after : Indexing}
    (hran : indexer.Ran before after) {entry : Route × StoredFile}
    (hentry : entry ∈ after.folder.notes) (h : indexer.CanRead entry) :
    ∃ note, indexer.reading after.folder entry = .ok note := by
  cases hreading : indexer.reading after.folder entry with
  | ok note => exact ⟨note, rfl⟩
  | error cause =>
    obtain ⟨-, reported, rfl, -⟩ := hran.failed entry hentry cause hreading
    obtain ⟨note, hnote⟩ := h
    exact absurd hreading (reading_ne_file hnote reported)

theorem exists_cause {indexer : Indexer} {folder : Folder} {entry : Route × StoredFile}
    (h : ¬indexer.CanRead entry) :
    ∃ cause, indexer.reading folder entry = .error cause := by
  cases hnote : indexer.reader.note entry with
  | ok note => exact absurd ⟨note, hnote⟩ h
  | error cause => exact ⟨.file cause, by rw [reading, Index.reading, hnote]⟩

def Returns (indexer : Indexer) (folder : Folder) (entry : Route × StoredFile) : Prop :=
  Index.Returns indexer.parse (indexer.files folder) indexer.reader entry

theorem exists_run {indexer : Indexer} {edits : List Edit} (htimes : DistinctTimes edits)
    {known : List Note} {before : Indexing}
    (htracked : indexer.Tracked edits known before) {batch : List Edit} (hbatch : batch ⊆ edits)
    (hall : ∀ entry ∈ (before.folder.after batch).notes,
      indexer.Returns (before.folder.after batch) entry) :
    ∃ after, indexer.run before batch = .ok after := by
  obtain ⟨report, state, hindex⟩ := indexFolder_returns htimes
    (fun found hfound => folder_of_files hfound ▸ htracked.traced.after hbatch) hall htracked.backed
  exact ⟨⟨before.folder.after batch, state⟩, Result.map_eq_ok.2 ⟨(report, state), hindex, rfl⟩⟩

theorem Tracked.renew {indexer : Indexer} {edits : List Edit}
    {known : List Note} {indexing : Indexing} (h : indexer.Tracked edits known indexing) :
    indexer.Tracked edits known ⟨indexing.folder, {}⟩ :=
  ⟨h.traced, (indexer.tracked_empty edits known).knows, (indexer.tracked_empty edits known).backed⟩

theorem exists_fresh {indexer : Indexer} {edits : List Edit} (htimes : DistinctTimes edits)
    {known : List Note} {before after : Indexing}
    (htracked : indexer.Tracked edits known after) (hran : indexer.Ran before after) :
    ∃ fresh, indexer.fresh after.folder = .ok fresh := by
  refine exists_run htimes htracked.renew (List.nil_subset _) fun entry hentry => ?_
  have hentry : entry ∈ after.folder.notes := hentry
  cases hreading : indexer.reading after.folder entry with
  | ok note =>
    obtain ⟨checksum, tasks, hsucceeds, -⟩ := hran.held entry hentry note hreading
    exact .inl ⟨note, checksum, tasks, hreading, hsucceeds⟩
  | error cause =>
    obtain ⟨-, reported, rfl, hreported⟩ := hran.failed entry hentry cause hreading
    exact .inr ⟨reported, hreading, hreported⟩

/-! ## Checksums of readings -/

variable {indexer : Indexer}

theorem exists_of_mem_readingsOf {folder : Folder} {batches : List (List Edit)} {note : Note}
    (h : note ∈ indexer.readingsOf folder batches) :
    ∃ folder entry, indexer.reading folder entry = .ok note := by
  induction batches generalizing folder with
  | nil => cases h
  | cons batch rest ih =>
    rcases List.mem_append.1 h with h | h
    · obtain ⟨entry, -, hentry⟩ := List.mem_filterMap.1 h
      exact ⟨_, entry, Result.toOption_eq_some.1 hentry⟩
    · exact ih h

/-- Where no project files are looked for, what is read from a file is the note in it. -/
theorem note_of_reading (hnone : indexer.projectFiles = none) {folder : Folder}
    {entry : Route × StoredFile} {note : Note}
    (h : indexer.reading folder entry = .ok note) : indexer.reader.note entry = .ok note := by
  have hfiles : indexer.files folder = none := by rw [files, hnone, Option.map_none]
  rw [reading, hfiles, Index.reading] at h
  cases hnote : indexer.reader.note entry with
  | error cause =>
    rw [hnote] at h
    cases h
  | ok found =>
    rw [hnote] at h
    have hsame : { found with file := none } = note := Except.ok.inj h
    rw [← hsame, ← Reader.file_note hnote]

/-- Where no project files are looked for, all that comes with a note is its header, which its
content determines. So the checksums of what is read decide if the digests do. -/
theorem checksumsDecide_of_digests (hnone : indexer.projectFiles = none) (folder : Folder)
    (batches : List (List Edit)) (hdigests : ∀ first ∈ indexer.readingsOf folder batches,
      ∀ second ∈ indexer.readingsOf folder batches,
      first.path = second.path → Note.DigestsDecide first second) :
    ChecksumsDecide indexer.parse (indexer.readingsOf folder batches) := by
  intro first second hfirst hsecond hpath checksum hchecksum hchecksum'
  obtain ⟨_, hfirst, ⟨⟩⟩ := List.mem_map.1 hfirst
  obtain ⟨_, hsecond, ⟨⟩⟩ := List.mem_map.1 hsecond
  obtain ⟨_, entry, hread⟩ := exists_of_mem_readingsOf hfirst
  obtain ⟨_, other, hread'⟩ := exists_of_mem_readingsOf hsecond
  obtain ⟨header, hheader, hgiven, -, hfile⟩ := Reader.note_eq_ok (note_of_reading hnone hread)
  obtain ⟨header', hheader', hgiven', -, hfile'⟩ := Reader.note_eq_ok (note_of_reading hnone hread')
  have hcontent :=
    (Note.same_of_checksum (hdigests first hfirst second hsecond hpath) hchecksum hchecksum').1
  obtain rfl : header = header' := Except.ok.inj (hheader.symm.trans (hcontent ▸ hheader'))
  have hsame : first = second := by
    cases first
    cases second
    rw [Note.mk.injEq]
    exact ⟨hpath, hcontent, hgiven.trans hgiven'.symm, hfile.trans hfile'.symm⟩
  rw [hsame]

end Indexer

/-- A folder is edited and indexed in turns, and every run returns. After the last run a new index
can be made of the folder, and for each note the old one holds what the new one does: nothing if the
note is gone, and the same ids, tasks and checksum if its file can be read. Of a note that cannot be
read the new index holds nothing, and the old one what it held before the run. So if every note can
be read, both list the same notes and the same tasks. The checksums decide where the data of the
notes are told apart by their texts (`Session.Discerned.checksumsDecide`), and without project files
where the digests are (`checksumsDecide_of_digests`). -/
theorem incremental_eq_fresh (indexer : Indexer) (before : List (List Edit)) (edits : List Edit)
    (htimes : DistinctTimes (before ++ [edits]).flatten)
    (hdecide : ChecksumsDecide indexer.parse (indexer.readingsOf [] (before ++ [edits])))
    {first last : Indexing} (hbefore : indexer.runs before = .ok first)
    (hrun : indexer.run first edits = .ok last) :
    ∃ fresh, indexer.fresh last.folder = .ok fresh ∧
      (∀ path, (∀ entry ∈ last.folder.notes, Route.text entry.1 ≠ path) →
        last.state.index.files.lookup path = none ∧ fresh.state.index.files.lookup path = none) ∧
      (∀ entry ∈ last.folder.notes, indexer.CanRead entry →
        SameAt (Route.text entry.1) fresh.state.index last.state.index ∧
          (fresh.state.index.files.lookup (Route.text entry.1)).isSome = true) ∧
      (∀ entry ∈ last.folder.notes, ¬indexer.CanRead entry →
        SameAt (Route.text entry.1) first.state.index last.state.index ∧
          fresh.state.index.files.lookup (Route.text entry.1) = none) ∧
      ((∀ entry ∈ last.folder.notes, indexer.CanRead entry) →
        last.state.index.paths = fresh.state.index.paths ∧
          last.state.index.toList = fresh.state.index.toList ∧
          ∀ id, last.state.index.task? id = fresh.state.index.task? id) := by
  obtain ⟨htracked, hfolder⟩ :=
    (indexer.tracked_empty (before ++ [edits]).flatten _).runs htimes hdecide
    (by simp) (by simp [Indexer.readingsOf_append]) hbefore
  have hedited : last.folder = first.folder.after edits := (Indexer.run_eq_ok hrun).1
  have hread : indexer.readings last.folder ⊆ indexer.readingsOf [] (before ++ [edits]) := by
    rw [Indexer.readingsOf_append, hedited, hfolder]
    exact List.subset_append_right _ _
  obtain ⟨htracked, hran⟩ := htracked.run htimes hdecide (by simp) (hedited ▸ hread) hrun
  obtain ⟨fresh, hfresh⟩ := Indexer.exists_fresh htimes htracked hran
  obtain ⟨hfreshTracked, hfreshRan⟩ :=
    htracked.renew.run htimes hdecide (List.nil_subset _) hread hfresh
  have hsame : fresh.folder = last.folder := (Indexer.run_eq_ok hfresh).1
  have hgone : ∀ path, (∀ entry ∈ last.folder.notes, Route.text entry.1 ≠ path) →
      last.state.index.files.lookup path = none ∧ fresh.state.index.files.lookup path = none :=
    fun path hpath => ⟨hran.gone path hpath, hfreshRan.gone path (hsame.symm ▸ hpath)⟩
  have hheld : ∀ entry ∈ last.folder.notes, indexer.CanRead entry →
      SameAt (Route.text entry.1) fresh.state.index last.state.index ∧
          (fresh.state.index.files.lookup (Route.text entry.1)).isSome = true := by
    intro entry hentry hcan
    obtain ⟨note, hnote⟩ := Indexer.exists_reading hran hentry hcan
    have hholds := hran.held entry hentry note hnote
    have hholds' := hfreshRan.held entry (hsame.symm ▸ hentry) note (hsame.symm ▸ hnote)
    rw [← path_reading hnote]
    refine ⟨hholds'.sameAt hholds, ?_⟩
    obtain ⟨checksum, tasks, -, hfound⟩ := hholds'
    rw [hfound.files_eq]
    rfl
  refine ⟨fresh, hfresh, hgone, hheld, fun entry hentry hcannot => ?_, fun hall => ?_⟩
  · obtain ⟨cause, hcause⟩ := Indexer.exists_cause hcannot
    have hempty := (hfreshRan.failed entry (hsame.symm ▸ hentry) cause (hsame.symm ▸ hcause)).1
    exact ⟨(hran.failed entry hentry cause hcause).1, hempty.files_eq⟩
  · refine hfreshTracked.knows.sound.eq_of_sameAt htracked.knows.sound fun path => ?_
    by_cases hthere : ∃ entry ∈ last.folder.notes, Route.text entry.1 = path
    · obtain ⟨entry, hentry, rfl⟩ := hthere
      exact (hheld entry hentry (hall entry hentry)).1
    · obtain ⟨hlast, hnew⟩ := hgone path fun entry hentry heq => hthere ⟨entry, hentry, heq⟩
      exact hfreshTracked.knows.sound.sameAt_of_none htracked.knows.sound hnew hlast

section Example

def plainIndexer : Indexer :=
  { settings := {}, today := ⟨2024, 3, 13, rfl⟩ }

def textFile (content : Text) (time : Int) : StoredFile :=
  ⟨utf8 content, time⟩

def plainNote (content : Text) : Note :=
  { path := "n.md".toList, content := content, header := some [] }

theorem evidence_plainNote (content : Text) :
    (plainNote content).evidence = .ok (content ++ '\n' :: "[\x7b\x7d, null]".toList) := by
  have hsort : Json.sortEntries? [] = some [] := by simp [Json.sortEntries?]
  simp only [Note.evidence, plainNote, Note.orNull, Json.writeAt, Json.writeItems,
    Json.writeEntries, Json.writeMembers, hsort, bind, Except.bind,
    pure, Except.pure, Json.bracket_canonical]
  rfl

theorem succeeds_plainNote {content : Text}
    (h : (plainIndexer.parse (plainNote content)).toOption.isSome = true) :
    ∃ checksum tasks, Session.Succeeds plainIndexer.parse (plainNote content) checksum tasks := by
  cases htasks : plainIndexer.parse (plainNote content) with
  | error cause => simp [htasks, Except.toOption] at h
  | ok tasks => exact ⟨_, tasks, congrArg (Except.map _) (evidence_plainNote content), htasks⟩

theorem notes_singleton {route : Route} (h : Folder.isNote route = true) (file : StoredFile) :
    Folder.notes [(route, file)] = [(route, file)] := by
  simp [Folder.notes, h]

def writeNote (file : StoredFile) : Edit :=
  .write "n.md".toList file

def noteFolder (file : StoredFile) : Folder :=
  [(["n.md".toList], file)]

theorem after_rewriteNote (old new : StoredFile) :
    (noteFolder old).after [writeNote new] = noteFolder new := by
  rfl

theorem notes_noteFolder (file : StoredFile) : (noteFolder file).notes = noteFolder file :=
  notes_singleton (by decide +kernel) file

theorem distinctTimes_rewrite {old new : StoredFile} (h : old.modified ≠ new.modified) :
    DistinctTimes ([[writeNote old]] ++ [[writeNote new]]).flatten := by
  have hwrites : writes ([[writeNote old]] ++ [[writeNote new]]).flatten =
      [(["n.md".toList], old), (["n.md".toList], new)] := rfl
  rw [DistinctTimes, hwrites]
  exact List.pairwise_pair.2 fun _ => h

theorem readingsOf_rewrite (old new : StoredFile) :
    plainIndexer.readingsOf [] ([[writeNote old]] ++ [[writeNote new]]) =
      plainIndexer.readings (noteFolder old) ++ plainIndexer.readings (noteFolder new) := by
  rw [Indexer.readingsOf_append, Indexer.readingsOf, Indexer.readingsOf, List.append_nil]
  rfl

/-- A note is rewritten between two runs. Both return, and so does the run of a new index. -/
theorem exists_rewrite {old new : StoredFile} (htime : old.modified ≠ new.modified)
    (hdecide : ChecksumsDecide plainIndexer.parse
      (plainIndexer.readingsOf [] ([[writeNote old]] ++ [[writeNote new]])))
    (hall : ∀ file, file = old ∨ file = new →
      plainIndexer.Returns (noteFolder file) (["n.md".toList], file)) :
    ∃ first last fresh, plainIndexer.runs [[writeNote old]] = .ok first ∧
      plainIndexer.run first [writeNote new] = .ok last ∧
      plainIndexer.fresh last.folder = .ok fresh ∧ first.folder = noteFolder old ∧
        last.folder = noteFolder new ∧
      fresh.folder = noteFolder new ∧ plainIndexer.Ran {} first ∧ plainIndexer.Ran first last ∧
        plainIndexer.Ran {} fresh := by
  have htimes := distinctTimes_rewrite htime
  rw [readingsOf_rewrite] at hdecide
  have hreturns : ∀ file, file = old ∨ file = new → ∀ entry ∈ (noteFolder file).notes,
      plainIndexer.Returns (noteFolder file) entry := by
    intro file hfile entry hentry
    rw [notes_noteFolder] at hentry
    rw [List.mem_singleton.1 hentry]
    exact hall file hfile
  obtain ⟨first, hfirst⟩ := Indexer.exists_run htimes (plainIndexer.tracked_empty _
    (plainIndexer.readings (noteFolder old) ++ plainIndexer.readings (noteFolder new)))
    (List.subset_append_left [writeNote old] [writeNote new]) (hreturns old (.inl rfl))
  have hfolder : first.folder = noteFolder old := (Indexer.run_eq_ok hfirst).1
  obtain ⟨htracked, hran⟩ := (plainIndexer.tracked_empty _ _).run htimes hdecide
    (List.subset_append_left [writeNote old] [writeNote new]) (List.subset_append_left _ _) hfirst
  have hafter : first.folder.after [writeNote new] = noteFolder new :=
    hfolder ▸ after_rewriteNote old new
  obtain ⟨last, hlast⟩ :=
    Indexer.exists_run htimes htracked (List.subset_append_right [writeNote old] [writeNote new])
    (hafter.symm ▸ hreturns new (.inr rfl))
  obtain ⟨htracked', hran'⟩ :=
    htracked.run htimes hdecide (List.subset_append_right [writeNote old] [writeNote new])
    (hafter.symm ▸ List.subset_append_right _ _) hlast
  have hfolder' : last.folder = noteFolder new := (Indexer.run_eq_ok hlast).1.trans hafter
  obtain ⟨fresh, hfresh⟩ := Indexer.exists_fresh htimes htracked' hran'
  have hran'' :=
    (htracked'.renew.run htimes hdecide (List.nil_subset _)
      (hfolder'.symm ▸ List.subset_append_right _ _) hfresh).2
  refine ⟨first, last, fresh, ?_, hlast, hfresh, hfolder, hfolder',
    (Indexer.run_eq_ok hfresh).1.trans hfolder', hran, hran', hran''⟩
  rw [Indexer.runs, List.foldlM_cons, hfirst]
  rfl

theorem readings_noteFolder {file : StoredFile} {note : Note}
    (h : plainIndexer.reading (noteFolder file) (["n.md".toList], file) = .ok note) :
    plainIndexer.readings (noteFolder file) = [note] := by
  rw [Indexer.readings, notes_noteFolder, noteFolder, List.filterMap_cons, ← noteFolder, h]
  rfl

/-- A note is rewritten between two runs. -/
theorem incremental_eq_fresh_of_rewrite :
    let old := writeNote (textFile "- [ ] old".toList 1)
    let new := writeNote (textFile "- [ ] new".toList 2)
    DistinctTimes ([[old]] ++ [[new]]).flatten ∧
      ChecksumsDecide plainIndexer.parse (plainIndexer.readingsOf [] ([[old]] ++ [[new]])) ∧
      ∃ first last fresh, plainIndexer.runs [[old]] = .ok first ∧
        plainIndexer.run first [new] = .ok last ∧
        plainIndexer.fresh last.folder = .ok fresh ∧
            last.state.index.toList = fresh.state.index.toList := by
  intro old new
  have hold : plainIndexer.reading (noteFolder (textFile "- [ ] old".toList 1))
      (["n.md".toList], textFile "- [ ] old".toList 1) =
      .ok (plainNote "- [ ] old".toList) := rfl
  have hnew : plainIndexer.reading (noteFolder (textFile "- [ ] new".toList 2))
      (["n.md".toList], textFile "- [ ] new".toList 2) =
      .ok (plainNote "- [ ] new".toList) := rfl
  have hdiffer : (plainNote "- [ ] old".toList).checksum ≠
      (plainNote "- [ ] new".toList).checksum := by
    rw [Note.checksum, Note.checksum, evidence_plainNote, evidence_plainNote]
    decide +kernel
  have hdecide : ChecksumsDecide plainIndexer.parse
      (plainIndexer.readingsOf [] ([[old]] ++ [[new]])) := by
    refine Indexer.checksumsDecide_of_digests rfl _ _ ?_
    rw [readingsOf_rewrite, readings_noteFolder hold, readings_noteFolder hnew]
    intro first hfirst second hsecond _
    rcases List.mem_pair.1 hfirst with rfl | rfl <;> rcases List.mem_pair.1 hsecond with rfl | rfl
    · exact .refl _
    · exact Note.digestsDecide_of_ne hdiffer
    · exact Note.digestsDecide_of_ne hdiffer.symm
    · exact .refl _
  have hreturns : ∀ file, file = textFile "- [ ] old".toList 1 ∨
      file = textFile "- [ ] new".toList 2 →
      plainIndexer.Returns (noteFolder file) (["n.md".toList], file) := by
    rintro file (rfl | rfl)
    · obtain ⟨checksum, tasks, hsucceeds⟩ :=
        @succeeds_plainNote "- [ ] old".toList (by decide +kernel)
      exact .inl ⟨_, checksum, tasks, hold, hsucceeds⟩
    · obtain ⟨checksum, tasks, hsucceeds⟩ :=
        @succeeds_plainNote "- [ ] new".toList (by decide +kernel)
      exact .inl ⟨_, checksum, tasks, hnew, hsucceeds⟩
  obtain ⟨first, last, -, hfirst, hlast, -, -, hfolder, -⟩ :=
    exists_rewrite (show (1 : Int) ≠ 2 by decide) hdecide hreturns
  have htimes : DistinctTimes ([[old]] ++ [[new]]).flatten :=
    distinctTimes_rewrite (show (1 : Int) ≠ 2 by decide)
  obtain ⟨fresh, hfresh, -, -, -, hsame⟩ :=
    incremental_eq_fresh plainIndexer [[old]] [new] htimes hdecide hfirst hlast
  refine ⟨htimes, hdecide, first, last, fresh, hfirst, hlast, hfresh,
    (hsame fun entry hentry => ?_).2.1⟩
  rw [hfolder, notes_noteFolder] at hentry
  rw [List.mem_singleton.1 hentry]
  exact ⟨_, rfl⟩

/-- A note is overwritten with what is no text. The index keeps its tasks, and a new
index has none. -/
theorem unreadable_note_stays :
    let good := writeNote (textFile "- [ ] a".toList 1)
    let bad := writeNote ⟨[0xff], 2⟩
    DistinctTimes ([[good]] ++ [[bad]]).flatten ∧
      ∃ first last fresh, plainIndexer.runs [[good]] = .ok first ∧
        plainIndexer.run first [bad] = .ok last ∧
        plainIndexer.fresh last.folder = .ok fresh ∧
        (last.state.index.files.lookup "n.md".toList).isSome = true ∧
          last.state.index.tasksOf "n.md".toList ≠ [] ∧
        fresh.state.index.files.lookup "n.md".toList = none ∧
            fresh.state.index.tasksOf "n.md".toList = [] := by
  intro good bad
  have hgood : plainIndexer.reading (noteFolder (textFile "- [ ] a".toList 1))
      (["n.md".toList], textFile "- [ ] a".toList 1) =
      .ok (plainNote "- [ ] a".toList) := rfl
  have hbad : plainIndexer.reading (noteFolder ⟨[0xff], 2⟩) (["n.md".toList], ⟨[0xff], 2⟩) =
      .error (.file (.notText "n.md".toList)) := rfl
  have hparse : ((plainIndexer.parse (plainNote "- [ ] a".toList)).toOption.map fun tasks =>
      tasks.isEmpty) = some false := by
    decide +kernel
  obtain ⟨checksum, tasks, hsucceeds⟩ := @succeeds_plainNote "- [ ] a".toList (by decide +kernel)
  have hread : plainIndexer.readingsOf [] ([[good]] ++ [[bad]]) = [plainNote "- [ ] a".toList] := by
    rw [readingsOf_rewrite, readings_noteFolder hgood, Indexer.readings, notes_noteFolder,
      noteFolder, List.filterMap_cons, ← noteFolder, hbad]
    rfl
  have hdecide : ChecksumsDecide plainIndexer.parse
      (plainIndexer.readingsOf [] ([[good]] ++ [[bad]])) := by
    refine Indexer.checksumsDecide_of_digests rfl _ _ ?_
    rw [hread]
    intro first hfirst second hsecond _
    rw [List.mem_singleton.1 hfirst, List.mem_singleton.1 hsecond]
    exact .refl _
  have htime : (textFile "- [ ] a".toList 1).modified ≠ (StoredFile.mk [0xff] 2).modified :=
    show (1 : Int) ≠ 2 by decide
  obtain ⟨first, last, fresh, hfirst, hlast, hfresh, hfolder, hfolder', hfolder'', hran, hran',
      hran''⟩ := exists_rewrite htime hdecide (by
    rintro file (rfl | rfl)
    · exact .inl ⟨_, checksum, tasks, hgood, hsucceeds⟩
    · exact .inr ⟨_, hbad, rfl⟩)
  have hentry : ∀ file, (["n.md".toList], file) ∈ (noteFolder file).notes := by
    intro file
    rw [notes_noteFolder]
    exact List.mem_singleton_self _
  -- the first run stores the note, the second one leaves it, and a new index starts from nothing
  obtain ⟨checksum', tasks', hsucceeds', hholds⟩ :=
    (hran.held _ (hfolder ▸ hentry _) _ (hfolder ▸ hgood)).of_sameAt
    (hran'.failed _ (hfolder' ▸ hentry _) _ (hfolder' ▸ hbad)).1
  have hempty := (hran''.failed _ (hfolder'' ▸ hentry _) _ (hfolder'' ▸ hbad)).1
  refine ⟨distinctTimes_rewrite htime, first, last, fresh, hfirst, hlast, hfresh, ?_, ?_,
    hempty.files_eq, hempty.tasks_eq⟩
  · exact hholds.files_eq ▸ rfl
  · intro hnone
    obtain rfl : tasks' = [] := hholds.tasks_eq.symm.trans hnone
    rw [hsucceeds'.parse_eq] at hparse
    cases hparse

end Example

end Checklist.Index
