import Checklist.Index.Folder
import Checklist.Proofs.Index.Freshness
import Checklist.Proofs.Project.Kept

/-! # What indexing a folder leaves behind

Indexing a folder updates the index with each note that can be read, in the order of the folder, and
removes the notes that are gone. Main statements: a run that returns leaves the notes that can be
read held, those that cannot be read as they were, and nothing of those that are gone
(`indexedFolder`), and it returns if every note has tasks or is reported (`indexFolder_returns`). -/

namespace Checklist.Index
set_option autoImplicit false
open Text

/-! ## Reading notes -/

/-- The note in a file with the data of its project file, nothing being kept of project files. -/
def reading (files : Option ProjectFiles) (reader : Reader) (entry : Route × StoredFile) :
    Except Error Note :=
  match reader.note entry with
  | .error cause => .error (.file cause)
  | .ok note =>
    (projectData reader.load files [] entry.1).map fun found => { note with file := found.1 }

/-- What is read from a file is under its place, and has the header that its content has. -/
theorem Reader.note_eq_ok {reader : Reader} {entry : Route × StoredFile} {note : Note}
    (h : reader.note entry = .ok note) :
    ∃ header, Header.read reader.load note.content = .ok header ∧ note.header = some header ∧
      note.path = Route.text entry.1 ∧ note.file = none := by
  unfold Reader.note Note.ofFile at h
  split at h
  · cases h
  · obtain ⟨header, hheader, rfl⟩ := Result.map_eq_ok.1 h
    exact ⟨header, Result.mapError_eq_ok.1 hheader, rfl, rfl, rfl⟩

theorem Reader.path_note {reader : Reader} {entry : Route × StoredFile} {note : Note}
    (h : reader.note entry = .ok note) :
    note.path = Route.text entry.1 := by
  obtain ⟨header, -, -, hpath, -⟩ := Reader.note_eq_ok h
  exact hpath

theorem Reader.file_note {reader : Reader} {entry : Route × StoredFile} {note : Note}
    (h : reader.note entry = .ok note) :
    note.file = none := by
  obtain ⟨header, -, -, -, hfile⟩ := Reader.note_eq_ok h
  exact hfile

theorem path_reading {files : Option ProjectFiles} {reader : Reader} {entry : Route × StoredFile}
    {note : Note} (h : reading files reader entry = .ok note) : note.path = Route.text entry.1 := by
  unfold reading at h
  split at h
  · cases h
  · rename_i found hfound
    obtain ⟨data, -, rfl⟩ := Result.map_eq_ok.1 h
    have hpath : found.path = Route.text entry.1 := Reader.path_note hfound
    exact hpath

theorem projectData_ne_file (load : Yaml.Loader) (files : Option ProjectFiles)
    (kept : ProjectFile.Kept) (route : Route)
    (cause : Note.FileError) : projectData load files kept route ≠ .error (.file cause) := by
  cases files with
  | none => simp [projectData]
  | some files =>
    rw [projectData]
    cases ProjectFile.read load files.rules files.folder files.root route kept <;>
      simp [Except.mapError]

theorem map_projectData (load : Yaml.Loader) (files : ProjectFiles)
    (kept : ProjectFile.Kept) (route : Route) :
    (projectData load (some files) kept route).map Prod.fst =
      ((ProjectFile.read load files.rules files.folder files.root route kept).map Prod.fst).mapError
        .projectFile := by
  rw [projectData]
  cases ProjectFile.read load files.rules files.folder files.root route kept <;> rfl

theorem reading_ne_file {files : Option ProjectFiles} {reader : Reader} {entry : Route × StoredFile}
    {note : Note} (h : reader.note entry = .ok note) (cause : Note.FileError) :
    reading files reader entry ≠ .error (.file cause) := by
  rw [reading, h]
  dsimp only
  cases hdata : projectData reader.load files [] entry.1 with
  | ok found => simp [Except.map]
  | error other =>
    rintro ⟨⟩
    exact projectData_ne_file reader.load files [] entry.1 cause hdata

section Run

variable {edits : List Edit} {files : Option ProjectFiles} (htimes : DistinctTimes edits)
  (hfiles : ∀ found, files = some found → found.folder.Traced edits)

include htimes hfiles

theorem projectData_of_backed {load : Yaml.Loader} {kept : ProjectFile.Kept}
    (hkept : ProjectFile.Backed load edits kept) (route : Route) :
    (projectData load files kept route).map Prod.fst =
      (projectData load files [] route).map Prod.fst ∧
      ∀ found after, projectData load files kept route = .ok (found, after) →
        ProjectFile.Backed load edits after := by
  cases files with
  | none =>
    refine ⟨rfl, fun found after h => ?_⟩
    cases h
    exact hkept
  | some files =>
    obtain ⟨hsame, hafter⟩ :=
      ProjectFile.read_of_backed htimes (hfiles files rfl) hkept files.rules files.root route
    exact ⟨by rw [map_projectData, map_projectData, hsame],
      fun found after h => hafter found after (Result.mapError_eq_ok.1 h)⟩

/-- A note is indexed with what a reading of it finds, whatever is kept of project files. -/
theorem indexFile_eq (parse : Parse) (reader : Reader) {state : State}
    (hkept : ProjectFile.Backed reader.load edits state.kept) (entry : Route × StoredFile) :
    (∀ cause, reading files reader entry = .error cause → indexFile parse files reader state entry =
      (.error cause, state)) ∧
    ∀ note, reading files reader entry = .ok note → ∃ kept,
      ProjectFile.Backed reader.load edits kept ∧
      indexFile parse files reader state entry =
        ((state.index.update parse note).1, ⟨(state.index.update parse note).2, kept⟩) := by
  obtain ⟨hsame, hafter⟩ := projectData_of_backed htimes hfiles hkept entry.1
  unfold reading indexFile
  cases reader.note entry with
  | error cause => simp
  | ok note =>
    dsimp only
    cases hdata : projectData reader.load files state.kept entry.1 with
    | error cause =>
      rw [hdata] at hsame
      cases hplain : projectData reader.load files [] entry.1 with
      | error other =>
        rw [hplain] at hsame
        cases hsame
        simp [Except.map]
      | ok found =>
        rw [hplain] at hsame
        cases hsame
    | ok found =>
      rw [hdata] at hsame
      cases hplain : projectData reader.load files [] entry.1 with
      | error other =>
        rw [hplain] at hsame
        cases hsame
      | ok plain =>
        rw [hplain] at hsame
        obtain ⟨data, kept⟩ := found
        have hfound : data = plain.1 := Except.ok.inj hsame
        refine ⟨fun cause h => by simp [Except.map] at h, fun other h => ?_⟩
        obtain rfl : { note with file := plain.1 } = other := Except.ok.inj h
        exact ⟨kept, hafter data kept hdata, by rw [← hfound]⟩

end Run

/-! ## Updates that run alone -/

theorem update_eq (parse : Parse) (index : Index) (note : Note) : index.update parse note =
    match note.checksum with
    | .error cause => (.error (.checksum cause), (index.nextVersion note.path).2)
    | .ok checksum =>
      if index.checksums.lookup note.path = some checksum then
        (.ok (some (index.tasksOf note.path)), (index.nextVersion note.path).2)
      else match parse note with
        | .error cause => (.error cause, (index.nextVersion note.path).2)
        | .ok tasks =>
          (.ok (some tasks), (index.nextVersion note.path).2.store note.path checksum tasks) := by
  have hcurrent : ∀ checksum, (index.nextVersion note.path).2.isOvertaken
      ⟨note, (index.nextVersion note.path).1, checksum⟩ = false := by
    simp [isOvertaken, versions_nextVersion]
  unfold update
  dsimp only
  rw [start_update_snd]
  cases hchecksum : note.checksum with
  | error cause =>
    rw [start_update_fst_of_error hchecksum]
    rfl
  | ok checksum =>
    rw [start_update_fst index hchecksum]
    dsimp only
    by_cases hlookup : index.checksums.lookup note.path = some checksum
    · rw [if_pos hlookup, if_pos hlookup]
      rfl
    · rw [if_neg hlookup, if_neg hlookup]
      cases hparse : parse note with
      | error cause => simp [complete, hparse]
      | ok tasks => simp [complete, hparse, finish, hcurrent]

theorem update_of_succeeds {parse : Parse} (index : Index) {note : Note}
    {checksum : Text} {tasks : List Task} (h : Session.Succeeds parse note checksum tasks) :
    index.update parse note = if index.checksums.lookup note.path = some checksum
      then (.ok (some (index.tasksOf note.path)), (index.nextVersion note.path).2)
      else (.ok (some tasks), (index.nextVersion note.path).2.store note.path checksum tasks) := by
  rw [update_eq, h.checksum_eq, h.parse_eq]

theorem update_isOk_iff {parse : Parse} {index : Index} {note : Note} :
    (∃ result, (index.update parse note).1 = .ok result) ↔
    ∃ checksum, note.checksum = .ok checksum ∧
      (index.checksums.lookup note.path = some checksum ∨ ∃ tasks, parse note = .ok tasks) := by
  rw [update_eq]
  cases note.checksum with
  | error cause => simp
  | ok checksum =>
    by_cases hlookup : index.checksums.lookup note.path = some checksum
    · simp [hlookup]
    · cases parse note <;> simp [hlookup]

/-! ## Indexes that hold what was read -/

/-- Every checksum comes with the tasks of a note that was read, and there is nothing else. -/
structure Knows (parse : Parse) (known : List Note) (index : Index) : Prop where
  sound : index.Sound
  backed : ∀ path checksum, index.checksums.lookup path = some checksum →
    ∃ note ∈ known, ∃ tasks, note.path = path ∧ Session.Succeeds parse note checksum tasks ∧
      Session.Holds index path checksum tasks

/-- The index holds the tasks of a note. -/
def HoldsNote (parse : Parse) (index : Index) (note : Note) : Prop :=
  ∃ checksum tasks, Session.Succeeds parse note checksum tasks ∧
    Session.Holds index note.path checksum tasks

theorem HoldsNote.of_sameAt {parse : Parse} {before after : Index} {note : Note}
    (h : HoldsNote parse before note)
    (hsame : SameAt note.path before after) : HoldsNote parse after note := by
  obtain ⟨checksum, tasks, hsucceeds, hholds⟩ := h
  exact ⟨checksum, tasks, hsucceeds, hholds.of_sameAt hsame⟩

/-- What one update changes: the note is held afterwards, and all others are as before. -/
structure Updated (parse : Parse) (note : Note) (before after : Index) : Prop where
  sound : after.Sound
  holds : HoldsNote parse after note
  same : ∀ path, path ≠ note.path → SameAt path before after

theorem updated_of_succeeds {parse : Parse} (hlabels : Labels parse) {index : Index}
    (hsound : index.Sound) {note : Note} {checksum : Text}
    {tasks : List Task} (h : Session.Succeeds parse note checksum tasks)
    (hheld : index.checksums.lookup note.path = some checksum →
      Session.Holds index note.path checksum tasks) :
    Updated parse note index (index.update parse note).2 := by
  have hversion := sameAt_nextVersion index note.path
  have hlabelled := hlabels note tasks h.parse_eq
  rw [update_of_succeeds index h]
  split
  · rename_i hlookup
    exact ⟨hsound.nextVersion _, ⟨checksum, tasks, h, (hheld hlookup).of_sameAt (hversion _)⟩,
      fun path _ => hversion path⟩
  · have hnext := hsound.nextVersion note.path
    exact ⟨hnext.store checksum hlabelled,
      ⟨checksum, tasks, h, Session.holds_store _ checksum hlabelled⟩,
      fun path hne => (hversion path).trans (hnext.sameAt_store checksum hlabelled hne)⟩

theorem Knows.updated {parse : Parse} {known : List Note} {before after : Index}
    (h : Knows parse known before) {note : Note}
    (hnote : note ∈ known) (hupdated : Updated parse note before after) :
    Knows parse known after := by
  refine ⟨hupdated.sound, fun path checksum hchecksum => ?_⟩
  by_cases hpath : path = note.path
  · subst hpath
    obtain ⟨found, tasks, hsucceeds, hholds⟩ := hupdated.holds
    obtain rfl : found = checksum := Option.some.inj (hholds.checksum_eq.symm.trans hchecksum)
    exact ⟨note, hnote, tasks, rfl, hsucceeds, hholds⟩
  · have hsame := hupdated.same path hpath
    rw [hsame.checksum_eq] at hchecksum
    obtain ⟨earlier, hearlier, tasks, heq, hsucceeds, hholds⟩ := h.backed path checksum hchecksum
    exact ⟨earlier, hearlier, tasks, heq, hsucceeds, hholds.of_sameAt hsame⟩

/-- Notes with one checksum have one parse result. -/
abbrev ChecksumsDecide (parse : Parse) (known : List Note) : Prop :=
  Session.ChecksumsDecide parse (known.map Change.update)

theorem ChecksumsDecide.eq {parse : Parse} {known : List Note} (h : ChecksumsDecide parse known)
    {first second : Note} (hfirst : first ∈ known)
    (hsecond : second ∈ known) (hpath : first.path = second.path) {checksum : Text}
    (hchecksum : first.checksum = .ok checksum)
    (hchecksum' : second.checksum = .ok checksum) : parse first = parse second :=
  h first second (List.mem_map_of_mem hfirst) (List.mem_map_of_mem hsecond)
    hpath checksum hchecksum hchecksum'

theorem Knows.update {parse : Parse} (hlabels : Labels parse) {known : List Note}
    (hdecide : ChecksumsDecide parse known) {index : Index}
    (h : Knows parse known index) {note : Note} (hnote : note ∈ known) {result : Option (List Task)}
    (hresult : (index.update parse note).1 = .ok result) :
    Updated parse note index (index.update parse note).2 := by
  obtain ⟨checksum, hchecksum, hlookup | ⟨tasks, hparse⟩⟩ := update_isOk_iff.1 ⟨_, hresult⟩
  · obtain ⟨earlier, hearlier, tasks, hpath, hsucceeds, hholds⟩ :=
      h.backed note.path checksum hlookup
    have hsame := hdecide.eq hearlier hnote hpath hsucceeds.checksum_eq hchecksum
    exact updated_of_succeeds hlabels h.sound ⟨hchecksum, hsame ▸ hsucceeds.parse_eq⟩ fun _ =>
      hholds
  · refine updated_of_succeeds hlabels h.sound ⟨hchecksum, hparse⟩ fun hlookup => ?_
    obtain ⟨earlier, hearlier, found, hpath, hsucceeds, hholds⟩ :=
      h.backed note.path checksum hlookup
    have hsame := hdecide.eq hearlier hnote hpath hsucceeds.checksum_eq hchecksum
    obtain rfl : found = tasks := Except.ok.inj (hsucceeds.parse_eq.symm.trans (hsame.trans hparse))
    exact hholds

/-! ## Entries of a folder -/

/-- A way to find tasks that labels them with their notes and does not blame a file
when it fails. -/
structure Proper (parse : Parse) : Prop where
  labels : Labels parse
  blames : ∀ note cause, parse note ≠ .error (.file cause)

theorem proper_parseWith (settings : Settings) (today : Date) :
    Proper (parseWith settings today) := by
  refine ⟨labels_parseWith settings today, fun note cause => ?_⟩
  rw [parseWith]
  cases note.tasks settings today <;> simp [Except.mapError]

theorem update_ne_file {parse : Parse} (hproper : Proper parse) (index : Index) (note : Note)
    (cause : Note.FileError) :
    (index.update parse note).1 ≠ .error (.file cause) := by
  rw [update_eq]
  cases note.checksum with
  | error failure => simp
  | ok checksum =>
    by_cases hlookup : index.checksums.lookup note.path = some checksum
    · simp [hlookup]
    · cases hparse : parse note with
      | error other =>
        simp only [hlookup, if_false]
        rintro ⟨⟩
        exact hproper.blames note cause hparse
      | ok tasks => simp [hlookup]

theorem exists_of_fate_update {parse : Parse} (hproper : Proper parse) {before index : Index}
    {note : Note} {path : Text} {found : Fate}
    (h : fate before (index.update parse note).2 path (index.update parse note).1 = .ok found) :
    ∃ result, (index.update parse note).1 = .ok result := by
  cases hresult : (index.update parse note).1 with
  | ok result => exact ⟨result, rfl⟩
  | error cause =>
    rw [hresult] at h
    cases cause with
    | file reported => exact absurd hresult (update_ne_file hproper index note reported)
    | _ => cases h

/-- What indexing some entries of a folder comes to: the notes that can be read are held, what
cannot be read is reported, and all other notes are as before. -/
structure Indexed (parse : Parse) (files : Option ProjectFiles) (reader : Reader) (entries : Folder)
    (before after : Index) : Prop where
  held : ∀ entry ∈ entries, ∀ note, reading files reader entry = .ok note →
    HoldsNote parse after note
  failed : ∀ entry ∈ entries, ∀ cause, reading files reader entry = .error cause → ∃ reported,
    cause = .file reported ∧ reported.isReported = true
  same : ∀ path, (∀ entry ∈ entries, ∀ note, reading files reader entry = .ok note →
    note.path ≠ path) → SameAt path before after

theorem indexed_nil (parse : Parse) (files : Option ProjectFiles) (reader : Reader)
    (index : Index) : Indexed parse files reader [] index index :=
  ⟨by simp, by simp, fun path _ => .refl path index⟩

theorem indexed_singleton {parse : Parse} {files : Option ProjectFiles} {reader : Reader}
    {entry : Route × StoredFile} {before after : Index}
    (hheld : ∀ note, reading files reader entry = .ok note → HoldsNote parse after note)
    (hfailed : ∀ cause, reading files reader entry = .error cause → ∃ reported,
      cause = .file reported ∧ reported.isReported = true)
    (hsame : ∀ path, (∀ note, reading files reader entry = .ok note → note.path ≠ path) →
      SameAt path before after) :
    Indexed parse files reader [entry] before after where
  held := fun _ hother => List.mem_singleton.1 hother ▸ hheld
  failed := fun _ hother => List.mem_singleton.1 hother ▸ hfailed
  same := fun path hpath => hsame path (hpath entry List.mem_cons_self)

theorem Indexed.cons {parse : Parse} {files : Option ProjectFiles} {reader : Reader}
    {entry : Route × StoredFile} {rest : Folder}
    {first second third : Index} (h : Indexed parse files reader [entry] first second)
    (hrest : Indexed parse files reader rest second third)
    (hnew : ∀ other ∈ rest, Route.text other.1 ≠ Route.text entry.1) :
    Indexed parse files reader (entry :: rest) first third where
  held := by
    intro other hother note hnote
    rcases List.mem_cons.1 hother with rfl | hother
    · refine (h.held other List.mem_cons_self note hnote).of_sameAt
        (hrest.same _ fun later hlater found hfound => ?_)
      rw [path_reading hfound, path_reading hnote]
      exact hnew later hlater
    · exact hrest.held other hother note hnote
  failed := by
    intro other hother cause hcause
    rcases List.mem_cons.1 hother with rfl | hother
    · exact h.failed other List.mem_cons_self cause hcause
    · exact hrest.failed other hother cause hcause
  same := by
    intro path hpath
    refine (h.same path fun other hother => ?_).trans
      (hrest.same path fun other hother => hpath other (List.mem_cons_of_mem _ hother))
    rw [List.mem_singleton.1 hother]
    exact hpath entry List.mem_cons_self

section Entries

variable {edits : List Edit} {files : Option ProjectFiles} (htimes : DistinctTimes edits)
  (hfiles : ∀ found, files = some found → found.folder.Traced edits) {parse : Parse}
    (hproper : Proper parse) {known : List Note}
  (hdecide : ChecksumsDecide parse known) {reader : Reader}

include htimes hfiles hproper hdecide

theorem indexed_indexEntry {before : Index} {state : State} (hknows : Knows parse known state.index)
    (hkept : ProjectFile.Backed reader.load edits state.kept) {entry : Route × StoredFile}
    (hread : ∀ note, reading files reader entry = .ok note → note ∈ known) {found : Fate}
    (h : (indexEntry parse files reader before state entry).1.2 = .ok found) :
    let after := (indexEntry parse files reader before state entry).2
    Indexed parse files reader [entry] state.index after.index ∧ Knows parse known after.index ∧
        ProjectFile.Backed reader.load edits after.kept := by
  obtain ⟨hfailed, hfound⟩ := indexFile_eq htimes hfiles parse reader hkept entry
  cases hreading : reading files reader entry with
  | error cause =>
    have hindex := hfailed cause hreading
    simp only [indexEntry, hindex] at h ⊢
    have hreported : ∃ reported, cause = .file reported ∧ reported.isReported = true := by
      cases cause with
      | file reported =>
        refine ⟨reported, rfl, ?_⟩
        by_contra hnot
        simp [fate, hnot] at h
      | _ => cases h
    refine ⟨indexed_singleton (fun note hnote => ?_) (fun other hother => ?_) fun path _ =>
      .refl path _, hknows, hkept⟩
    · cases hreading.symm.trans hnote
    · cases hreading.symm.trans hother
      exact hreported
  | ok note =>
    obtain ⟨kept, hbacked, hindex⟩ := hfound note hreading
    simp only [indexEntry, hindex] at h ⊢
    obtain ⟨result, hresult⟩ := exists_of_fate_update hproper h
    have hupdated := hknows.update hproper.labels hdecide (hread note hreading) hresult
    refine ⟨indexed_singleton (fun other hother => ?_) (fun cause hcause => ?_) fun path hpath =>
      hupdated.same path (hpath note hreading).symm,
      hknows.updated (hread note hreading) hupdated, hbacked⟩
    · cases hreading.symm.trans hother
      exact hupdated.holds
    · cases hreading.symm.trans hcause

theorem indexed_through {before : Index} {entries : Folder}
    (hnodup : (entries.map fun entry => Route.text entry.1).Nodup)
    (hread : ∀ entry ∈ entries, ∀ note, reading files reader entry = .ok note → note ∈ known)
    {state : State} (hknows : Knows parse known state.index)
    (hkept : ProjectFile.Backed reader.load edits state.kept)
    (hreturns : ∀ result ∈ (through (indexEntry parse files reader before) state entries).1,
      ∃ found, result.2 = .ok found) :
    let after := (through (indexEntry parse files reader before) state entries).2
    Indexed parse files reader entries state.index after.index ∧ Knows parse known after.index ∧
        ProjectFile.Backed reader.load edits after.kept := by
  induction entries generalizing state with
  | nil => exact ⟨indexed_nil parse files reader state.index, hknows, hkept⟩
  | cons entry rest ih =>
    obtain ⟨hnew, hrest⟩ := List.nodup_cons.1 hnodup
    obtain ⟨found, hfound⟩ := hreturns _ List.mem_cons_self
    obtain ⟨hone, hknows, hkept⟩ :=
      indexed_indexEntry htimes hfiles hproper hdecide hknows hkept
        (hread entry List.mem_cons_self) hfound
    obtain ⟨hmore, hknows, hkept⟩ :=
      ih hrest (fun other hother => hread other (List.mem_cons_of_mem _ hother)) hknows hkept
      fun result hresult => hreturns result (List.mem_cons_of_mem _ hresult)
    exact ⟨hone.cons hmore fun other hother heq => hnew (List.mem_map.2 ⟨other, hother, heq⟩),
      hknows, hkept⟩

end Entries

/-! ## Notes that are gone -/

def removeAll (index : Index) (paths : List Text) : Index :=
  paths.foldl (fun index path => (index.remove path).2) index

theorem Sound.removeAll {index : Index} (h : index.Sound) (paths : List Text) :
    (index.removeAll paths).Sound ∧
      (∀ path, path ∉ paths → SameAt path index (index.removeAll paths)) ∧
      ∀ path, path ∈ paths ∨ index.files.lookup path = none →
        (index.removeAll paths).files.lookup path = none := by
  induction paths generalizing index with
  | nil => exact ⟨h, fun path _ => .refl path index,
      fun path hpath => hpath.resolve_left List.not_mem_nil⟩
  | cons gone rest ih =>
    have hsame := fun {path : Text} (hne : path ≠ gone) => h.sameAt_remove hne
    obtain ⟨hsound, hkeeps, hdrops⟩ := ih (h.remove gone)
    refine ⟨hsound, fun path hpath => ?_, fun path hpath => hdrops path ?_⟩
    · rw [List.mem_cons, not_or] at hpath
      exact (hsame hpath.1).trans (hkeeps path hpath.2)
    · by_cases hne : path = gone
      · exact .inr (hne ▸ files_remove_self index gone)
      · refine hpath.imp (fun hmem => (List.mem_cons.1 hmem).resolve_left hne) fun hnone => ?_
        rw [(hsame hne).files_eq]
        exact hnone

theorem Sound.checksum_eq_none {index : Index} (h : index.Sound) {path : Text}
    (hnone : index.files.lookup path = none) :
    index.checksums.lookup path = none := by
  rw [Table.lookup_eq_none_iff, h.checked, ← Table.lookup_eq_none_iff]
  exact hnone

theorem Knows.removeAll {parse : Parse} {known : List Note} {index : Index}
    (h : Knows parse known index) (paths : List Text) :
    Knows parse known (index.removeAll paths) := by
  obtain ⟨hsound, hkeeps, hdrops⟩ := h.sound.removeAll paths
  refine ⟨hsound, fun path checksum hchecksum => ?_⟩
  have hpath : path ∉ paths := by
    intro hmem
    rw [hsound.checksum_eq_none (hdrops path (.inl hmem))] at hchecksum
    cases hchecksum
  rw [(hkeeps path hpath).checksum_eq] at hchecksum
  obtain ⟨note, hnote, tasks, heq, hsucceeds, hholds⟩ := h.backed path checksum hchecksum
  exact ⟨note, hnote, tasks, heq, hsucceeds, hholds.of_sameAt (hkeeps path hpath)⟩

def missing (index : Index) (folder : Folder) : List Text :=
  index.paths.filter fun path => !folder.notes.any fun entry => Route.text entry.1 == path

theorem mem_missing_iff {index : Index} {folder : Folder} {path : Text} :
    path ∈ index.missing folder ↔ path ∈ index.paths ∧ ∀ entry ∈ folder.notes,
      Route.text entry.1 ≠ path := by
  simp [missing]

theorem Sound.removeMissing {index : Index} (h : index.Sound) (folder : Folder) :
    (∀ entry ∈ folder.notes,
      SameAt (Route.text entry.1) index (index.removeAll (index.missing folder))) ∧
      ∀ path, (∀ entry ∈ folder.notes, Route.text entry.1 ≠ path) →
        (index.removeAll (index.missing folder)).files.lookup path = none := by
  obtain ⟨-, hkeeps, hdrops⟩ := h.removeAll (index.missing folder)
  refine ⟨fun entry hentry => hkeeps _ fun hmissing =>
    (mem_missing_iff.1 hmissing).2 entry hentry rfl, fun path hpath => hdrops path ?_⟩
  cases hids : index.files.lookup path with
  | none => exact .inr rfl
  | some ids =>
    exact .inl
      (mem_missing_iff.2 ⟨mem_sort.2 (Table.isSome_lookup_iff.1 (by rw [hids]; rfl)), hpath⟩)

/-! ## Whole folders -/

/-- What indexing a folder comes to: the notes that can be read are held, those that cannot be read
are reported and held as before, and nothing is held of notes that are not there. -/
structure IndexedFolder (parse : Parse) (files : Option ProjectFiles) (reader : Reader)
    (folder : Folder) (before after : Index) : Prop where
  held : ∀ entry ∈ folder.notes, ∀ note, reading files reader entry = .ok note →
    HoldsNote parse after note
  failed : ∀ entry ∈ folder.notes, ∀ cause, reading files reader entry = .error cause →
    SameAt (Route.text entry.1) before after ∧ ∃ reported, cause = .file reported ∧
      reported.isReported = true
  gone : ∀ path, (∀ entry ∈ folder.notes, Route.text entry.1 ≠ path) →
    after.files.lookup path = none

/-- A run that returns gave every note a fate, reported that, and removed what is gone. -/
theorem indexFolder_eq_ok {parse : Parse} {files : Option ProjectFiles} {reader : Reader}
    {folder : Folder} {state after : State}
    {report : Report} (h : indexFolder parse files reader folder state = .ok (report, after)) :
    let ran := through (indexEntry parse files reader state.index) state folder.notes
    ∃ fates, List.Forall₂ (fun result found => found.1 = result.1 ∧
      result.2 = .ok found.2) ran.1 fates ∧
      report = Index.report fates (ran.2.index.missing folder)
        (ran.2.index.removeAll (ran.2.index.missing folder)) ∧
      after = ⟨ran.2.index.removeAll (ran.2.index.missing folder), ran.2.kept⟩ := by
  obtain ⟨fates, hfates, hdone⟩ := Result.bind_eq_ok.1 h
  obtain ⟨rfl, rfl⟩ := Prod.mk.inj (Except.ok.inj hdone)
  refine ⟨fates, (Result.mapM_eq_ok.1 hfates).imp fun result found hfound => ?_, rfl, rfl⟩
  obtain ⟨_, hfate, rfl⟩ := Result.map_eq_ok.1 hfound
  exact ⟨rfl, hfate⟩

theorem exists_indexFolder {parse : Parse} {files : Option ProjectFiles} {reader : Reader}
    {folder : Folder} {state : State}
    (h : ∀ result ∈ (through (indexEntry parse files reader state.index) state folder.notes).1,
      ∃ found, result.2 = .ok found) :
    ∃ report after, indexFolder parse files reader folder state = .ok (report, after) := by
  obtain ⟨fates, hfates⟩ :=
    (@Result.mapM_isOk_iff _ _ _ (fun result : Text × Except Error Fate => result.2.map fun fate =>
      (result.1, fate))
    (through (indexEntry parse files reader state.index) state folder.notes).1).2
    fun result hresult => Result.map_isOk_iff.2 (h result hresult)
  exact ⟨_, _, Result.bind_eq_ok.2 ⟨fates, hfates, rfl⟩⟩

/-- The note in a file has tasks, or is reported as one that cannot be read. -/
def Returns (parse : Parse) (files : Option ProjectFiles) (reader : Reader)
    (entry : Route × StoredFile) : Prop :=
  (∃ note checksum tasks, reading files reader entry = .ok note ∧
    Session.Succeeds parse note checksum tasks) ∨
    ∃ cause, reading files reader entry = .error (.file cause) ∧ cause.isReported = true

section Returns

variable {edits : List Edit} {files : Option ProjectFiles} (htimes : DistinctTimes edits)
  (hfiles : ∀ found, files = some found → found.folder.Traced edits) {parse : Parse} {reader : Reader}

include htimes hfiles

theorem returns_indexEntry {before : Index} {state : State}
    (hkept : ProjectFile.Backed reader.load edits state.kept) {entry : Route × StoredFile}
    (h : Returns parse files reader entry) :
    (∃ found, (indexEntry parse files reader before state entry).1.2 = .ok found) ∧
      ProjectFile.Backed reader.load edits
        (indexEntry parse files reader before state entry).2.kept := by
  obtain ⟨hfailed, hfound⟩ := indexFile_eq htimes hfiles parse reader hkept entry
  rcases h with ⟨note, checksum, tasks, hnote, hsucceeds⟩ | ⟨cause, hcause, hreported⟩
  · obtain ⟨kept, hbacked, hindex⟩ := hfound note hnote
    simp only [indexEntry, hindex]
    refine ⟨?_, hbacked⟩
    rw [update_of_succeeds _ hsucceeds]
    split <;> exact ⟨_, rfl⟩
  · simp only [indexEntry, hfailed _ hcause]
    exact ⟨⟨.failed cause.message, if_pos hreported⟩, hkept⟩

/-- A folder is indexed if every note of it has tasks or is reported as one that cannot be read. -/
theorem indexFolder_returns {folder : Folder}
    (hall : ∀ entry ∈ folder.notes, Returns parse files reader entry)
    {state : State} (hkept : ProjectFile.Backed reader.load edits state.kept) :
    ∃ report after, indexFolder parse files reader folder state = .ok (report, after) := by
  refine exists_indexFolder ?_
  generalize state.index = before
  generalize folder.notes = entries at hall
  induction entries generalizing state with
  | nil => exact fun result hresult => absurd hresult List.not_mem_nil
  | cons entry rest ih =>
    obtain ⟨hfound, hkept⟩ := returns_indexEntry htimes hfiles hkept (hall entry List.mem_cons_self)
    intro result hresult
    rcases List.mem_cons.1 hresult with rfl | hresult
    · exact hfound
    · exact ih hkept (fun other hother => hall other (List.mem_cons_of_mem _ hother)) result hresult

end Returns

section Folder

variable {edits : List Edit} {files : Option ProjectFiles} (htimes : DistinctTimes edits)
  (hfiles : ∀ found, files = some found → found.folder.Traced edits)
    {parse : Parse} (hproper : Proper parse)
  {reader : Reader} {folder : Folder} (hfolder : folder.Traced edits)

include htimes hfiles hproper hfolder

theorem indexedFolder {known : List Note} (hdecide : ChecksumsDecide parse known)
    (hread : ∀ entry ∈ folder.notes, ∀ note, reading files reader entry = .ok note → note ∈ known)
    {state : State} (hknows : Knows parse known state.index)
    (hkept : ProjectFile.Backed reader.load edits state.kept) {report : Report} {after : State}
    (h : indexFolder parse files reader folder state = .ok (report, after)) :
    IndexedFolder parse files reader folder state.index after.index ∧
      Knows parse known after.index ∧ ProjectFile.Backed reader.load edits after.kept := by
  obtain ⟨fates, hfates, -, rfl⟩ := indexFolder_eq_ok h
  have hreturns :
      ∀ result ∈ (through (indexEntry parse files reader state.index) state folder.notes).1,
      ∃ found, result.2 = .ok found := by
    intro result hresult
    obtain ⟨found, -, -, hfound⟩ := Result.exists_right_of_mem hfates hresult
    exact ⟨found.2, hfound⟩
  obtain ⟨hindexed, hknows, hkept⟩ :=
    indexed_through htimes hfiles hproper hdecide hfolder.nodup_texts hread hknows hkept hreturns
  generalize through (indexEntry parse files reader state.index) state folder.notes =
    ran at hindexed hknows hkept
  obtain ⟨hthere, hgone⟩ := hknows.sound.removeMissing folder
  refine ⟨⟨fun entry hentry note hnote => ?_, fun entry hentry cause hcause =>
    ⟨?_, hindexed.failed entry hentry cause hcause⟩, hgone⟩,
    hknows.removeAll _, hkept⟩
  · refine (hindexed.held entry hentry note hnote).of_sameAt ?_
    rw [path_reading hnote]
    exact hthere entry hentry
  · refine (hindexed.same _ fun other hother note hnote heq => ?_).trans (hthere entry hentry)
    -- the notes of a folder have paths of their own, so the note that is read is another one
    rw [path_reading hnote] at heq
    have hsame : other = entry := List.inj_on_of_nodup_map hfolder.nodup_texts hother hentry heq
    rw [hsame, hcause] at hnote
    cases hnote

end Folder

end Checklist.Index
