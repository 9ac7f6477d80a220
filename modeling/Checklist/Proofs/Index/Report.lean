import Checklist.Proofs.Index.Incremental
import Checklist.Proofs.Index.Independence
import Checklist.Proofs.Value.Writing

/-! # Notes that cannot be read

A run over a folder reports the notes that cannot be read and goes on. Main statement: a run returns
exactly if nothing else goes wrong with a note, it reports each of its notes once, and the notes
that can be read come out as in the folder without the others (`unreadable_notes_are_isolated`).
Whatever else goes wrong with one note ends the run for all (`no_report_of_mixed_keys`). -/

namespace Checklist.Index
set_option autoImplicit false
open Text

/-! ## Fates -/

/-- Why the note in a file cannot be read, in words. -/
def failure? (reader : Reader) (entry : Route × StoredFile) : Option Text :=
  match reader.note entry with
  | .error cause => some cause.message
  | .ok _ => none

/-- The index takes a note up: its project file can be read, its header and the data of that file
can be written, and either the index has it under its checksum or its tasks are found. -/
def TakesUp (parse : Parse) (load : Yaml.Loader) (files : Option ProjectFiles) (state : State)
    (route : Route) (note : Note) : Prop :=
  ∃ data kept, projectData load files state.kept route = .ok (data, kept) ∧
    Json.HasText (Note.orNull note.header) ∧ Json.HasText (Note.orNull data) ∧
      ((∃ checksum, { note with file := data }.checksum = .ok checksum ∧
        state.index.checksums.lookup note.path = some checksum) ∨
        ∃ tasks, parse { note with file := data } = .ok tasks)

/-- A run gets past the note in a file: the note cannot be read and is reported for it, or the index
takes it up. -/
def Passes (parse : Parse) (files : Option ProjectFiles) (reader : Reader) (state : State)
    (entry : Route × StoredFile) : Prop :=
  match reader.note entry with
  | .error cause => cause.isReported = true
  | .ok note => TakesUp parse reader.load files state entry.1 note

theorem passes_iff {parse : Parse} {files : Option ProjectFiles} {reader : Reader} {state : State}
    {entry : Route × StoredFile} {note : Note} (h : reader.note entry = .ok note) :
    Passes parse files reader state entry ↔ TakesUp parse reader.load files state entry.1 note := by
  unfold Passes
  rw [h]

/-- Where no project files are looked for, a note that can be read has a checksum, and the index has
it under that or its tasks are found. -/
theorem passes_iff_of_no_files {parse : Parse} {reader : Reader} {state : State}
    {entry : Route × StoredFile} {note : Note} (h : reader.note entry = .ok note) :
    Passes parse none reader state entry ↔ ∃ checksum, note.checksum = .ok checksum ∧
      (state.index.checksums.lookup note.path = some checksum ∨ ∃ tasks, parse note = .ok tasks) := by
  have hfile := Reader.file_note h
  have hsame : { note with file := none } = note := by rw [← hfile]
  rw [passes_iff h]
  constructor
  · rintro ⟨data, kept, hdata, hheader, hdataText, hdone⟩
    obtain rfl : none = data := (Prod.mk.inj (Except.ok.inj hdata)).1
    rw [hsame] at hdone
    obtain ⟨checksum, hchecksum⟩ := Note.checksum_isOk_iff.2 ⟨hheader, hfile ▸ hdataText⟩
    refine ⟨checksum, hchecksum, hdone.imp_left ?_⟩
    rintro ⟨other, hother, hlookup⟩
    rwa [Except.ok.inj (hchecksum.symm.trans hother)]
  · rintro ⟨checksum, hchecksum, hdone⟩
    obtain ⟨hheader, hdataText⟩ := Note.checksum_isOk_iff.1 ⟨checksum, hchecksum⟩
    refine ⟨none, state.kept, rfl, hheader, hfile ▸ hdataText, ?_⟩
    rw [hsame]
    exact hdone.imp_left fun hlookup => ⟨checksum, hchecksum, hlookup⟩

theorem not_passes_of_checksum {parse : Parse} {reader : Reader} {state : State}
    {entry : Route × StoredFile} (h : (reader.note entry).toOption.map
      (fun note => note.checksum.toOption.isSome) = some false) :
    ¬Passes parse none reader state entry := by
  intro hpasses
  cases hnote : reader.note entry with
  | error cause => simp [hnote, Except.toOption] at h
  | ok note =>
    obtain ⟨checksum, hchecksum, -⟩ := (passes_iff_of_no_files hnote).1 hpasses
    simp [hnote, Except.toOption, hchecksum] at h

theorem fate_isOk_iff {before after : Index} {path : Text}
    {result : Except Error (Option (List Task))} :
    (∃ found, fate before after path result = .ok found) ↔
      (∃ tasks, result = .ok tasks) ∨ ∃ cause, result = .error (.file cause) ∧
        cause.isReported = true := by
  cases result with
  | ok tasks => simp [fate]
  | error cause =>
    cases cause with
    | file cause => cases hreported : cause.isReported <;> simp [fate, hreported]
    | _ => simp [fate]

section Entries

variable {parse : Parse} {files : Option ProjectFiles} {reader : Reader} {before : Index}
  {state : State} {entry : Route × StoredFile}

theorem fate_indexEntry : (indexEntry parse files reader before state entry).1.2 =
    fate before (indexEntry parse files reader before state entry).2.index (Route.text entry.1)
      (indexNote parse reader state.index
        ((projectData reader.load files state.kept entry.1).map Prod.fst) entry).1 := by
  rw [← indexFile_eq_indexNote]
  rfl

theorem indexEntry_isOk_iff (hproper : Proper parse) :
    (∃ found, (indexEntry parse files reader before state entry).1.2 = .ok found) ↔
      Passes parse files reader state entry := by
  rw [fate_indexEntry, fate_isOk_iff]
  unfold indexNote Passes TakesUp
  cases hnote : reader.note entry with
  | error cause => simp
  | ok note => cases hdata : projectData reader.load files state.kept entry.1 with
    | error cause =>
      have hcause : ∀ reported, cause ≠ .file reported := fun reported heq =>
        projectData_ne_file reader.load files state.kept entry.1 reported (heq ▸ hdata)
      simp [Except.map, hcause]
    | ok found =>
      obtain ⟨data, kept⟩ := found
      have hchecksum := @Note.checksum_isOk_iff { note with file := data }
      have hupdate := @update_isOk_iff parse state.index { note with file := data }
      have hfile := update_ne_file hproper state.index { note with file := data }
      simp only [Except.map, hfile, false_and, exists_false, or_false, hupdate,
        Except.ok.injEq, Prod.mk.injEq]
      constructor
      · rintro ⟨checksum, heq, hdone⟩
        obtain ⟨hheader, hdata⟩ := hchecksum.1 ⟨checksum, heq⟩
        exact ⟨data, kept, ⟨rfl, rfl⟩, hheader, hdata,
          hdone.imp (fun hlookup => ⟨checksum, heq, hlookup⟩) id⟩
      · rintro ⟨_, _, ⟨rfl, rfl⟩, hheader, hdata, ⟨checksum, heq, hlookup⟩ | hparse⟩
        · exact ⟨checksum, heq, .inl hlookup⟩
        · obtain ⟨checksum, heq⟩ := hchecksum.2 ⟨hheader, hdata⟩
          exact ⟨checksum, heq, .inr hparse⟩

def blame? {α : Type} : Except Error α → Option Text
  | .error (.file cause) => some cause.message
  | _ => none

theorem message?_of_fate {after : Index} {path : Text} {result : Except Error (Option (List Task))}
    {found : Fate} (h : fate before after path result = .ok found) :
    found.message? = blame? result := by
  obtain ⟨tasks, rfl⟩ | ⟨cause, rfl, hreported⟩ := fate_isOk_iff.1 ⟨found, h⟩
  · cases Except.ok.inj h
    split <;> rfl
  · rw [fate, if_pos hreported] at h
    cases h
    rfl

theorem blame?_indexNote (hproper : Proper parse) (index : Index) :
    blame? (indexNote parse reader index
      ((projectData reader.load files state.kept entry.1).map Prod.fst) entry).1 =
        failure? reader entry := by
  unfold indexNote failure?
  cases reader.note entry with
  | error cause => rfl
  | ok note => cases hdata : projectData reader.load files state.kept entry.1 with
    | error cause => cases cause with
      | file reported =>
        exact absurd hdata (projectData_ne_file reader.load files state.kept entry.1 reported)
      | _ => rfl
    | ok found =>
      dsimp only [Except.map]
      cases hresult : (index.update parse { note with file := found.1 }).1 with
      | ok tasks => rfl
      | error cause => cases cause with
        | file reported => exact absurd hresult (update_ne_file hproper index _ reported)
        | _ => rfl

theorem message?_of_indexEntry (hproper : Proper parse) {found : Fate}
    (h : (indexEntry parse files reader before state entry).1.2 = .ok found) :
    found.message? = failure? reader entry := by
  rw [fate_indexEntry] at h
  exact (message?_of_fate h).trans (blame?_indexNote hproper state.index)

theorem indexEntry_congr {others : Option ProjectFiles}
    (h : (projectData reader.load others state.kept entry.1).map Prod.fst =
      (projectData reader.load files state.kept entry.1).map Prod.fst) :
    (indexEntry parse others reader before state entry).1 =
      (indexEntry parse files reader before state entry).1 ∧
      (indexEntry parse others reader before state entry).2.index =
        (indexEntry parse files reader before state entry).2.index := by
  have hfirst := indexFile_eq_indexNote parse files reader state entry
  have hsecond := indexFile_eq_indexNote parse others reader state entry
  rw [h, ← hfirst] at hsecond
  obtain ⟨hresult, hindex⟩ := Prod.mk.inj hsecond
  unfold indexEntry
  dsimp only
  rw [hresult, hindex]
  exact ⟨rfl, rfl⟩

end Entries

/-! ## Whole runs -/

theorem mem_withFate_iff {fates : List (Text × Fate)} {has : Fate → Bool} {path : Text} :
    path ∈ withFate fates has ↔ ∃ found ∈ fates, has found.2 = true ∧ found.1 = path := by
  simp [withFate, mem_sort, and_assoc]

/-- What a run over a folder comes to: its report says what each note would have come to alone, and
so does the index afterwards. -/
structure RanOver (parse : Parse) (files : Option ProjectFiles) (reader : Reader) (folder : Folder)
    (state : State) (report : Report) (after : State) : Prop where
  failed : report.failed = folder.notes.filterMap fun entry =>
    (failure? reader entry).map fun message => (Route.text entry.1, message)
  listed : ∀ entry ∈ folder.notes, ∃ found,
    (indexEntry parse files reader state.index state entry).1.2 = .ok found ∧
    found.message? = failure? reader entry ∧
      (Route.text entry.1 ∈ report.indexed ↔ found = .indexed) ∧
      (Route.text entry.1 ∈ report.unchanged ↔ found = .unchanged)
  alone : ∀ entry ∈ folder.notes,
    SameAt (Route.text entry.1) (indexEntry parse files reader state.index state entry).2.index
      after.index
  gone : ∀ path, (∀ entry ∈ folder.notes, Route.text entry.1 ≠ path) →
    after.index.files.lookup path = none
  sound : after.index.Sound

section Folder

variable {parse : Parse} (hproper : Proper parse) {files : Option ProjectFiles}
  {reader : Reader} {folder : Folder}
  (hnodup : (folder.notes.map fun entry => Route.text entry.1).Nodup)
  {state : State} (hsound : state.index.Sound)

include hproper hnodup hsound

theorem exists_report_iff :
    (∃ report after, indexFolder parse files reader folder state = .ok (report, after)) ↔
    ∀ entry ∈ folder.notes, Passes parse files reader state entry := by
  have hresults :=
    (@ran_through parse files reader hproper.labels state.index _ hnodup state hsound).results
  constructor
  · rintro ⟨report, after, h⟩ entry hentry
    obtain ⟨fates, hfates, -⟩ := indexFolder_eq_ok h
    rw [hresults, List.forall₂_map_left_iff] at hfates
    obtain ⟨found, -, -, hfound⟩ := Result.exists_right_of_mem hfates hentry
    exact (indexEntry_isOk_iff hproper).1 ⟨found.2, hfound⟩
  · intro h
    refine exists_indexFolder fun result hresult => ?_
    rw [hresults] at hresult
    obtain ⟨entry, hentry, rfl⟩ := List.mem_map.1 hresult
    exact (indexEntry_isOk_iff hproper).2 (h entry hentry)

theorem ranOver {report : Report} {after : State}
    (h : indexFolder parse files reader folder state = .ok (report, after)) :
    RanOver parse files reader folder state report after := by
  have hran := @ran_through parse files reader hproper.labels state.index _ hnodup state hsound
  obtain ⟨fates, hfates, rfl, rfl⟩ := indexFolder_eq_ok h
  rw [hran.results, List.forall₂_map_left_iff] at hfates
  obtain ⟨hthere, hgone⟩ := hran.sound.removeMissing folder
  refine ⟨?_, fun entry hentry => ?_,
    fun entry hentry => (hran.alone entry hentry).trans (hthere entry hentry), hgone,
    (hran.sound.removeAll _).1⟩
  · refine (Result.filterMap_eq_filterMap (fun entry found hfound => ?_) hfates).symm
    obtain ⟨path, found⟩ := found
    obtain ⟨rfl, hfound⟩ := hfound
    rw [← message?_of_indexEntry hproper hfound]
    rfl
  · obtain ⟨found, hmem, hpath, hfound⟩ := Result.exists_right_of_mem hfates hentry
    have hlisted : ∀ has, Route.text entry.1 ∈ withFate fates has ↔ has found.2 = true := by
      intro has
      rw [mem_withFate_iff]
      constructor
      · rintro ⟨other, hother, hhas, heq⟩
        obtain ⟨entry', hentry', hpath', hfound'⟩ := Result.exists_left_of_mem hfates hother
        obtain rfl : entry' = entry :=
          List.inj_on_of_nodup_map hnodup hentry' hentry (hpath'.symm.trans heq)
        exact Except.ok.inj (hfound'.symm.trans hfound) ▸ hhas
      · exact fun hhas => ⟨found, hmem, hhas, hpath⟩
    refine ⟨found.2, hfound, message?_of_indexEntry hproper hfound, ?_, ?_⟩
    · rw [report, hlisted]
      cases found.2 <;> simp
    · rw [report, hlisted]
      cases found.2 <;> simp

end Folder

/-! ## Folders without the notes that cannot be read -/

namespace Indexer

def index (indexer : Indexer) (folder : Folder) (state : State) : Except Error (Report × State) :=
  indexFolder indexer.parse (indexer.files folder) indexer.reader folder state

/-- A file is a note that cannot be read. -/
def isBad (indexer : Indexer) (entry : Route × StoredFile) : Bool :=
  Folder.isNote entry.1 && (failure? indexer.reader entry).isSome

/-- A folder without the notes that cannot be read. -/
def withoutBad (indexer : Indexer) (folder : Folder) : Folder :=
  folder.filter fun entry => !indexer.isBad entry

def projectFile? (indexer : Indexer) (folder : Folder) (note : Route) :
    Option (Route × StoredFile) :=
  indexer.projectFiles.bind fun found =>
    if found.1.enabled then ProjectFile.nearest? found.1 folder found.2 note else none

/-- A note can be read, and so can its project file if that is a note itself. -/
def IsGood (indexer : Indexer) (folder : Folder) (entry : Route × StoredFile) : Prop :=
  failure? indexer.reader entry = none ∧ ∀ found, indexer.projectFile? folder entry.1 = some found →
    indexer.isBad found = false

theorem mem_notes_withoutBad {indexer : Indexer} {folder : Folder} {entry : Route × StoredFile} :
    entry ∈ (indexer.withoutBad folder).notes ↔ entry ∈ folder.notes ∧
      failure? indexer.reader entry = none := by
  rw [Folder.mem_notes, Folder.mem_notes, withoutBad, List.mem_filter, and_assoc, and_assoc]
  refine and_congr_right fun _ => ?_
  cases hnote : Folder.isNote entry.1 <;> simp [isBad, hnote]

theorem nodup_withoutBad (indexer : Indexer) {folder : Folder}
    (h : (folder.notes.map fun entry => Route.text entry.1).Nodup) :
    ((indexer.withoutBad folder).notes.map fun entry => Route.text entry.1).Nodup := by
  have hall : (folder.filter fun entry => Folder.isNote entry.1).Perm folder.notes :=
    (List.mergeSort_perm _ _).symm
  have hsome : ((indexer.withoutBad folder).filter fun entry => Folder.isNote entry.1).Perm
      (indexer.withoutBad folder).notes :=
    (List.mergeSort_perm _ _).symm
  rw [← (hsome.map _).nodup_iff]
  exact ((hall.map _).nodup_iff.2 h).sublist ((List.filter_sublist.filter _).map _)

theorem projectData_withoutBad {indexer : Indexer} {folder : Folder} {note : Route}
    (h : ∀ found, indexer.projectFile? folder note = some found → indexer.isBad found = false)
    (kept : ProjectFile.Kept) :
    (projectData indexer.reader.load (indexer.files (indexer.withoutBad folder)) kept note).map
      Prod.fst =
      (projectData indexer.reader.load (indexer.files folder) kept note).map Prod.fst := by
  unfold files
  unfold projectFile? at h
  cases hplace : indexer.projectFiles with
  | none => rfl
  | some place =>
    obtain ⟨rules, root⟩ := place
    rw [hplace] at h
    rw [Option.map_some, Option.map_some, map_projectData, map_projectData]
    cases henabled : rules.enabled with
    | false => simp [ProjectFile.read, henabled]
    | true =>
      have hnearest : ProjectFile.nearest? rules (indexer.withoutBad folder) root note =
          ProjectFile.nearest? rules folder root note := by
        refine ProjectFile.nearest?_filter fun found hfound => ?_
        rw [h found (by simpa [henabled] using hfound)]
        rfl
      rw [ProjectFile.map_read _ _ _ _ henabled, ProjectFile.map_read _ _ _ _ henabled, hnearest]

/-- A run over a folder, after whatever else was indexed, returns exactly if it gets past every
note. Then its report has the notes that cannot be read, with the reasons, and lists each other note
once; and a note that can be read, with a project file that can be read, comes out as in a run over
the folder without the notes that cannot. That run returns if all notes that can be read have such
project files. -/
theorem unreadable_notes_are_isolated (indexer : Indexer) (folder : Folder)
    (hnodup : (folder.notes.map fun entry => Route.text entry.1).Nodup)
    (state : State) (hsound : state.index.Sound) :
    ((∃ report after, indexer.index folder state = .ok (report, after)) ↔
      ∀ entry ∈ folder.notes,
        Passes indexer.parse (indexer.files folder) indexer.reader state entry) ∧
    ∀ report after, indexer.index folder state = .ok (report, after) →
      (report.failed = folder.notes.filterMap fun entry =>
        (failure? indexer.reader entry).map fun message => (Route.text entry.1, message)) ∧
      (∀ entry ∈ folder.notes, failure? indexer.reader entry = none →
        Xor (Route.text entry.1 ∈ report.indexed) (Route.text entry.1 ∈ report.unchanged)) ∧
      ((∀ entry ∈ folder.notes, failure? indexer.reader entry = none → indexer.IsGood folder entry) →
        ∃ others rest, indexer.index (indexer.withoutBad folder) state = .ok (others, rest)) ∧
      ∀ others rest, indexer.index (indexer.withoutBad folder) state = .ok (others, rest) →
        others.failed = [] ∧
        (∀ entry ∈ folder.notes, indexer.IsGood folder entry →
          (Route.text entry.1 ∈ report.indexed ↔ Route.text entry.1 ∈ others.indexed) ∧
            (Route.text entry.1 ∈ report.unchanged ↔ Route.text entry.1 ∈ others.unchanged) ∧
              SameAt (Route.text entry.1) rest.index after.index) ∧
        ∀ path, (∀ entry ∈ folder.notes, Route.text entry.1 ≠ path) →
          SameAt path rest.index after.index := by
  have hproper : Proper indexer.parse := proper_parseWith indexer.settings indexer.today
  have hnodup' := indexer.nodup_withoutBad hnodup
  have hcongr := fun (entry : Route × StoredFile) (hgood : indexer.IsGood folder entry) =>
    @indexEntry_congr indexer.parse _ indexer.reader state.index state entry _
      (projectData_withoutBad hgood.2 state.kept)
  have hreturns :=
    @exists_report_iff _ hproper (indexer.files folder) indexer.reader folder hnodup state hsound
  refine ⟨hreturns, fun report after hrun => ?_⟩
  have hran := ranOver hproper hnodup hsound hrun
  refine ⟨hran.failed, fun entry hentry hread => ?_, fun hall => ?_, fun others rest hrest => ?_⟩
  · obtain ⟨found, -, hmessage, hindexed, hunchanged⟩ := hran.listed entry hentry
    rw [hread] at hmessage
    rw [hindexed, hunchanged]
    cases found with
    | indexed => exact .inl ⟨rfl, by simp⟩
    | unchanged => exact .inr ⟨rfl, by simp⟩
    | failed message => cases hmessage
  · refine (exists_report_iff hproper hnodup' hsound).2 fun entry hentry => ?_
    obtain ⟨hentry, hread⟩ := mem_notes_withoutBad.1 hentry
    rw [← @indexEntry_isOk_iff _ _ _ state.index _ _ hproper,
      (hcongr entry (hall entry hentry hread)).1, indexEntry_isOk_iff hproper]
    exact hreturns.1 ⟨report, after, hrun⟩ entry hentry
  · have hran' := ranOver hproper hnodup' hsound hrest
    refine ⟨?_, fun entry hentry hgood => ?_, fun path hpath => ?_⟩
    · rw [hran'.failed, List.filterMap_eq_nil_iff]
      intro entry hentry
      rw [(mem_notes_withoutBad.1 hentry).2]
      rfl
    · -- both runs take the note from the same state with the same data, and what either makes of it
      -- stays until its end
      have hentry' := mem_notes_withoutBad.2 ⟨hentry, hgood.1⟩
      obtain ⟨hfate, hindex⟩ := hcongr entry hgood
      obtain ⟨found, hfound, -, hindexed, hunchanged⟩ := hran.listed entry hentry
      obtain ⟨found', hfound', -, hindexed', hunchanged'⟩ := hran'.listed entry hentry'
      obtain rfl : found' = found :=
        Except.ok.inj (hfound'.symm.trans ((congrArg Prod.snd hfate).trans hfound))
      refine ⟨hindexed.trans hindexed'.symm, hunchanged.trans hunchanged'.symm, ?_⟩
      exact (hran'.alone entry hentry').symm.trans (hindex ▸ hran.alone entry hentry)
    · have hgone' := hran'.gone path fun entry hentry =>
        hpath entry (mem_notes_withoutBad.1 hentry).1
      exact hran'.sound.sameAt_of_none hran.sound hgone' (hran.gone path hpath)

end Indexer

section Example

def goodFile : StoredFile :=
  textFile "- [ ] a".toList 2

/-- A folder with a file beside a note that can be read. -/
def folderOf (file : StoredFile) : Folder :=
  Folder.after [] [.write "bad.md".toList file, writeNote goodFile]

theorem nodup_folderOf (file : StoredFile) :
    ((folderOf file).notes.map fun entry => Route.text entry.1).Nodup :=
  ((Folder.traced_empty _).after (List.Subset.refl _)).nodup_texts

theorem mem_notes_folderOf {file : StoredFile} {entry : Route × StoredFile} :
    entry ∈ (folderOf file).notes ↔ entry = (["n.md".toList], goodFile) ∨
      entry = (["bad.md".toList], file) := by
  have hfolder : folderOf file = [(["n.md".toList], goodFile), (["bad.md".toList], file)] := rfl
  have hgood : Folder.isNote ["n.md".toList] = true := by decide +kernel
  have hbad : Folder.isNote ["bad.md".toList] = true := by decide +kernel
  rw [Folder.mem_notes, hfolder, List.mem_cons, List.mem_singleton]
  refine and_iff_left_of_imp ?_
  rintro (rfl | rfl)
  · exact hgood
  · exact hbad

theorem passes_goodFile : Passes plainIndexer.parse none {} {} (["n.md".toList], goodFile) := by
  have hnote : ({} : Reader).note (["n.md".toList], goodFile) = .ok (plainNote "- [ ] a".toList) :=
    rfl
  obtain ⟨checksum, tasks, hsucceeds⟩ := @succeeds_plainNote "- [ ] a".toList (by decide +kernel)
  exact (passes_iff_of_no_files hnote).2
    ⟨checksum, hsucceeds.checksum_eq, .inr ⟨tasks, hsucceeds.parse_eq⟩⟩

theorem report_folderOf_iff {file : StoredFile} :
    (∃ report after, plainIndexer.index (folderOf file) {} = .ok (report, after)) ↔
    Passes plainIndexer.parse none {} {} (["bad.md".toList], file) := by
  have hreturns := @exists_report_iff plainIndexer.parse (proper_parseWith _ _)
    (plainIndexer.files (folderOf file)) plainIndexer.reader
    (folderOf file) (nodup_folderOf file) {} sound_empty
  refine hreturns.trans ⟨fun h => h _ (mem_notes_folderOf.2 (.inr rfl)), fun h entry hentry => ?_⟩
  rcases mem_notes_folderOf.1 hentry with rfl | rfl
  · exact passes_goodFile
  · exact h

/-- A file beside a note is no text. -/
theorem unreadable_notes_are_isolated_of_octet :
    ((folderOf ⟨[0xff], 1⟩).notes.map fun entry => Route.text entry.1).Nodup ∧
      ({} : State).index.Sound ∧
      ∃ report after, plainIndexer.index (folderOf ⟨[0xff], 1⟩) {} = .ok (report, after) ∧
        ("bad.md".toList, "Failed to read file bad.md".toList) ∈ report.failed ∧
        Xor ("n.md".toList ∈ report.indexed) ("n.md".toList ∈ report.unchanged) := by
  have hnodup := nodup_folderOf ⟨[0xff], 1⟩
  obtain ⟨-, hreported⟩ :=
    plainIndexer.unreadable_notes_are_isolated (folderOf ⟨[0xff], 1⟩) hnodup {} sound_empty
  obtain ⟨report, after, hrun⟩ := (@report_folderOf_iff ⟨[0xff], 1⟩).2 rfl
  obtain ⟨hfailed, hlisted, -⟩ := hreported report after hrun
  refine ⟨hnodup, sound_empty, report, after, hrun, ?_, hlisted _ (mem_notes_folderOf.2 (.inl rfl)) rfl⟩
  rw [hfailed]
  exact List.mem_filterMap.2 ⟨_, mem_notes_folderOf.2 (.inr rfl), rfl⟩

/-- A header with a mapping whose keys are a number and a text. -/
def mixedFile : StoredFile :=
  textFile "---\na:\n  1: x\n  b: y\n---\n- [ ] a".toList 1

/-- The keys of a mapping in a header cannot be sorted. The file can be read, and still the run does
not return. -/
theorem no_report_of_mixed_keys : ¬∃ report after, plainIndexer.index (folderOf mixedFile) {} =
    .ok (report, after) := by
  rw [report_folderOf_iff]
  exact not_passes_of_checksum (by decide +kernel)

end Example

end Checklist.Index
