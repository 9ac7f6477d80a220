import Checklist.Proofs.Index.Folder

/-! # Notes that do not stand in each other's way

The notes of a folder are indexed one after the other, with one index and one store of project
files. Main statement: each gets the fate, and leaves in the index what it would if it alone were
indexed (`ran_through`). -/

namespace Checklist.Index
set_option autoImplicit false
open Text

variable {parse : Parse} {files : Option ProjectFiles} {reader : Reader}

/-! ## Updates -/

theorem Sound.update {index : Index} (h : index.Sound) (hlabels : Labels parse) (note : Note) :
    (index.update parse note).2.Sound ∧ ∀ path, path ≠ note.path →
      SameAt path index (index.update parse note).2 := by
  have hnext := h.nextVersion note.path
  have hsame := sameAt_nextVersion index note.path
  rw [update_eq]
  cases note.checksum with
  | error cause => exact ⟨hnext, fun path _ => hsame path⟩
  | ok checksum =>
    dsimp only
    split
    · exact ⟨hnext, fun path _ => hsame path⟩
    · cases hparse : parse note with
      | error cause => exact ⟨hnext, fun path _ => hsame path⟩
      | ok tasks =>
        have hlabelled := hlabels note tasks hparse
        exact ⟨hnext.store checksum hlabelled,
          fun path hne => (hsame path).trans (hnext.sameAt_store checksum hlabelled hne)⟩

theorem SameAt.update {first second : Index} {note : Note} (h : SameAt note.path first second)
    (hlabels : Labels parse) :
    (second.update parse note).1 = (first.update parse note).1 ∧
      SameAt note.path (first.update parse note).2 (second.update parse note).2 := by
  have hnext : SameAt note.path (first.nextVersion note.path).2 (second.nextVersion note.path).2 :=
    ⟨h.files_eq, h.tasks_eq, h.checksum_eq⟩
  rw [update_eq, update_eq, h.checksum_eq, h.tasks_eq]
  cases note.checksum with
  | error cause => exact ⟨rfl, hnext⟩
  | ok checksum =>
    dsimp only
    split
    · exact ⟨rfl, hnext⟩
    · cases hparse : parse note with
      | error cause => exact ⟨rfl, hnext⟩
      | ok tasks =>
        have hlabelled := hlabels note tasks hparse
        have hfirst := Session.holds_store (first.nextVersion note.path).2 checksum hlabelled
        have hsecond := Session.holds_store (second.nextVersion note.path).2 checksum hlabelled
        exact ⟨rfl, hsecond.files_eq.trans hfirst.files_eq.symm,
          hsecond.tasks_eq.trans hfirst.tasks_eq.symm,
          hsecond.checksum_eq.trans hfirst.checksum_eq.symm⟩

/-! ## Entries -/

/-- What is kept of project files gives every note the same data. -/
def SameData (load : Yaml.Loader) (files : Option ProjectFiles) (kept kept' : ProjectFile.Kept) :
    Prop :=
  ∀ route, (projectData load files kept' route).map Prod.fst =
    (projectData load files kept route).map Prod.fst

theorem sameData_of_projectData {load : Yaml.Loader} {kept after : ProjectFile.Kept} {route : Route}
    {found : Option Entries} (h : projectData load files kept route = .ok (found, after)) :
    SameData load files kept after := by
  intro other
  cases files with
  | none =>
    cases h
    rfl
  | some files =>
    have hread := ProjectFile.read_after_read (Result.mapError_eq_ok.1 h) other
    rw [map_projectData, map_projectData, hread]

theorem kept_indexFile (parse : Parse) (state : State) (entry : Route × StoredFile) :
    SameData reader.load files state.kept (indexFile parse files reader state entry).2.kept := by
  unfold indexFile
  split
  · exact fun _ => rfl
  · split
    · exact fun _ => rfl
    · exact sameData_of_projectData ‹_›

/-- What comes of a note whose project file has the given data. -/
def indexNote (parse : Parse) (reader : Reader) (index : Index)
    (data : Except Error (Option Entries)) (entry : Route × StoredFile) :
    Except Error (Option (List Task)) × Index :=
  match reader.note entry, data with
  | .error cause, _ => (.error (.file cause), index)
  | .ok _, .error cause => (.error cause, index)
  | .ok note, .ok data => index.update parse { note with file := data }

theorem indexFile_eq_indexNote (parse : Parse) (files : Option ProjectFiles) (reader : Reader)
    (state : State) (entry : Route × StoredFile) :
    ((indexFile parse files reader state entry).1, (indexFile parse files reader state entry).2.index) =
      indexNote parse reader state.index
        ((projectData reader.load files state.kept entry.1).map Prod.fst) entry := by
  unfold indexFile indexNote
  cases reader.note entry with
  | error cause => rfl
  | ok note => cases projectData reader.load files state.kept entry.1 <;> rfl

theorem Sound.indexNote {index : Index} (h : index.Sound) (hlabels : Labels parse) (reader : Reader)
    (data : Except Error (Option Entries)) (entry : Route × StoredFile) :
    (indexNote parse reader index data entry).2.Sound ∧
      ∀ path, path ≠ Route.text entry.1 →
        SameAt path index (indexNote parse reader index data entry).2 := by
  unfold Index.indexNote
  split
  · exact ⟨h, fun path _ => .refl path index⟩
  · exact ⟨h, fun path _ => .refl path index⟩
  · rename_i note data hnote
    rw [← Reader.path_note hnote]
    exact h.update hlabels { note with file := data }

theorem SameAt.indexNote {first second : Index} {entry : Route × StoredFile}
    (h : SameAt (Route.text entry.1) first second) (hlabels : Labels parse)
    (reader : Reader) (data : Except Error (Option Entries)) :
    (indexNote parse reader second data entry).1 = (indexNote parse reader first data entry).1 ∧
      SameAt (Route.text entry.1) (indexNote parse reader first data entry).2
        (indexNote parse reader second data entry).2 := by
  unfold Index.indexNote
  split
  · exact ⟨rfl, h⟩
  · exact ⟨rfl, h⟩
  · rename_i note data hnote
    rw [← Reader.path_note hnote] at h ⊢
    exact @SameAt.update parse _ _ { note with file := data } h hlabels

structure SameFor (load : Yaml.Loader) (files : Option ProjectFiles) (path : Text)
    (first second : State) : Prop where
  index : SameAt path first.index second.index
  data : SameData load files first.kept second.kept

theorem fate_congr {before after other : Index} {path : Text}
    (h : other.checksums.lookup path = after.checksums.lookup path)
    (result : Except Error (Option (List Task))) :
    fate before other path result = fate before after path result := by
  unfold fate
  rw [h]

theorem SameFor.indexEntry {before : Index} {first second : State} {entry : Route × StoredFile}
    (h : SameFor reader.load files (Route.text entry.1) first second) (hlabels : Labels parse) :
    (indexEntry parse files reader before second entry).1 =
      (indexEntry parse files reader before first entry).1 ∧
      SameAt (Route.text entry.1) (indexEntry parse files reader before first entry).2.index
        (indexEntry parse files reader before second entry).2.index := by
  have hfirst := indexFile_eq_indexNote parse files reader first entry
  have hsecond := indexFile_eq_indexNote parse files reader second entry
  rw [h.data entry.1] at hsecond
  obtain ⟨hresult, hsame⟩ :=
    h.index.indexNote hlabels reader
      ((projectData reader.load files first.kept entry.1).map Prod.fst)
  rw [← hfirst, ← hsecond] at hresult hsame
  refine ⟨Prod.ext rfl ?_, hsame⟩
  show fate before _ _ (indexFile parse files reader second entry).1 =
    fate before _ _ (indexFile parse files reader first entry).1
  rw [show (indexFile parse files reader second entry).1 = _ from hresult]
  exact fate_congr hsame.checksum_eq _

theorem Sound.indexEntry {state : State} (h : state.index.Sound) (hlabels : Labels parse)
    (files : Option ProjectFiles) (reader : Reader) (before : Index) (entry : Route × StoredFile) :
    (indexEntry parse files reader before state entry).2.index.Sound ∧
      ∀ path, path ≠ Route.text entry.1 →
        SameFor reader.load files path state
          (indexEntry parse files reader before state entry).2 := by
  have hindex :=
    h.indexNote hlabels reader ((projectData reader.load files state.kept entry.1).map Prod.fst)
      entry
  rw [← indexFile_eq_indexNote] at hindex
  exact ⟨hindex.1, fun path hne => ⟨hindex.2 path hne, kept_indexFile parse state entry⟩⟩

/-! ## Folders -/

theorem through_cons {α β σ : Type} (step : σ → α → β × σ) (state : σ) (a : α) (rest : List α) :
    through step state (a :: rest) = ((step state a).1 :: (through step (step state a).2 rest).1,
      (through step (step state a).2 rest).2) :=
  rfl

/-- What the run over some entries comes to: each has the fate and leaves in the index what it would
alone, and nothing else changes. -/
structure Ran (parse : Parse) (files : Option ProjectFiles) (reader : Reader) (before : Index)
    (state : State) (entries : Folder) (ran : List (Text × Except Error Fate) × State) : Prop where
  results : ran.1 = entries.map fun entry => (indexEntry parse files reader before state entry).1
  sound : ran.2.index.Sound
  alone : ∀ entry ∈ entries, SameAt (Route.text entry.1)
    (indexEntry parse files reader before state entry).2.index ran.2.index
  others : ∀ path, (∀ entry ∈ entries, Route.text entry.1 ≠ path) →
    SameAt path state.index ran.2.index

theorem ran_through (hlabels : Labels parse) {before : Index} {entries : Folder}
    (hnodup : (entries.map fun entry => Route.text entry.1).Nodup)
    {state : State} (hsound : state.index.Sound) :
    Ran parse files reader before state entries
      (through (indexEntry parse files reader before) state entries) := by
  induction entries generalizing state with
  | nil => exact ⟨rfl, hsound, fun _ hentry => absurd hentry List.not_mem_nil,
      fun path _ => .refl path _⟩
  | cons entry rest ih =>
    obtain ⟨hnew, hrest⟩ := List.nodup_cons.1 hnodup
    obtain ⟨hsound, hothers⟩ := hsound.indexEntry hlabels files reader before entry
    have hran := ih hrest hsound
    have hne : ∀ other ∈ rest, Route.text other.1 ≠ Route.text entry.1 := fun other hother heq =>
      hnew (List.mem_map.2 ⟨other, hother, heq⟩)
    -- the first entry changes nothing for the others, so each of them comes to what it would from
    -- the start
    have hlater : ∀ other ∈ rest, SameFor reader.load files (Route.text other.1) state
        (indexEntry parse files reader before state entry).2 :=
      fun other hother => hothers _ (hne other hother)
    rw [through_cons]
    refine ⟨?_, hran.sound, fun other hother => ?_, fun path hpath => ?_⟩
    · rw [List.map_cons, hran.results]
      exact congrArg _ (List.map_congr_left fun other hother =>
        ((hlater other hother).indexEntry hlabels).1)
    · rcases List.mem_cons.1 hother with rfl | hother
      · exact hran.others _ hne
      · exact ((hlater other hother).indexEntry hlabels).2.trans (hran.alone other hother)
    · have hentry := hpath entry List.mem_cons_self
      exact (hothers path hentry.symm).index.trans
        (hran.others path fun other hother => hpath other (List.mem_cons_of_mem _ hother))

end Checklist.Index
