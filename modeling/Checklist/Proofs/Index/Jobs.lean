import Checklist.Proofs.Directory
import Checklist.Proofs.Index.Report
import Mathlib.Logic.Relation

/-! # Jobs side by side

Every note of a folder has a job of its own, and while the parse of one note is in flight, the jobs
of others go on. Main statements: in whatever order the jobs take their steps, each ends with the
fate that its file and the checksums of its note tell (`Reached.of_steps`), and a run over the notes
one after the other is such a run (`gathers_of_indexFolder`). -/

namespace Checklist.Index
set_option autoImplicit false
open Text

/-! ## Jobs and their steps -/

/-- How far the job for a note has come. -/
inductive Job where
  | waiting
  | flying (pending : Pending)
  | ended (found : Fate)

/-- Jobs that share an index and what is kept of project files, each with its note. -/
structure Gathering where
  state : State
  jobs : List ((Route × StoredFile) × Job)

section Steps

variable (parse : Parse) (files : Option ProjectFiles) (reader : Reader) (before : Index)

/-- What the job for a note may do next: give up on a note that cannot be read, end at once if
nothing changed, or send the note off to be parsed and end when the parse does. A job over which the
run breaks off does nothing more. -/
inductive JobStep (entry : Route × StoredFile) : State × Job → State × Job → Prop where
  | refuse {state : State} {cause : Note.FileError} {found : Fate} :
      reader.note entry = .error cause →
      fate before state.index (Route.text entry.1) (.error (.file cause)) = .ok found →
      JobStep entry (state, .waiting) (state, .ended found)
  | settle {state : State} {note : Note} {data : Option Entries} {kept : ProjectFile.Kept}
      {tasks : Option (List Task)} {index : Index} {found : Fate} :
      reader.note entry = .ok note →
      projectData reader.load files state.kept entry.1 = .ok (data, kept) →
      state.index.start (.update { note with file := data }) =
        (.done (.ok (.updated tasks)), index) →
      fate before index (Route.text entry.1) (.ok tasks) = .ok found →
      JobStep entry (state, .waiting) (⟨index, kept⟩, .ended found)
  | launch {state : State} {note : Note} {data : Option Entries} {kept : ProjectFile.Kept}
      {pending : Pending} {index : Index} :
      reader.note entry = .ok note →
      projectData reader.load files state.kept entry.1 = .ok (data, kept) →
      state.index.start (.update { note with file := data }) = (.pending pending, index) →
      JobStep entry (state, .waiting) (⟨index, kept⟩, .flying pending)
  | land {state : State} {pending : Pending} {tasks : Option (List Task)}
      {index : Index} {found : Fate} :
      complete parse state.index (.pending pending) = (.ok (.updated tasks), index) →
      fate before index (Route.text entry.1) (.ok tasks) = .ok found →
      JobStep entry (state, .flying pending) (⟨index, state.kept⟩, .ended found)

/-- One of the jobs takes a step. -/
inductive Gathering.Step : Gathering → Gathering → Prop where
  | go {state next : State} {jobs : List ((Route × StoredFile) × Job)} {number : Nat}
      {entry : Route × StoredFile} {job advanced : Job} :
      jobs[number]? = some (entry, job) →
        JobStep parse files reader before entry (state, job) (next, advanced) →
      Gathering.Step ⟨state, jobs⟩ ⟨next, jobs.set number (entry, advanced)⟩

end Steps

/-- A run over a folder in which all jobs come to their ends, in whatever order they take their
steps, and notes that are gone are removed. -/
def Gathers (parse : Parse) (files : Option ProjectFiles) (reader : Reader) (folder : Folder)
    (state : State) (report : Report) (after : State) : Prop :=
  ∃ ran fates, Relation.ReflTransGen (Gathering.Step parse files reader state.index)
    ⟨state, folder.notes.map fun entry => (entry, .waiting)⟩ ran ∧
    List.Forall₂ (fun job found => found.1 = Route.text job.1.1 ∧
      job.2 = .ended found.2) ran.jobs fates ∧
    report = Index.report fates (ran.state.index.missing folder)
      (ran.state.index.removeAll (ran.state.index.missing folder)) ∧
    after = ⟨ran.state.index.removeAll (ran.state.index.missing folder), ran.state.kept⟩

/-! ## Fates that are due -/

/-- A note has the same checksum in both indexes. -/
def Stays (before after : Index) (path : Text) : Prop :=
  ∃ checksum, before.checksums.lookup path = some checksum ∧
    after.checksums.lookup path = some checksum

/-- The fate that a note has by rights. -/
def Deserves (reader : Reader) (before after : Index) (entry : Route × StoredFile) : Fate → Prop
  | .failed message => failure? reader entry = some message
  | .unchanged => failure? reader entry = none ∧ Stays before after (Route.text entry.1)
  | .indexed => failure? reader entry = none ∧ ¬Stays before after (Route.text entry.1)

def Keeps (reader : Reader) (before index : Index) (entry : Route × StoredFile) : Job → Prop
  | .waiting => True
  | .flying pending => failure? reader entry = none ∧ pending.note.path = Route.text entry.1
  | .ended found => Deserves reader before index entry found

variable {parse : Parse} {files : Option ProjectFiles} {reader : Reader}
  {before index other : Index} {entry : Route × StoredFile}

theorem Stays.congr {path : Text} (h : SameAt path index other) : Stays before other path ↔
    Stays before index path := by
  unfold Stays
  rw [h.checksum_eq]

theorem Deserves.of_sameAt {found : Fate} (h : Deserves reader before index entry found)
    (hsame : SameAt (Route.text entry.1) index other) :
    Deserves reader before other entry found := by
  cases found with
  | failed message => exact h
  | unchanged => exact ⟨h.1, (Stays.congr hsame).2 h.2⟩
  | indexed => exact ⟨h.1, (Stays.congr hsame).not.2 h.2⟩

theorem Keeps.of_sameAt {job : Job} (h : Keeps reader before index entry job)
    (hsame : SameAt (Route.text entry.1) index other) :
    Keeps reader before other entry job := by
  cases job with
  | waiting => trivial
  | flying pending => exact h
  | ended found => exact Deserves.of_sameAt h hsame

theorem failure?_eq_none {note : Note} (h : reader.note entry = .ok note) :
    failure? reader entry = none := by
  rw [failure?, h]

theorem deserves_of_fate {tasks : Option (List Task)} {found : Fate}
    (hread : failure? reader entry = none)
    (h : fate before index (Route.text entry.1) (.ok tasks) = .ok found) :
    Deserves reader before index entry found := by
  have hstays : ((before.checksums.lookup (Route.text entry.1)).isSome &&
      before.checksums.lookup (Route.text entry.1) == index.checksums.lookup (Route.text entry.1)) =
      true ↔ Stays before index (Route.text entry.1) := by
    rw [Bool.and_eq_true, Option.isSome_iff_exists, beq_iff_eq]
    constructor
    · rintro ⟨⟨checksum, hchecksum⟩, heq⟩
      exact ⟨checksum, hchecksum, heq ▸ hchecksum⟩
    · rintro ⟨checksum, hchecksum, hchecksum'⟩
      exact ⟨⟨checksum, hchecksum⟩, hchecksum.trans hchecksum'.symm⟩
  have hfound := Except.ok.inj h
  split at hfound
  · next hsame =>
    subst hfound
    exact ⟨hread, hstays.1 hsame⟩
  · next hdiffer =>
    subst hfound
    exact ⟨hread, mt hstays.2 hdiffer⟩

theorem deserves_of_refused {cause : Note.FileError} {found : Fate}
    (hread : reader.note entry = .error cause)
    (h : fate before index (Route.text entry.1) (.error (.file cause)) = .ok found) :
    Deserves reader before index entry found := by
  have hfailure : failure? reader entry = some cause.message := by rw [failure?, hread]
  rw [fate] at h
  split at h
  · cases h
    exact hfailure
  · cases h

/-! ## What a step does -/

/-- A step of a job leaves the index sound and all other notes as they are, and what is known of the
job holds of it again. -/
theorem JobStep.keeps (hlabels : Labels parse) {state next : State} {job advanced : Job}
    (h : JobStep parse files reader before entry (state, job) (next, advanced))
    (hsound : state.index.Sound) (hjob : Keeps reader before state.index entry job) :
    next.index.Sound ∧ (∀ path, path ≠ Route.text entry.1 → SameAt path state.index next.index) ∧
      Keeps reader before next.index entry advanced := by
  cases h with
  | refuse hread hfate =>
    exact ⟨hsound, fun path _ => .refl path _, deserves_of_refused hread hfate⟩
  | settle hread hdata hstart hfate =>
    rename_i note data kept tasks index found
    have hindex : (state.index.start (.update { note with file := data })).2 = index :=
      congrArg Prod.snd hstart
    have hpath : note.path = Route.text entry.1 := Reader.path_note hread
    refine ⟨hindex ▸ hsound.start _, fun path hne => hindex ▸ hsound.sameAt_start _ fun heq =>
      hne (heq.trans hpath), ?_⟩
    exact deserves_of_fate (failure?_eq_none hread) hfate
  | launch hread hdata hstart =>
    rename_i note data kept pending index
    have hindex : (state.index.start (.update { note with file := data })).2 = index :=
      congrArg Prod.snd hstart
    have hpath : note.path = Route.text entry.1 := Reader.path_note hread
    refine ⟨hindex ▸ hsound.start _, fun path hne => hindex ▸ hsound.sameAt_start _ fun heq =>
      hne (heq.trans hpath), failure?_eq_none hread, ?_⟩
    obtain ⟨hupdate, -⟩ := Session.start_eq_pending (congrArg Prod.fst hstart)
    exact (congrArg Change.path hupdate).symm.trans hpath
  | land hdone hfate =>
    rename_i pending tasks index found
    have hindex : (complete parse state.index (.pending pending)).2 = index :=
      congrArg Prod.snd hdone
    obtain ⟨hread, hpath⟩ := hjob
    refine ⟨hindex ▸ hsound.completed hlabels pending,
      fun path hne => hindex ▸ hsound.sameAt_complete hlabels pending (hpath ▸ hne), ?_⟩
    exact deserves_of_fate hread hfate

/-! ## What the jobs come to -/

/-- What holds while the jobs for the notes of a folder take turns. -/
structure Reached (reader : Reader) (folder : Folder) (before : Index)
    (ran : Gathering) : Prop where
  entries : ran.jobs.map Prod.fst = folder.notes
  sound : ran.state.index.Sound
  others : ∀ path, (∀ entry ∈ folder.notes, Route.text entry.1 ≠ path) →
    SameAt path before ran.state.index
  keeps : ∀ job ∈ ran.jobs, Keeps reader before ran.state.index job.1 job.2

theorem reached_start (reader : Reader) (folder : Folder) {state : State}
    (hsound : state.index.Sound) :
    Reached reader folder state.index ⟨state, folder.notes.map fun entry => (entry, .waiting)⟩ where
  entries := (List.map_map).trans (List.map_id folder.notes)
  sound := hsound
  others path _ := .refl path _
  keeps job hjob := by
    obtain ⟨entry, -, rfl⟩ := List.mem_map.1 hjob
    trivial

theorem Reached.step (hlabels : Labels parse) {folder : Folder} (hfolder : folder.IsDirectory)
    {ran next : Gathering} (h : Reached reader folder before ran)
    (hstep : Gathering.Step parse files reader before ran next) :
    Reached reader folder before next := by
  obtain @⟨state, state', jobs, number, entry, job, advanced, hjob, hstep⟩ := hstep
  have hentries : jobs.map Prod.fst = folder.notes := h.entries
  have hentry : folder.notes[number]? =
      some entry := by rw [← hentries, List.getElem?_map, hjob, Option.map_some]
  obtain ⟨hsound, hsame, hkeeps⟩ :=
    hstep.keeps hlabels h.sound (h.keeps _ (List.mem_of_getElem? hjob))
  refine ⟨?_, hsound, fun path hpath => ?_, fun found hfound => ?_⟩
  · obtain ⟨_, hget⟩ := List.getElem?_eq_some_iff.1 hentry
    rw [List.map_set, hentries, ← hget, List.set_getElem_self]
  · exact (h.others path hpath).trans (hsame path (hpath entry (List.mem_of_getElem? hentry)).symm)
  · obtain ⟨n, hn⟩ := List.mem_iff_getElem?.1 hfound
    by_cases heq : number = n
    · subst heq
      rw [List.getElem?_set_self (List.getElem?_eq_some_iff.1 hjob).1] at hn
      cases hn
      exact hkeeps
    · -- the jobs are for notes of their own, so this one is for another note
      rw [List.getElem?_set_ne heq] at hn
      have hother : folder.notes[n]? =
          some found.1 := by rw [← hentries, List.getElem?_map, hn, Option.map_some]
      refine (h.keeps found (List.mem_of_getElem? hn)).of_sameAt (hsame _ fun htext => heq ?_)
      have hplace : (folder.notes.map fun entry => Route.text entry.1)[number]? =
          (folder.notes.map fun entry => Route.text entry.1)[n]? := by
        rw [List.getElem?_map, List.getElem?_map, hentry, hother, Option.map_some,
          Option.map_some, htext]
      exact (List.getElem?_inj (by simpa using (List.getElem?_eq_some_iff.1 hentry).1)
        hfolder.nodup_texts).1 hplace

theorem Reached.of_steps (hlabels : Labels parse) {folder : Folder} (hfolder : folder.IsDirectory)
    {state : State} (hsound : state.index.Sound) {ran : Gathering}
    (h : Relation.ReflTransGen (Gathering.Step parse files reader state.index)
      ⟨state, folder.notes.map fun entry => (entry, .waiting)⟩ ran) :
    Reached reader folder state.index ran := by
  induction h with
  | refl => exact reached_start reader folder hsound
  | tail _ hstep ih => exact ih.step hlabels hfolder hstep

/-! ## One note after the other -/

/-- An update that has a result had it at once, or was sent off and had it when the parse ended. -/
theorem start_of_update {note : Note} {result : Option (List Task)}
    (h : (index.update parse note).1 = .ok result) :
    index.start (.update note) = (.done (.ok (.updated result)), (index.update parse note).2) ∨
      ∃ pending next, index.start (.update note) = (.pending pending, next) ∧
        complete parse next (.pending pending) =
          (.ok (.updated result), (index.update parse note).2) := by
  obtain ⟨checksum, hchecksum, -⟩ := update_isOk_iff.1 ⟨result, h⟩
  have hstarted := start_update_fst index hchecksum
  rcases hstart : index.start (.update note) with ⟨started, next⟩
  rw [hstart] at hstarted
  split at hstarted
  · next hlookup =>
    obtain rfl := hstarted
    unfold update at h ⊢
    rw [hstart] at h ⊢
    cases h
    exact .inl rfl
  · obtain rfl := hstarted
    refine .inr ⟨_, next, rfl, ?_⟩
    unfold update at h ⊢
    rw [hstart] at h ⊢
    dsimp only at h ⊢
    rcases hdone :
      complete parse
        next (.pending ⟨note, (index.nextVersion note.path).1, checksum⟩) with ⟨_ | stored | _,
          last⟩
    · rw [hdone] at h
      cases h
    · rw [hdone] at h
      cases h
      rfl
    · simp only [complete] at hdone
      split at hdone <;> cases hdone

theorem steps_of_indexEntry (hproper : Proper parse) {state : State} {found : Fate}
    (h : (indexEntry parse files reader before state entry).1.2 = .ok found) :
    Relation.ReflTransGen (JobStep parse files reader before entry) (state, .waiting)
      ((indexEntry parse files reader before state entry).2, .ended found) := by
  unfold indexEntry indexFile at h ⊢
  dsimp only at h ⊢
  cases hread : reader.note entry with
  | error cause =>
    rw [hread] at h
    exact .single (.refuse hread h)
  | ok note =>
    rw [hread] at h
    dsimp only at h ⊢
    cases hdata : projectData reader.load files state.kept entry.1 with
    | error cause =>
      rw [hdata] at h
      obtain ⟨_, hok⟩ | ⟨reported, hfile, -⟩ := fate_isOk_iff.1 ⟨found, h⟩
      · cases hok
      · cases hfile
        exact absurd hdata (projectData_ne_file reader.load files state.kept entry.1 reported)
    | ok data =>
      rw [hdata] at h
      dsimp only at h ⊢
      obtain ⟨result, hresult⟩ := exists_of_fate_update hproper h
      rw [hresult] at h
      obtain hstart | ⟨pending, next, hstart, hdone⟩ := start_of_update hresult
      · exact .single (.settle hread hdata hstart h)
      · exact .head (.launch hread hdata hstart) (.single (.land hdone h))

theorem steps_set {number : Nat} {jobs : List ((Route × StoredFile) × Job)}
    {state next : State} {job advanced : Job} (hjob : jobs[number]? = some (entry, job))
    (h : Relation.ReflTransGen (JobStep parse files reader before entry) (state, job)
      (next, advanced)) :
    Relation.ReflTransGen (Gathering.Step parse files reader before) ⟨state, jobs⟩
      ⟨next, jobs.set number (entry, advanced)⟩ := by
  obtain ⟨hlt, hget⟩ := List.getElem?_eq_some_iff.1 hjob
  generalize hlast : (next, advanced) = last at h
  induction h generalizing next advanced with
  | refl =>
    cases hlast
    rw [← hget, List.set_getElem_self]
  | tail _ hstep ih =>
    rename_i middle _ _
    subst hlast
    have hset : (jobs.set number (entry, middle.2))[number]? = some (entry, middle.2) :=
      List.getElem?_set_self hlt
    have hgo := (ih rfl).tail (.go hset hstep)
    rwa [List.set_set] at hgo

theorem steps_of_through (hproper : Proper parse) {entries : Folder} {state : State}
    {fates : List (Text × Fate)}
    (h : List.Forall₂ (fun result found => found.1 = result.1 ∧ result.2 = .ok found.2)
      (through (indexEntry parse files reader before) state entries).1 fates)
    (done : List ((Route × StoredFile) × Job)) :
    ∃ jobs, List.Forall₂ (fun job found => found.1 = Route.text job.1.1 ∧
      job.2 = .ended found.2) jobs fates ∧
      Relation.ReflTransGen (Gathering.Step parse files reader before)
        ⟨state, done ++ entries.map fun entry => (entry, .waiting)⟩
        ⟨(through (indexEntry parse files reader before) state entries).2, done ++ jobs⟩ := by
  induction entries generalizing state fates done with
  | nil =>
    cases h
    exact ⟨[], .nil, .refl⟩
  | cons entry rest ih =>
    rw [through_cons] at h ⊢
    cases h with
    | cons hfirst hrest =>
      rename_i found fates
      obtain ⟨hpath, hfound⟩ := hfirst
      obtain ⟨jobs, hjobs, hsteps⟩ := ih hrest (done ++ [(entry, .ended found.2)])
      refine ⟨(entry, .ended found.2) :: jobs, .cons ⟨hpath, rfl⟩ hjobs, ?_⟩
      have hplace : (done ++ (entry, Job.waiting) :: rest.map fun entry =>
          (entry, .waiting))[done.length]? = some (entry, .waiting) := by simp
      have hfirst := steps_set hplace (steps_of_indexEntry hproper hfound)
      rw [List.set_append_right _ _ (Nat.le_refl _), Nat.sub_self, List.set_cons_zero] at hfirst
      rw [List.append_assoc, List.append_assoc] at hsteps
      exact hfirst.trans hsteps

/-- A run over the notes of a folder one after the other is one in which all jobs come to
their ends. -/
theorem gathers_of_indexFolder (hproper : Proper parse) {folder : Folder}
    {state after : State} {report : Report}
    (h : indexFolder parse files reader folder state = .ok (report, after)) :
    Gathers parse files reader folder state report after := by
  obtain ⟨fates, hfates, hreport, hafter⟩ := indexFolder_eq_ok h
  obtain ⟨jobs, hjobs, hsteps⟩ := steps_of_through hproper hfates []
  exact ⟨_, fates, hsteps, hjobs, hreport, hafter⟩

end Checklist.Index
