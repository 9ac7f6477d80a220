import Checklist.Proofs.Project.Kept
import Mathlib.Data.List.Infix

/-! # A reader at work

While project files are written and deleted, one reader answers for notes and keeps what it read.
Main statement: as long as different contents of one place have different times, each of its answers
is the one that a new reader would give (`answers_eq_freshAnswers`). -/

namespace Checklist.ProjectFile
set_option autoImplicit false
open Text

/-! ## Events -/

/-- A change to the files, a note for which the reader is asked, or the order to forget
what is kept. -/
inductive Event where
  | edit (change : Edit)
  | read (note : Route)
  | clear

def Event.folderAfter (folder : Folder) : Event → Folder
  | .edit change => change.apply folder
  | .read _ | .clear => folder

def folderAfter (folder : Folder) (events : List Event) : Folder :=
  events.foldl Event.folderAfter folder

/-- The answer of a reader to an event, if it is asked for something. -/
def answer? (load : Yaml.Loader) (rules : ProjectFileRules) (root : Route) (folder : Folder)
    (kept : Kept) : Event → Option (Except Error (Option Entries))
  | .read note => some ((read load rules folder root note kept).map Prod.fst)
  | .edit _ | .clear => none

/-- What a reader keeps after an event; a reading that fails changes nothing. -/
def keptAfter (load : Yaml.Loader) (rules : ProjectFileRules) (root : Route) (folder : Folder)
    (kept : Kept) : Event → Kept
  | .read note => match read load rules folder root note kept with
    | .ok (_, after) => after
    | .error _ => kept
  | .edit _ => kept
  | .clear => []

/-- The answers of one reader to some events. -/
def answers (load : Yaml.Loader) (rules : ProjectFileRules) (root : Route) :
    Folder → Kept → List Event → List (Except Error (Option Entries))
  | _, _, [] => []
  | folder, kept, event :: events =>
    (answer? load rules root folder kept event).toList ++ answers load rules root
      (event.folderAfter folder) (keptAfter load rules root folder kept event) events

/-- The answers to some events, each of them given by a new reader. -/
def freshAnswers (load : Yaml.Loader) (rules : ProjectFileRules) (root : Route) :
    Folder → List Event → List (Except Error (Option Entries))
  | _, [] => []
  | folder, event :: events =>
    (answer? load rules root folder [] event).toList ++
    freshAnswers load rules root (event.folderAfter folder) events

/-! ## Times -/

/-- The file lies, before or after one of the events, at a place where the project file of some
note may be. -/
def Stands (rules : ProjectFileRules) (root : Route) (folder : Folder) (events : List Event)
    (place : Route) (file : StoredFile) : Prop :=
  (∃ note, place ∈ places rules root note) ∧ ∃ before, before <+: events ∧
    (folderAfter folder before).file? place = some file

/-- No two contents of one place for project files ever have one time. -/
def TellsByTime (rules : ProjectFileRules) (root : Route) (folder : Folder)
    (events : List Event) : Prop :=
  ∀ place file other, Stands rules root folder events place file →
    Stands rules root folder events place other →
    file.modified = other.modified → file.octets = other.octets

theorem TellsByTime.eq {rules : ProjectFileRules} {root : Route} {folder : Folder}
    {events : List Event} (h : TellsByTime rules root folder events)
    {place : Route} {file other : StoredFile} (hfile : Stands rules root folder events place file)
    (hother : Stands rules root folder events place other)
    (htime : file.modified = other.modified) : file = other := by
  have hoctets := h place file other hfile hother htime
  cases file
  cases other
  cases htime
  cases hoctets
  rfl

/-! ## Answers -/

variable {load : Yaml.Loader} {rules : ProjectFileRules} {root : Route} {folder : Folder}
  {before rest : List Event} {kept : Kept}

theorem stands_of_nearest? {note place : Route} {file : StoredFile}
    (h : nearest? rules (folderAfter folder before) root note = some (place, file)) :
    Stands rules root folder (before ++ rest) place file :=
  ⟨⟨note, (mem_places_of_nearest? h).1⟩, before, List.prefix_append _ _, (mem_places_of_nearest? h).2⟩

theorem StoodIn.keptAfter (h : StoodIn load (Stands rules root folder (before ++ rest)) kept)
    (event : Event) :
    StoodIn load (Stands rules root folder (before ++ rest))
      (keptAfter load rules root (folderAfter folder before) kept event) := by
  cases event with
  | edit change => exact h
  | clear => exact fun entry hentry => absurd hentry List.not_mem_nil
  | read note =>
    cases hread : ProjectFile.read load rules (folderAfter folder before) root note kept with
    | error cause => simpa only [ProjectFile.keptAfter, hread] using h
    | ok result =>
      simpa only [ProjectFile.keptAfter, hread] using h.read (fun _ _ => stands_of_nearest?) hread

theorem answer?_eq (htimes : TellsByTime rules root folder (before ++ rest))
    (h : StoodIn load (Stands rules root folder (before ++ rest)) kept)
    (event : Event) : answer? load rules root (folderAfter folder before) kept event =
      answer? load rules root (folderAfter folder before) [] event := by
  cases event with
  | edit change => rfl
  | clear => rfl
  | read note =>
    exact congrArg some (h.map_read_eq (fun _ _ _ => htimes.eq) fun _ _ => stands_of_nearest?)

theorem answers_eq_of_stoodIn (htimes : TellsByTime rules root folder (before ++ rest))
    (h : StoodIn load (Stands rules root folder (before ++ rest)) kept) :
    answers load rules root (folderAfter folder before) kept rest =
      freshAnswers load rules root (folderAfter folder before) rest := by
  -- The events before stay in the hypotheses: what is kept may be of a file that is gone by now and
  -- comes back later.
  induction rest generalizing before kept with
  | nil => rfl
  | cons event rest ih =>
    have hsplit : before ++ event :: rest = (before ++ [event]) ++ rest := by simp
    have hfolder : event.folderAfter (folderAfter folder before) =
        folderAfter folder (before ++ [event]) := by simp [folderAfter]
    have hafter := h.keptAfter event
    have hanswer := answer?_eq htimes h event
    rw [hsplit] at htimes hafter
    rw [answers, freshAnswers, hanswer, hfolder, ih htimes hafter]

/-- Each answer of a reader is the one that a new reader would give about the files as
they are then. -/
theorem answers_eq_freshAnswers {rules : ProjectFileRules} {root : Route}
    {folder : Folder} {events : List Event} (htimes : TellsByTime rules root folder events) :
    answers load rules root folder [] events = freshAnswers load rules root folder events := by
  have hempty : StoodIn load (Stands rules root folder ([] ++ events)) [] :=
    fun _ hentry => absurd hentry List.not_mem_nil
  exact answers_eq_of_stoodIn htimes hempty

theorem tellsByTime_of_forall {rules : ProjectFileRules} {root : Route}
    {folder : Folder} {events : List Event}
    (h : ∀ before ∈ events.inits, ∀ before' ∈ events.inits, ∀ entry ∈ folderAfter folder before,
      ∀ entry' ∈ folderAfter folder before',
      entry.1 = entry'.1 → entry.2.modified = entry'.2.modified →
        entry.2.octets = entry'.2.octets) : TellsByTime rules root folder events := by
  have hmem : ∀ {before : List Event} {place : Route} {file : StoredFile},
      (folderAfter folder before).file? place = some file →
      (place, file) ∈ folderAfter folder before := by
    intro before place file hfile
    obtain ⟨front, back, hsplit, -⟩ := List.lookup_eq_some_iff.1 hfile
    rw [hsplit]
    exact List.mem_append_right _ List.mem_cons_self
  rintro place file other ⟨-, before, hbefore, hfile⟩ ⟨-, before', hbefore', hother⟩ htime
  exact h before ((List.mem_inits _ _).2 hbefore) before' ((List.mem_inits _ _).2 hbefore') _
    (hmem hfile) _ (hmem hother) rfl htime

def vaultFile (content : Text) (time : Int) : StoredFile :=
  ⟨utf8 content, time⟩

/-- A note is asked for before and while a file beside it is no text, after that file is gone and
the one above has changed, and once more after all is as at the start. -/
def vaultEvents : List Event :=
  [.read ["a".toList, "n.md".toList], .edit (.write "a/project.md".toList ⟨[0xff], 2⟩),
   .read ["a".toList, "n.md".toList], .edit (.delete "a/project.md".toList),
   .edit (.write "project.md".toList (vaultFile "project: B".toList 3)),
   .read ["a".toList, "n.md".toList], .clear,
   .edit (.write "project.md".toList (vaultFile "project: A".toList 1)),
   .read ["a".toList, "n.md".toList]]

theorem answers_eq_freshAnswers_vault :
    TellsByTime { enabled := true } []
      [(["project.md".toList], vaultFile "project: A".toList 1)] vaultEvents ∧
      answers Header.standardLoader { enabled := true } []
        [(["project.md".toList], vaultFile "project: A".toList 1)] [] vaultEvents =
          [.ok (some [(.str "project".toList, .str "A".toList)]), .error .notText,
           .ok (some [(.str "project".toList, .str "B".toList)]),
           .ok (some [(.str "project".toList, .str "A".toList)])] := by
  have htimes : TellsByTime { enabled := true } []
      [(["project.md".toList], vaultFile "project: A".toList 1)] vaultEvents :=
    tellsByTime_of_forall (by decide +kernel)
  exact ⟨htimes, (answers_eq_freshAnswers htimes).trans rfl⟩

end Checklist.ProjectFile
