import Checklist.Index.Basic
import Checklist.Project.File

/-! # Updates of the index

Updates and removals run alone or together. Those that run together are all issued before the first
parse ends. Main statement: an update that runs alone is never overtaken (`update_ne_none`). -/

namespace Checklist.Index
set_option autoImplicit false
open Text

/-- Why a note cannot be indexed. -/
inductive Error where
  | file (cause : Note.FileError)
  | projectFile (cause : ProjectFile.Error)
  | checksum (cause : Failure)
  | parse (cause : Note.Error)
  deriving DecidableEq, Repr

/-- A way to find the tasks of a note. -/
abbrev Parse := Note → Except Error (List Task)

def parseWith (settings : Settings) (today : Date) : Parse := fun note =>
  (note.tasks settings today).mapError .parse

/-- A change to one note. -/
inductive Change where
  | update (note : Note)
  | remove (path : Text)

/-- What comes of a change: the tasks of an updated note unless the update was overtaken, or the
number of tasks removed. -/
inductive Outcome where
  | updated (tasks : Option (List Task))
  | removed (count : Nat)

/-- A change that was issued: done, or with a parse still to end. -/
inductive Started where
  | done (outcome : Except Error Outcome)
  | pending (pending : Pending)

def start (index : Index) : Change → Started × Index
  | .remove path =>
    let (count, index) := index.remove path
    (.done (.ok (.removed count)), index)
  | .update note => match index.issue note with
    | (.error cause, index) => (.done (.error (.checksum cause)), index)
    | (.ok (.unchanged tasks), index) => (.done (.ok (.updated (some tasks))), index)
    | (.ok (.pending pending), index) => (.pending pending, index)

def complete (parse : Parse) (index : Index) : Started → Except Error Outcome × Index
  | .done outcome => (outcome, index)
  | .pending pending => match parse pending.note with
    | .error cause => (.error cause, index)
    | .ok tasks =>
      let (stored, index) := index.finish pending tasks
      (.ok (.updated stored), index)

/-- Carries a state through a list of steps and collects what they answer. -/
def through {α β σ : Type} (step : σ → α → β × σ) (state : σ) : List α → List β × σ
  | [] => ([], state)
  | a :: rest =>
    let (b, state) := step state a
    let (bs, state) := through step state rest
    (b :: bs, state)

/-- Makes changes together: all are issued in order, and then all end. -/
def together (parse : Parse) (index : Index) (changes : List Change) :
    List (Except Error Outcome) × Index :=
  let (started, index) := through start index changes
  through (complete parse) index started

/-- Updates a note; the tasks are those that it has now. -/
def update (parse : Parse) (index : Index) (note : Note) :
    Except Error (Option (List Task)) × Index :=
  let (started, index) := index.start (.update note)
  match complete parse index started with
  | (.ok (.updated tasks), index) => (.ok tasks, index)
  | (.ok (.removed _), index) => (.ok none, index)
  | (.error cause, index) => (.error cause, index)

theorem isOvertaken_issue {index next : Index} {note : Note} {pending : Pending}
    (h : index.issue note = (.ok (.pending pending), next)) :
    next.isOvertaken pending = false := by
  have hversion := versions_nextVersion index note.path
  unfold issue at h
  revert h
  dsimp only
  cases note.checksum with
  | error cause => simp
  | ok checksum =>
    dsimp only
    split
    · simp
    · simp only [Prod.mk.injEq, Except.ok.injEq, Issued.pending.injEq]
      rintro ⟨rfl, rfl⟩
      simp [isOvertaken, hversion]

theorem update_ne_none (parse : Parse) (index : Index) (note : Note) :
    (index.update parse note).1 ≠ .ok none := by
  unfold update start
  dsimp only
  rcases hissue : index.issue note with ⟨issued, next⟩
  match issued with
  | .error cause => simp [complete]
  | .ok (.unchanged tasks) => simp [complete]
  | .ok (.pending pending) =>
    have hover := isOvertaken_issue hissue
    cases hparse : parse pending.note with
    | error cause => simp [complete, hparse]
    | ok tasks => simp [complete, hparse, finish, hover]

end Checklist.Index
