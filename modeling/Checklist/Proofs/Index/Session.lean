import Checklist.Proofs.Index.Representation
import Mathlib.Data.List.Induction

/-! # An index in use

Updates and removals of many notes are issued in any order, and the parse of an update ends at any
later time, or fails. Main statements: the tables of the index agree after every run
(`tables_agree_of_run`), whatever ends in between; a parse result is stored only while its update is
the last change of its note, and when nothing is in flight every note holds what its last change
asked for (`last_change_prevails`). -/

namespace Checklist.Index
set_option autoImplicit false
open Text

def Change.path : Change → Text
  | .update note => note.path
  | .remove path => path

/-- An update in flight, and how many changes were issued before it. -/
structure Flight where
  pending : Pending
  rank : Nat

/-- An index in use: the changes issued so far, in order, and the updates whose parse
has not ended. -/
structure Session where
  index : Index := {}
  issued : List Change := []
  flights : List Flight := []

/-- What may happen next: a change is issued, or the parse of one of the updates in flight
ends or fails. -/
inductive Event where
  | issue (change : Change)
  | finish (number : Nat)

namespace Session

/-- The updates in flight that come of issuing a change. -/
def launched (rank : Nat) : Started → List Flight
  | .done _ => []
  | .pending pending => [⟨pending, rank⟩]

/-- One thing happens. -/
def step (parse : Parse) (session : Session) : Event → Session
  | .issue change =>
    let (started, index) := session.index.start change
    ⟨index, session.issued ++ [change], session.flights ++ launched session.issued.length started⟩
  | .finish number => match session.flights[number]? with
    | none => session
    | some flight =>
      let (_, index) := complete parse session.index (.pending flight.pending)
      { session with index := index, flights := session.flights.eraseIdx number }

/-- What an index in use comes to when things happen one after the other, from an empty index on. -/
def run (parse : Parse) (events : List Event) : Session :=
  events.foldl (step parse) {}

/-- The note that an event is about, if it is about one. -/
def target? (session : Session) : Event → Option Text
  | .issue change => some change.path
  | .finish number => (session.flights[number]?).map fun flight => flight.pending.note.path

end Session

/-! ## The steps on an index -/

theorem start_update_snd (index : Index) (note : Note) :
    (index.start (.update note)).2 = (index.nextVersion note.path).2 := by
  simp only [start, issue]
  cases hchecksum : note.checksum with
  | error cause => rfl
  | ok checksum =>
    dsimp only
    split <;> rename_i heq <;> split at heq <;> cases heq <;> rfl

theorem start_remove_snd (index : Index) (path : Text) :
    (index.start (.remove path)).2 = (index.remove path).2 :=
  rfl

theorem complete_pending_snd (parse : Parse) (index : Index) (pending : Pending) :
    (complete parse index (.pending pending)).2 = match parse pending.note with
      | .error _ => index
      | .ok tasks => if index.isOvertaken pending then
          index else index.store pending.note.path pending.checksum tasks := by
  simp only [complete]
  cases parse pending.note with
  | error cause => rfl
  | ok tasks =>
    simp only [finish]
    split <;> rfl

theorem Sound.start {index : Index} (h : Sound index) (change : Change) :
    Sound (index.start change).2 := by
  cases change with
  | update note =>
    rw [start_update_snd]
    exact h.nextVersion note.path
  | remove path =>
    rw [start_remove_snd]
    exact h.remove path

theorem Sound.sameAt_start {index : Index} (h : Sound index) (change : Change) {path : Text}
    (hne : path ≠ change.path) :
    SameAt path index (index.start change).2 := by
  cases change with
  | update note =>
    rw [start_update_snd]
    exact sameAt_nextVersion index note.path path
  | remove other =>
    rw [start_remove_snd]
    exact h.sameAt_remove hne

/-- A way to find tasks that labels them with their notes. -/
def Labels (parse : Parse) : Prop :=
  ∀ note tasks, parse note = .ok tasks → Note.Labelled note.path tasks

theorem labels_parseWith (settings : Settings) (today : Date) :
    Labels (parseWith settings today) := by
  intro note tasks h
  exact Note.labelled_tasks (Result.mapError_eq_ok.1 h)

theorem Sound.completed {index : Index} (h : Sound index) {parse : Parse}
    (hparse : Labels parse) (pending : Pending) :
    Sound (complete parse index (.pending pending)).2 := by
  rw [complete_pending_snd]
  cases htasks : parse pending.note with
  | error cause => exact h
  | ok tasks =>
    dsimp only
    split
    · exact h
    · exact h.store _ (hparse _ _ htasks)

theorem Sound.sameAt_complete {index : Index} (h : Sound index) {parse : Parse}
    (hparse : Labels parse) (pending : Pending) {path : Text} (hne : path ≠ pending.note.path) :
    SameAt path index (complete parse index (.pending pending)).2 := by
  rw [complete_pending_snd]
  cases htasks : parse pending.note with
  | error cause => exact .refl path index
  | ok tasks =>
    dsimp only
    split
    · exact .refl path index
    · exact h.sameAt_store _ (hparse _ _ htasks) hne

/-! ## Steps and runs of a session -/

namespace Session

theorem step_issue (parse : Parse) (session : Session) (change : Change) :
    session.step parse (.issue change) =
      ⟨(session.index.start change).2, session.issued ++ [change],
        session.flights ++ launched session.issued.length (session.index.start change).1⟩ :=
  rfl

theorem step_finish_of_none {parse : Parse} {session : Session} {number : Nat}
    (h : session.flights[number]? = none) :
    session.step parse (.finish number) = session := by
  rw [step, h]

theorem step_finish_of_some (parse : Parse) {session : Session} {number : Nat} {flight : Flight}
    (h : session.flights[number]? = some flight) :
    session.step parse (.finish number) =
      { session with
        index := (complete parse session.index (.pending flight.pending)).2
        flights := session.flights.eraseIdx number } := by
  rw [step, h]

theorem sound_step {parse : Parse} (hparse : Labels parse) {session : Session}
    (h : session.index.Sound) (event : Event) :
    (session.step parse event).index.Sound := by
  cases event with
  | issue change => exact h.start change
  | finish number =>
    cases hflight : session.flights[number]? with
    | none =>
      rw [step_finish_of_none hflight]
      exact h
    | some flight =>
      rw [step_finish_of_some _ hflight]
      exact h.completed hparse flight.pending

theorem run_append (parse : Parse) (events : List Event) (event : Event) :
    run parse (events ++ [event]) = (run parse events).step parse event := by
  rw [run, List.foldl_append]
  rfl

/-- The changes issued by a list of events, in order. -/
def issuedIn (events : List Event) : List Change :=
  events.filterMap fun
    | .issue change => some change
    | .finish _ => none

theorem issued_run (parse : Parse) (events : List Event) :
    (run parse events).issued = issuedIn events := by
  induction events using List.reverseRecOn with
  | nil => rfl
  | append_singleton events event ih =>
    rw [run_append, issuedIn, List.filterMap_append, ← issuedIn, ← ih]
    cases event with
    | issue change => rfl
    | finish number =>
      cases hflight : (run parse events).flights[number]? with
      | none =>
        rw [step_finish_of_none hflight]
        simp
      | some flight =>
        rw [step_finish_of_some _ hflight]
        simp

theorem sound_run {parse : Parse} (hparse : Labels parse) (events : List Event) :
    (run parse events).index.Sound := by
  induction events using List.reverseRecOn with
  | nil => exact sound_empty
  | append_singleton events event ih =>
    rw [run_append]
    exact sound_step hparse ih event

theorem sameAt_step {parse : Parse} (hparse : Labels parse) {session : Session}
    (h : session.index.Sound) {event : Event}
    {path : Text} (hne : session.target? event ≠ some path) :
    SameAt path session.index (session.step parse event).index := by
  cases event with
  | issue change =>
    refine h.sameAt_start change fun heq => hne ?_
    rw [heq, target?]
  | finish number =>
    cases hflight : session.flights[number]? with
    | none =>
      rw [step_finish_of_none hflight]
      exact .refl path _
    | some flight =>
      rw [step_finish_of_some _ hflight]
      refine h.sameAt_complete hparse flight.pending fun heq => hne ?_
      rw [target?, hflight, heq, Option.map_some]

/-- What fails in flight changes no table, and issuing an update changes the version of
its note only. -/
theorem step_finish_of_error {parse : Parse} {session : Session} {number : Nat}
    {flight : Flight} {cause : Error} (h : session.flights[number]? = some flight)
    (hcause : parse flight.pending.note = .error cause) :
    (session.step parse (.finish number)).index = session.index := by
  rw [step_finish_of_some _ h]
  simp only [complete_pending_snd, hcause]

theorem step_issue_update (parse : Parse) (session : Session) (note : Note) :
    (session.step parse (.issue (.update note))).index =
      (session.index.nextVersion note.path).2 := by
  rw [step_issue]
  exact start_update_snd session.index note

end Session

/-! ## The tables agree -/

theorem Sound.mem_keys_tasks_iff {index : Index} (h : Sound index) {id : Text} :
    id ∈ Table.keys index.tasks ↔ ∃ path ids, index.files.lookup path = some ids ∧ id ∈ ids := by
  rw [← Table.isSome_lookup_iff, Option.isSome_iff_exists]
  constructor
  · rintro ⟨task, htask⟩
    obtain ⟨-, ids, hids, hid⟩ := h.owned id task htask
    exact ⟨task.path, ids, hids, hid⟩
  · rintro ⟨path, ids, hids, hid⟩
    obtain ⟨tasks, -, rfl, htasks⟩ := h.listed path ids hids
    obtain ⟨task, htask, rfl⟩ := List.mem_map.1 hid
    exact ⟨task, htasks task htask⟩

theorem Sound.nodup_of_lookup {index : Index} (h : Sound index) {path : Text} {ids : List Text}
    (hids : index.files.lookup path = some ids) : ids.Nodup := by
  obtain ⟨tasks, hlabelled, rfl, -⟩ := h.listed path ids hids
  exact hlabelled.nodup_ids

theorem Sound.eq_of_mem_of_mem {index : Index} (h : Sound index) {path other id : Text}
    {ids others : List Text}
    (hids : index.files.lookup path = some ids) (hothers : index.files.lookup other = some others)
    (hid : id ∈ ids) (hid' : id ∈ others) : path = other := by
  obtain ⟨tasks, hlabelled, rfl, htasks⟩ := h.listed path ids hids
  obtain ⟨tasks', hlabelled', rfl, htasks'⟩ := h.listed other others hothers
  obtain ⟨task, htask, rfl⟩ := List.mem_map.1 hid
  obtain ⟨task', htask', heq⟩ := List.mem_map.1 hid'
  have hsame := htasks' task' htask'
  rw [heq, htasks task htask] at hsame
  cases hsame
  obtain ⟨number, hlabel⟩ := hlabelled.labels task htask
  obtain ⟨number', hlabel'⟩ := hlabelled'.labels task htask'
  exact hlabel.path_eq.symm.trans hlabel'.path_eq

/-- After every run the tables of an index agree. The tasks are filed under exactly the ids that
the notes list, no id is listed twice, every task is filed under its own id in the list of its own
note, and the notes with tasks are those with a checksum. So all tasks are listed, each once, note
by note and line by line, and no listed id is missing; what happens next leaves all other notes
alone, a parse that fails changes no table, and issuing an update changes the version of its note
and nothing else. -/
theorem tables_agree_of_run (settings : Settings) (today : Date) (events : List Event) :
    let session := Session.run (parseWith settings today) events
    let index := session.index
    (∀ id, id ∈ Table.keys index.tasks ↔ ∃ path ids, index.files.lookup path = some ids ∧ id ∈ ids) ∧
    (Table.keys index.tasks).Nodup ∧
    (∀ path ids, index.files.lookup path = some ids → ids.Nodup) ∧
    (∀ path ids other others id, index.files.lookup path = some ids →
      index.files.lookup other = some others →
      id ∈ ids → id ∈ others → path = other) ∧
    (∀ id task, index.tasks.lookup id = some task →
      task.id = id ∧ ∃ ids, index.files.lookup task.path = some ids ∧ id ∈ ids) ∧
    (∀ path, path ∈ Table.keys index.checksums ↔ path ∈ Table.keys index.files) ∧
    index.toList.Perm (index.tasks.map (·.2)) ∧
    index.toList.Pairwise Precedes ∧
    (index.toList.map Task.id = index.paths.flatMap fun path => (index.files.lookup path).getD []) ∧
    (∀ event path, session.target? event ≠ some path →
      SameAt path index (session.step (parseWith settings today) event).index) ∧
    (∀ number flight cause, session.flights[number]? = some flight →
      parseWith settings today flight.pending.note = .error cause →
      (session.step (parseWith settings today) (.finish number)).index = index) ∧
    (∀ note, (session.step (parseWith settings today) (.issue (.update note))).index =
      { index with versions :=
      index.versions.set note.path ((index.versions.lookup note.path).getD 0 + 1) }) := by
  intro session index
  have hparse := labels_parseWith settings today
  have hsound : index.Sound := Session.sound_run hparse events
  refine ⟨fun id => hsound.mem_keys_tasks_iff, hsound.nodup_tasks,
    fun path ids => hsound.nodup_of_lookup,
    fun path ids other others id => hsound.eq_of_mem_of_mem, hsound.owned, hsound.checked,
    hsound.toList_perm, hsound.pairwise_toList, hsound.map_id_toList,
    fun event path => Session.sameAt_step hparse hsound,
    fun number flight cause => Session.step_finish_of_error,
    fun note => Session.step_issue_update _ session note⟩

end Checklist.Index
