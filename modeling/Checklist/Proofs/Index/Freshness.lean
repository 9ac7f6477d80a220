import Checklist.Proofs.Index.Session

/-! # The last change of a note prevails

The version of a note counts the changes issued for it, so an update in flight is overtaken exactly
when a later change of its note was issued. What is stored for a note is what some update of it
asked for, and the checksum tells which; so an update that finds the checksum of its own input finds
the tasks of that input as well. Main statement: `last_change_prevails`. -/

namespace Checklist.Index
set_option autoImplicit false
open Text

/-! ## The changes of one note -/

/-- The changes of a note among the changes issued, in order. -/
def changesOf (path : Text) (changes : List Change) : List Change :=
  changes.filter fun change => change.path == path

/-- The last change of a note, if there is one. -/
def lastOf (path : Text) (changes : List Change) : Option Change :=
  (changesOf path changes).getLast?

theorem changesOf_append (path : Text) (changes : List Change) (change : Change) :
    changesOf path (changes ++ [change]) = if change.path = path then
      changesOf path changes ++ [change] else changesOf path changes := by
  rw [changesOf, List.filter_append, ← changesOf]
  by_cases h : change.path = path <;> simp [h]

theorem lastOf_append (path : Text) (changes : List Change) (change : Change) :
    lastOf path (changes ++ [change]) = if change.path = path then
      some change else lastOf path changes := by
  rw [lastOf, changesOf_append]
  split
  · simp
  · rfl

theorem changesOf_append_eq_nil_iff {path : Text} {changes : List Change} {change : Change} :
    changesOf path (changes ++ [change]) = [] ↔ changesOf path changes = [] ∧
      change.path ≠ path := by
  rw [changesOf_append]
  by_cases h : change.path = path <;> simp [h]

theorem lastOf_eq_of_drop {path : Text} {changes : List Change} {rank : Nat} {change : Change}
    (h : changes[rank]? = some change)
    (hpath : change.path = path) (hlater : changesOf path (changes.drop (rank + 1)) = []) :
    lastOf path changes = some change := by
  have hsplit : changes = changes.take rank ++ change :: changes.drop (rank + 1) := by
    obtain ⟨hlt, rfl⟩ := List.getElem?_eq_some_iff.1 h
    rw [List.getElem_cons_drop, List.take_append_drop]
  rw [lastOf, hsplit, changesOf, List.filter_append, List.filter_cons,
    if_pos (by simpa using hpath), ← changesOf, ← changesOf, hlater]
  simp

/-! ## Versions count changes -/

theorem versions_start (index : Index) (change : Change) :
    (index.start change).2.versions =
      index.versions.set change.path ((index.versions.lookup change.path).getD 0 + 1) := by
  cases change with
  | update note =>
    rw [start_update_snd]
    rfl
  | remove path => rfl

theorem versions_complete (parse : Parse) (index : Index) (pending : Pending) :
    (complete parse index (.pending pending)).2.versions = index.versions := by
  rw [complete_pending_snd]
  cases parse pending.note with
  | error cause => rfl
  | ok tasks =>
    dsimp only
    split <;> rfl

theorem start_update_fst (index : Index) {note : Note} {checksum : Text}
    (h : note.checksum = .ok checksum) :
    (index.start (.update note)).1 =
      if index.checksums.lookup note.path = some checksum then
        .done (.ok (.updated (some (index.tasksOf note.path))))
      else .pending ⟨note, (index.nextVersion note.path).1, checksum⟩ := by
  have hchecksums : (index.nextVersion note.path).2.checksums = index.checksums := rfl
  have htasks : (index.nextVersion note.path).2.tasksOf note.path = index.tasksOf note.path := rfl
  simp only [start, issue, h, hchecksums, htasks, beq_iff_eq]
  split <;> rename_i heq <;> split at heq <;> cases heq <;> simp [*]

theorem start_update_fst_of_error {index : Index} {note : Note} {cause : Failure}
    (h : note.checksum = .error cause) :
    (index.start (.update note)).1 = .done (.error (.checksum cause)) := by
  simp [start, issue, h]

namespace Session

def after (session : Session) (flight : Flight) : List Change :=
  session.issued.drop (flight.rank + 1)

/-- Versions count the changes issued, and an update in flight knows its place among them. -/
structure Numbered (session : Session) : Prop where
  versions : ∀ path, (session.index.versions.lookup path).getD 0 =
    (changesOf path session.issued).length
  flights : ∀ flight ∈ session.flights,
    session.issued[flight.rank]? = some (.update flight.pending.note) ∧
      flight.pending.version =
        (changesOf flight.pending.note.path (session.issued.take (flight.rank + 1))).length ∧
      flight.pending.note.checksum = .ok flight.pending.checksum

theorem mem_launched {rank : Nat} {started : Started} {flight : Flight}
    (h : flight ∈ launched rank started) :
    started = .pending flight.pending ∧ flight.rank = rank := by
  cases started with
  | done outcome => simp [launched] at h
  | pending pending =>
    rw [launched, List.mem_singleton] at h
    subst h
    exact ⟨rfl, rfl⟩

theorem start_eq_pending {index : Index} {change : Change} {pending : Pending}
    (h : (index.start change).1 = .pending pending) :
    change = .update pending.note ∧ pending.note.checksum = .ok pending.checksum ∧
      pending.version = (index.versions.lookup pending.note.path).getD 0 + 1 ∧
      index.checksums.lookup pending.note.path ≠ some pending.checksum := by
  cases change with
  | remove path => simp [start] at h
  | update note =>
    cases hchecksum : note.checksum with
    | error cause => simp [start_update_fst_of_error hchecksum] at h
    | ok checksum =>
      rw [start_update_fst index hchecksum] at h
      split at h
      · simp at h
      · rename_i hne
        cases h
        exact ⟨rfl, hchecksum, rfl, hne⟩

theorem Numbered.step {parse : Parse} {session : Session} (h : session.Numbered) (event : Event) :
    (session.step parse event).Numbered := by
  cases event with
  | issue change =>
    rw [step_issue]
    constructor
    · intro path
      rw [versions_start, changesOf_append]
      by_cases hpath : change.path = path
      · subst hpath
        simp [Table.lookup_set_self, h.versions]
      · rw [Table.lookup_set_of_ne _ fun heq => hpath heq.symm, h.versions, if_neg hpath]
    · intro flight hflight
      rcases List.mem_append.1 hflight with hold | hnew
      · obtain ⟨hissued, hversion, hchecksum⟩ := h.flights flight hold
        have hlt : flight.rank < session.issued.length := (List.getElem?_eq_some_iff.1 hissued).1
        refine ⟨?_, ?_, hchecksum⟩
        · rw [List.getElem?_append_left hlt]
          exact hissued
        · rw [List.take_append_of_le_length (by omega)]
          exact hversion
      · obtain ⟨hstarted, hrank⟩ := mem_launched hnew
        obtain ⟨rfl, hchecksum, hversion, -⟩ := start_eq_pending hstarted
        refine ⟨by simp [hrank], ?_, hchecksum⟩
        rw [hversion, h.versions, hrank, List.take_of_length_le (by simp), changesOf_append]
        simp [Change.path]
  | finish number =>
    cases hflight : session.flights[number]? with
    | none =>
      rw [step_finish_of_none hflight]
      exact h
    | some flight =>
      rw [step_finish_of_some parse hflight]
      constructor
      · intro path
        rw [versions_complete]
        exact h.versions path
      · intro other hother
        exact h.flights other (List.mem_of_mem_eraseIdx hother)

theorem numbered_run (parse : Parse) (events : List Event) : (run parse events).Numbered := by
  induction events using List.reverseRecOn with
  | nil => exact ⟨by simp [run, changesOf], by simp [run]⟩
  | append_singleton events event ih =>
    rw [run_append]
    exact ih.step event

theorem Numbered.isOvertaken_iff {session : Session} (h : session.Numbered) {flight : Flight}
    (hflight : flight ∈ session.flights) :
    session.index.isOvertaken flight.pending = true ↔
      changesOf flight.pending.note.path (session.after flight) ≠ [] := by
  obtain ⟨hissued, hversion, -⟩ := h.flights flight hflight
  have hcount : (changesOf flight.pending.note.path session.issued).length =
      flight.pending.version + (changesOf flight.pending.note.path (session.after flight)).length := by
    rw [hversion, after, ← List.length_append, changesOf, changesOf, changesOf,
      ← List.filter_append, List.take_append_drop]
  have hpos : 0 < flight.pending.version := by
    rw [hversion, List.length_pos_iff_exists_mem]
    refine ⟨.update flight.pending.note, List.mem_filter.2 ⟨?_, by simp [Change.path]⟩⟩
    obtain ⟨hlt, hget⟩ := List.getElem?_eq_some_iff.1 hissued
    rw [← hget]
    exact List.mem_take_iff_getElem.2 ⟨flight.rank, by omega, rfl⟩
  have hcurrent := h.versions flight.pending.note.path
  rw [isOvertaken, bne_iff_ne, ne_eq, ne_eq, ← List.length_eq_zero_iff]
  cases hlookup : session.index.versions.lookup flight.pending.note.path with
  | none =>
    rw [hlookup, Option.getD_none] at hcurrent
    omega
  | some version =>
    rw [hlookup, Option.getD_some] at hcurrent
    rw [Option.some.injEq]
    omega

/-! ## What is stored was asked for -/

/-- A note has tasks and a checksum in an index. -/
structure Holds (index : Index) (path checksum : Text) (tasks : List Task) : Prop where
  files_eq : index.files.lookup path = some (tasks.map Task.id)
  tasks_eq : index.tasksOf path = tasks
  checksum_eq : index.checksums.lookup path = some checksum

theorem Holds.of_sameAt {before after : Index} {path checksum : Text} {tasks : List Task}
    (h : Holds before path checksum tasks)
    (hsame : SameAt path before after) : Holds after path checksum tasks :=
  ⟨hsame.files_eq.trans h.files_eq, hsame.tasks_eq.trans h.tasks_eq,
    hsame.checksum_eq.trans h.checksum_eq⟩

theorem holds_store (index : Index) {path : Text} (checksum : Text) {tasks : List Task}
    (hlabelled : Note.Labelled path tasks) :
    Holds (index.store path checksum tasks) path checksum tasks :=
  ⟨Table.lookup_set_self _ _ _, tasksOf_store_self index checksum hlabelled,
    Table.lookup_set_self _ _ _⟩

/-- An update of a note that its input allows to be carried out: it has a checksum and its parse
finds tasks. -/
structure Succeeds (parse : Parse) (note : Note) (checksum : Text) (tasks : List Task) : Prop where
  checksum_eq : note.checksum = .ok checksum
  parse_eq : parse note = .ok tasks

/-- What the last change of a note, if there is one, asks an index to hold; an update in flight that
was not overtaken may still have to store it, and an update that fails asks for nothing. -/
def Settles (parse : Parse) (session : Session) (path : Text) : Option Change → Prop
  | none | some (.remove _) => session.index.files.lookup path = none
  | some (.update note) => ∀ checksum tasks, Succeeds parse note checksum tasks →
      Holds session.index path checksum tasks ∨
        ∃ flight ∈ session.flights, flight.pending.note = note ∧
          changesOf path (session.after flight) = []

/-- Every checksum comes with the tasks that an update under it asked for. -/
def Backed (parse : Parse) (session : Session) : Prop :=
  ∀ path checksum, session.index.checksums.lookup path = some checksum →
    ∃ note tasks, .update note ∈ session.issued ∧ note.path = path ∧
      Succeeds parse note checksum tasks ∧
      Holds session.index path checksum tasks

/-- A run so far: every checksum comes with the tasks that an update under it asked for, and every
last change is settled. -/
structure Fresh (parse : Parse) (session : Session) : Prop where
  kept : Backed parse session
  settled : ∀ path, Settles parse session path (lastOf path session.issued)

/-- Updates of one note with one checksum have one parse result. -/
def ChecksumsDecide (parse : Parse) (changes : List Change) : Prop :=
  ∀ first second, .update first ∈ changes → .update second ∈ changes → first.path = second.path →
    ∀ checksum, first.checksum = .ok checksum → second.checksum = .ok checksum →
      parse first = parse second

theorem after_issue (parse : Parse) {session : Session} (hnumbered : session.Numbered)
    (change : Change) {flight : Flight} (hflight : flight ∈ session.flights) :
    (session.step parse (.issue change)).after flight = session.after flight ++ [change] := by
  have hlt : flight.rank < session.issued.length :=
    (List.getElem?_eq_some_iff.1 (hnumbered.flights flight hflight).1).1
  rw [step_issue, after, after, List.drop_append_of_le_length (by omega)]

theorem Settles.issue_of_ne {parse : Parse} {session : Session} (hsound : session.index.Sound)
    (hnumbered : session.Numbered)
    {change : Change} {path : Text} (hne : path ≠ change.path) {last : Option Change}
    (h : Settles parse session path last) :
    Settles parse (session.step parse (.issue change)) path last := by
  have hsame : SameAt path session.index (session.step parse (.issue change)).index :=
    hsound.sameAt_start change hne
  match last, h with
  | none, h => exact hsame.files_eq.trans h
  | some (.remove _), h => exact hsame.files_eq.trans h
  | some (.update note), h =>
    intro checksum tasks hsucceeds
    rcases h checksum tasks hsucceeds with hholds | ⟨flight, hflight, hnote, hlast⟩
    · exact .inl (hholds.of_sameAt hsame)
    · refine .inr ⟨flight, List.mem_append_left _ hflight, hnote, ?_⟩
      rw [after_issue parse hnumbered change hflight, changesOf_append_eq_nil_iff]
      exact ⟨hlast, fun heq => hne heq.symm⟩

/-- A change that was just issued is settled: a removal has emptied its note, an update is in flight
or has found its own checksum and with it its own tasks. -/
theorem settles_issue {parse : Parse} {session : Session} (hfresh : session.Fresh parse)
    {change : Change} (hdecide : ChecksumsDecide parse (session.issued ++ [change])) :
    Settles parse (session.step parse (.issue change)) change.path (some change) := by
  cases change with
  | remove path => exact files_remove_self session.index path
  | update note =>
    intro checksum tasks hsucceeds
    by_cases hchecksum : session.index.checksums.lookup note.path = some checksum
    · left
      obtain ⟨earlier, found, hissued, hpath, hearlier, hholds⟩ :=
        hfresh.kept note.path checksum hchecksum
      have hsame := hdecide earlier note (List.mem_append_left _ hissued) (by simp) hpath checksum
        hearlier.checksum_eq hsucceeds.checksum_eq
      rw [hearlier.parse_eq, hsucceeds.parse_eq] at hsame
      cases hsame
      refine hholds.of_sameAt ?_
      rw [step_issue_update]
      exact sameAt_nextVersion session.index note.path note.path
    · right
      have hstarted := start_update_fst session.index hsucceeds.checksum_eq
      rw [if_neg hchecksum] at hstarted
      refine ⟨⟨⟨note, (session.index.nextVersion note.path).1, checksum⟩, session.issued.length⟩,
        ?_, rfl, ?_⟩
      · rw [step_issue, hstarted]
        exact List.mem_append_right _ (by simp [launched])
      · simp [step_issue, after, changesOf]

theorem Backed.issue {parse : Parse} {session : Session} (h : session.Backed parse)
    (hsound : session.index.Sound) (change : Change) :
    (session.step parse (.issue change)).Backed parse := by
  intro path checksum hchecksum
  by_cases hpath : path = change.path
  · subst hpath
    cases change with
    | remove path =>
      rw [step_issue, start_remove_snd, Change.path, checksums_remove_self] at hchecksum
      simp at hchecksum
    | update note =>
      rw [step_issue_update] at hchecksum ⊢
      obtain ⟨earlier, tasks, hissued, hpath, hsucceeds, hholds⟩ := h note.path checksum hchecksum
      exact ⟨earlier, tasks, List.mem_append_left _ hissued, hpath, hsucceeds,
        hholds.of_sameAt (sameAt_nextVersion _ _ _)⟩
  · have hsame : SameAt path session.index (session.step parse (.issue change)).index :=
      hsound.sameAt_start change hpath
    rw [hsame.checksum_eq] at hchecksum
    obtain ⟨earlier, tasks, hissued, heq, hsucceeds, hholds⟩ := h path checksum hchecksum
    exact ⟨earlier, tasks, List.mem_append_left _ hissued, heq, hsucceeds, hholds.of_sameAt hsame⟩

theorem Fresh.issue {parse : Parse} {session : Session} (h : session.Fresh parse)
    (hsound : session.index.Sound) (hnumbered : session.Numbered) {change : Change}
    (hdecide : ChecksumsDecide parse (session.issued ++ [change])) :
    (session.step parse (.issue change)).Fresh parse := by
  refine ⟨h.kept.issue hsound change, fun path => ?_⟩
  have hissued : (session.step parse (.issue change)).issued = session.issued ++ [change] := rfl
  rw [hissued, lastOf_append]
  by_cases hpath : change.path = path
  · rw [if_pos hpath, ← hpath]
    exact settles_issue h hdecide
  · rw [if_neg hpath]
    exact (h.settled path).issue_of_ne hsound hnumbered fun heq => hpath heq.symm

/-! ## What ends in flight -/

/-- The tasks that an update in flight stores when its parse ends: none if the parse fails or a
later change was issued. -/
def stored? (parse : Parse) (session : Session) (flight : Flight) : Option (List Task) :=
  match parse flight.pending.note with
  | .error _ => none
  | .ok tasks => (session.index.finish flight.pending tasks).1

theorem stored?_eq_some_iff {parse : Parse} {session : Session} (hnumbered : session.Numbered)
    {flight : Flight} (hflight : flight ∈ session.flights) {tasks : List Task} :
    stored? parse session flight = some tasks ↔
      parse flight.pending.note = .ok tasks ∧
        changesOf flight.pending.note.path (session.after flight) = [] := by
  have hover := hnumbered.isOvertaken_iff hflight
  rw [stored?]
  cases hparse : parse flight.pending.note with
  | error cause => simp
  | ok found =>
    simp only [finish]
    by_cases hlater : changesOf flight.pending.note.path (session.after flight) = []
    · rw [if_neg fun h => hover.1 h hlater]
      simp [hlater]
    · rw [if_pos (hover.2 hlater)]
      simp [hlater]

theorem index_finish (parse : Parse) {session : Session} {number : Nat} {flight : Flight}
    (h : session.flights[number]? = some flight) :
    (session.step parse (.finish number)).index = match stored? parse session flight with
      | none => session.index
      | some tasks =>
        session.index.store flight.pending.note.path flight.pending.checksum tasks := by
  rw [step_finish_of_some parse h, stored?]
  simp only [complete_pending_snd]
  cases parse flight.pending.note with
  | error cause => rfl
  | ok tasks =>
    simp only [finish]
    split <;> simp_all

theorem Settles.finish {parse : Parse} {session : Session} (hnumbered : session.Numbered)
    {number : Nat} {flight : Flight}
    (hflight : session.flights[number]? = some flight) {path : Text}
    (hsame : SameAt path session.index (session.step parse (.finish number)).index)
    (hstored : flight.pending.note.path = path → stored? parse session flight = none)
    (h : Settles parse session path (lastOf path session.issued)) :
    Settles parse (session.step parse (.finish number)) path (lastOf path session.issued) := by
  have hstep := step_finish_of_some parse hflight
  match hlast : lastOf path session.issued, h with
  | none, h => exact hsame.files_eq.trans h
  | some (.remove _), h => exact hsame.files_eq.trans h
  | some (.update note), h =>
    intro checksum tasks hsucceeds
    rcases h checksum tasks hsucceeds with hholds | ⟨other, hother, hnote, hlater⟩
    · exact .inl (hholds.of_sameAt hsame)
    · refine .inr ⟨other, ?_, hnote, by rw [hstep]; exact hlater⟩
      rw [hstep, List.mem_eraseIdx_iff_getElem?]
      obtain ⟨place, hplace⟩ := List.mem_iff_getElem?.1 hother
      refine ⟨place, ?_, hplace⟩
      rintro rfl
      -- were it the one that ends, it would be stored: it succeeds, and no later change was issued
      rw [hflight] at hplace
      cases hplace
      have hpath : note.path = path := by
        have hmemLast := List.mem_of_getLast? hlast
        simpa [Change.path] using (List.mem_filter.1 hmemLast).2
      rw [← hpath, ← hnote] at hlater
      have hsome := (stored?_eq_some_iff hnumbered hother).2 ⟨hnote ▸ hsucceeds.parse_eq, hlater⟩
      rw [hstored (by rw [hnote, hpath])] at hsome
      simp at hsome

theorem issued_finish (parse : Parse) {session : Session} {number : Nat} {flight : Flight}
    (h : session.flights[number]? = some flight) :
    (session.step parse (.finish number)).issued = session.issued := by
  rw [step_finish_of_some parse h]

theorem Backed.finish {parse : Parse} (hlabels : Labels parse) {session : Session}
    (h : session.Backed parse)
    (hsound : session.index.Sound) (hnumbered : session.Numbered) {number : Nat} {flight : Flight}
    (hflight : session.flights[number]? = some flight) :
    (session.step parse (.finish number)).Backed parse := by
  have hindex := index_finish parse hflight
  intro path checksum hchecksum
  rw [issued_finish parse hflight]
  cases hstored : stored? parse session flight with
  | none =>
    rw [hstored] at hindex
    rw [hindex] at hchecksum ⊢
    exact h path checksum hchecksum
  | some tasks =>
    rw [hstored] at hindex
    rw [hindex] at hchecksum ⊢
    have hparse := ((stored?_eq_some_iff hnumbered (List.mem_of_getElem? hflight)).1 hstored).1
    obtain ⟨hplace, -, hchecksumEq⟩ := hnumbered.flights flight (List.mem_of_getElem? hflight)
    have hlabelled := hlabels _ _ hparse
    have hholdsHere := holds_store session.index flight.pending.checksum hlabelled
    by_cases hpath : path = flight.pending.note.path
    · subst hpath
      rw [hholdsHere.checksum_eq] at hchecksum
      cases hchecksum
      exact ⟨flight.pending.note, tasks, List.mem_of_getElem? hplace, rfl,
        ⟨hchecksumEq, hparse⟩, hholdsHere⟩
    · have hsame := hsound.sameAt_store flight.pending.checksum hlabelled hpath
      rw [hsame.checksum_eq] at hchecksum
      obtain ⟨note, found, hmemIssued, heq, hsucceeds, hholds⟩ := h path checksum hchecksum
      exact ⟨note, found, hmemIssued, heq, hsucceeds, hholds.of_sameAt hsame⟩

theorem Backed.step {parse : Parse} (hlabels : Labels parse) {session : Session}
    (h : session.Backed parse)
    (hsound : session.index.Sound) (hnumbered : session.Numbered) (event : Event) :
    (session.step parse event).Backed parse := by
  cases event with
  | issue change => exact h.issue hsound change
  | finish number =>
    cases hflight : session.flights[number]? with
    | none =>
      rw [step_finish_of_none hflight]
      exact h
    | some flight => exact h.finish hlabels hsound hnumbered hflight

theorem backed_run {parse : Parse} (hlabels : Labels parse) (events : List Event) :
    (run parse events).Backed parse := by
  induction events using List.reverseRecOn with
  | nil => exact fun path checksum h => by simp [run] at h
  | append_singleton events event ih =>
    rw [run_append]
    exact ih.step hlabels (sound_run hlabels events) (numbered_run parse events) event

theorem Fresh.finish_of_none {parse : Parse} (hlabels : Labels parse) {session : Session}
    (h : session.Fresh parse)
    (hsound : session.index.Sound) (hnumbered : session.Numbered) {number : Nat} {flight : Flight}
    (hflight : session.flights[number]? = some flight)
    (hstored : stored? parse session flight = none) :
    (session.step parse (.finish number)).Fresh parse := by
  refine ⟨h.kept.finish hlabels hsound hnumbered hflight, fun path => ?_⟩
  have hindex := index_finish parse hflight
  rw [hstored] at hindex
  rw [issued_finish parse hflight]
  refine (h.settled path).finish hnumbered hflight ?_ fun _ => hstored
  rw [hindex]
  exact .refl path session.index

theorem Fresh.finish_of_some {parse : Parse} (hlabels : Labels parse) {session : Session}
    (h : session.Fresh parse)
    (hsound : session.index.Sound) (hnumbered : session.Numbered) {number : Nat} {flight : Flight}
    (hflight : session.flights[number]? = some flight) {tasks : List Task}
    (hstored : stored? parse session flight = some tasks) :
    (session.step parse (.finish number)).Fresh parse := by
  refine ⟨h.kept.finish hlabels hsound hnumbered hflight, fun path => ?_⟩
  have hindex := index_finish parse hflight
  rw [hstored] at hindex
  dsimp only at hindex
  have hmem : flight ∈ session.flights := List.mem_of_getElem? hflight
  obtain ⟨hparse, hlater⟩ := (stored?_eq_some_iff hnumbered hmem).1 hstored
  obtain ⟨hplace, -, hchecksumEq⟩ := hnumbered.flights flight hmem
  have hlabelled := hlabels _ _ hparse
  rw [issued_finish parse hflight]
  by_cases hpath : path = flight.pending.note.path
  · have hlast :=
      @lastOf_eq_of_drop path _ _ _ hplace
        (by rw [hpath, Change.path]) (by rw [hpath]; exact hlater)
    rw [hlast]
    intro checksum found hsucceeds
    have hchecksum := hsucceeds.checksum_eq
    have hfound := hsucceeds.parse_eq
    rw [hchecksumEq] at hchecksum
    rw [hparse] at hfound
    cases hchecksum
    cases hfound
    rw [hindex, hpath]
    exact .inl (holds_store session.index flight.pending.checksum hlabelled)
  · refine (h.settled path).finish hnumbered hflight ?_ fun heq => absurd heq.symm hpath
    rw [hindex]
    exact hsound.sameAt_store flight.pending.checksum hlabelled hpath

theorem Fresh.step {parse : Parse} (hlabels : Labels parse) {session : Session}
    (h : session.Fresh parse)
    (hsound : session.index.Sound) (hnumbered : session.Numbered) {event : Event}
    (hdecide : ChecksumsDecide parse (session.step parse event).issued) :
    (session.step parse event).Fresh parse := by
  cases event with
  | issue change => exact h.issue hsound hnumbered hdecide
  | finish number =>
    cases hflight : session.flights[number]? with
    | none =>
      rw [step_finish_of_none hflight]
      exact h
    | some flight =>
      cases hstored : stored? parse session flight with
      | none => exact h.finish_of_none hlabels hsound hnumbered hflight hstored
      | some tasks => exact h.finish_of_some hlabels hsound hnumbered hflight hstored

theorem ChecksumsDecide.subset {parse : Parse} {changes more : List Change}
    (h : ChecksumsDecide parse more) (hsubset : changes ⊆ more) :
    ChecksumsDecide parse changes :=
  fun first second hfirst hsecond => h first second (hsubset hfirst) (hsubset hsecond)

theorem fresh_run {parse : Parse} (hlabels : Labels parse) (events : List Event)
    (hdecide : ChecksumsDecide parse (issuedIn events)) :
    (run parse events).Fresh parse := by
  induction events using List.reverseRecOn with
  | nil => exact ⟨backed_run hlabels [], fun path => by simp [run, lastOf, changesOf, Settles]⟩
  | append_singleton events event ih =>
    have hsubset : issuedIn events ⊆ issuedIn (events ++ [event]) := by
      rw [issuedIn, issuedIn, List.filterMap_append]
      exact List.subset_append_left _ _
    have hbefore := ih (hdecide.subset hsubset)
    rw [← issued_run parse, run_append] at hdecide
    rw [run_append]
    exact hbefore.step hlabels (sound_run hlabels events) (numbered_run parse events) hdecide

end Session

/-! ## The last change prevails -/

/-- In every run in which one checksum means one parse result for a note: an update that ends in
flight stores the tasks of its parse exactly if the parse finds some and no later change of its note
was issued, and otherwise leaves the index as it is; and when nothing is in flight, a note whose
last change is an update that succeeds has exactly the tasks and the checksum of that update, while
a note that was removed last, or never updated, has none. -/
theorem last_change_prevails (settings : Settings) (today : Date) (events : List Event)
    (hdecide : Session.ChecksumsDecide (parseWith settings today) (Session.issuedIn events)) :
    let parse := parseWith settings today
    let session := Session.run parse events
    (∀ number flight, session.flights[number]? = some flight →
      ((∃ change ∈ session.after flight, change.path = flight.pending.note.path) →
        (session.step parse (.finish number)).index = session.index) ∧
      (∀ tasks, parse flight.pending.note = .ok tasks →
        (∀ change ∈ session.after flight, change.path ≠ flight.pending.note.path) →
        (session.step parse (.finish number)).index =
          session.index.store flight.pending.note.path flight.pending.checksum tasks)) ∧
    (session.flights = [] → ∀ path, match lastOf path (Session.issuedIn events) with
      | none | some (.remove _) =>
        session.index.files.lookup path = none ∧ session.index.tasksOf path = []
      | some (.update note) => ∀ checksum tasks,
        note.checksum = .ok checksum → parse note = .ok tasks →
          session.index.files.lookup path = some (tasks.map Task.id) ∧
          session.index.tasksOf path = tasks ∧
          session.index.checksums.lookup path = some checksum) := by
  intro parse session
  have hlabels : Labels parse := labels_parseWith settings today
  have hnumbered : session.Numbered := Session.numbered_run parse events
  have hfresh : session.Fresh parse := Session.fresh_run hlabels events hdecide
  have hnil : ∀ flight : Flight,
      (∀ change ∈ session.after flight, change.path ≠ flight.pending.note.path) ↔
      changesOf flight.pending.note.path (session.after flight) = [] := by
    intro flight
    simp [changesOf, List.filter_eq_nil_iff]
  refine ⟨fun number flight hflight => ⟨?_, ?_⟩, ?_⟩
  · rintro ⟨change, hchange, hpath⟩
    have hindex := Session.index_finish parse hflight
    cases hstored : session.stored? parse flight with
    | none =>
      rw [hstored] at hindex
      exact hindex
    | some tasks =>
      have hlater :=
        ((Session.stored?_eq_some_iff hnumbered (List.mem_of_getElem? hflight)).1 hstored).2
      exact absurd hpath ((hnil flight).2 hlater change hchange)
  · intro tasks hparse hlater
    have hstored := (Session.stored?_eq_some_iff hnumbered (List.mem_of_getElem? hflight)).2
      ⟨hparse, (hnil flight).1 hlater⟩
    rw [Session.index_finish parse hflight, hstored]
  · intro hflights path
    have hsettled := hfresh.settled path
    rw [Session.issued_run parse events] at hsettled
    match lastOf path (Session.issuedIn events), hsettled with
    | none, hsettled => exact ⟨hsettled, tasksOf_of_lookup_eq_none hsettled⟩
    | some (.remove _), hsettled => exact ⟨hsettled, tasksOf_of_lookup_eq_none hsettled⟩
    | some (.update note), hsettled =>
      intro checksum tasks hchecksum hparse
      rcases hsettled checksum tasks ⟨hchecksum, hparse⟩ with hholds | ⟨flight, hmem, -⟩
      · exact ⟨hholds.files_eq, hholds.tasks_eq, hholds.checksum_eq⟩
      · rw [hflights] at hmem
        simp at hmem

/-- An update is overtaken by a newer one that ends first, and the newer one is then issued once
more and finds its tasks. -/
theorem last_change_prevails_in_race :
    let older : Note := { path := "n.md".toList, content := "- [ ] old".toList }
    let newer : Note := { path := "n.md".toList, content := "- [ ] new".toList }
    let parse := parseWith {} ⟨2024, 3, 13, rfl⟩
    let events : List Event :=
      [.issue (.update older), .issue (.update newer), .finish 1, .finish 0, .issue (.update newer)]
    Session.ChecksumsDecide parse (Session.issuedIn events) ∧
      (Session.run parse events).flights = [] ∧
      ∃ tasks, parse newer = .ok tasks ∧ tasks.map Task.content = ["new".toList] ∧
        (Session.run parse events).index.tasksOf "n.md".toList = tasks := by
  intro older newer parse events
  have hdecide : Session.ChecksumsDecide parse (Session.issuedIn events) := by
    have hdiffer : older.checksum.toOption ≠ newer.checksum.toOption := by decide +kernel
    intro first second hfirst hsecond hpath checksum hchecksum hchecksum'
    have hnotes : ∀ note, .update note ∈ Session.issuedIn events → note = older ∨ note = newer := by
      simp [Session.issuedIn, events]
    rcases hnotes first hfirst with rfl | rfl <;> rcases hnotes second hsecond with rfl | rfl
    · rfl
    · exact absurd (by rw [hchecksum, hchecksum']) hdiffer
    · exact absurd (by rw [hchecksum, hchecksum']) hdiffer
    · rfl
  have hflights : (Session.run parse events).flights = [] := by
    rw [← List.isEmpty_iff]
    decide +kernel
  have hnewer : ((parse newer).toOption.map fun tasks => tasks.map Task.content) =
      some ["new".toList] := by decide +kernel
  have hchecksum : newer.checksum.toOption.isSome = true := by decide +kernel
  refine ⟨hdecide, hflights, ?_⟩
  cases hparse : parse newer with
  | error cause => simp [hparse, Except.toOption] at hnewer
  | ok tasks =>
    refine ⟨tasks, rfl, by simpa [hparse, Except.toOption] using hnewer, ?_⟩
    cases hsum : newer.checksum with
    | error cause => simp [hsum, Except.toOption] at hchecksum
    | ok checksum =>
      exact ((last_change_prevails {} ⟨2024, 3, 13, rfl⟩ events hdecide).2 hflights newer.path
        checksum tasks hsum hparse).2.1

end Checklist.Index
