import Checklist.Proofs.Index.Freshness
import Checklist.Proofs.Note.Evidence

/-! # Notes that are not parsed again

An update that finds the checksum of its input in the index answers with the tasks that are there.
Main statement: these are the tasks that a parse of its input finds, as long as the updates of one
note carry data that their texts tell apart (`unchanged_is_transparent`); headers that differ in the
order of their keys do not (`unchanged_hides_order_of_keys`). -/

namespace Checklist.Index
set_option autoImplicit false
open Text

theorem issue_eq_unchanged_iff {index : Index} {note : Note} {tasks : List Task} :
    (index.issue note).1 = .ok (.unchanged tasks) ↔
      ∃ checksum, note.checksum = .ok checksum ∧ index.checksums.lookup note.path = some checksum ∧
        index.tasksOf note.path = tasks := by
  have hchecksums : (index.nextVersion note.path).2.checksums = index.checksums := rfl
  have htasks : (index.nextVersion note.path).2.tasksOf note.path = index.tasksOf note.path := rfl
  simp only [issue, hchecksums, htasks, beq_iff_eq]
  cases note.checksum with
  | error cause => simp
  | ok checksum =>
    dsimp only
    split <;> rename_i hfound <;> simp [hfound]

namespace Session

/-- Updates of one note carry evidence with digests of its own and data that their texts
tell apart. -/
def Discerned (changes : List Change) : Prop :=
  ∀ first second, .update first ∈ changes → .update second ∈ changes → first.path = second.path →
    Note.DigestsDecide first second ∧ Note.Faithful first second

theorem Discerned.eq {changes : List Change} (h : Discerned changes) {first second : Note}
    (hfirst : .update first ∈ changes)
    (hsecond : .update second ∈ changes) (hpath : first.path = second.path) {checksum : Text}
    (hchecksum : first.checksum = .ok checksum)
    (hchecksum' : second.checksum = .ok checksum) : first = second :=
  Note.eq_of_checksum hpath (h first second hfirst hsecond hpath).1
    (h first second hfirst hsecond hpath).2 hchecksum hchecksum'

theorem Discerned.checksumsDecide {changes : List Change} (h : Discerned changes) (parse : Parse) :
    ChecksumsDecide parse changes := by
  intro first second hfirst hsecond hpath checksum hchecksum hchecksum'
  rw [h.eq hfirst hsecond hpath hchecksum hchecksum']

end Session

/-- Where updates of one note carry data that their texts tell apart, one checksum means one input,
so one parse result; and whenever such an update is answered at once, the answer is the tasks that a
parse of its input finds. -/
theorem unchanged_is_transparent (settings : Settings) (today : Date) (events : List Event)
    (hdiscerned : Session.Discerned (Session.issuedIn events)) :
    let parse := parseWith settings today
    Session.ChecksumsDecide parse (Session.issuedIn events) ∧
    ∀ before note after tasks, events = before ++ .issue (.update note) :: after →
      ((Session.run parse before).index.issue note).1 = .ok (.unchanged tasks) →
        parse note = .ok tasks := by
  intro parse
  refine ⟨hdiscerned.checksumsDecide parse, fun before note after tasks hsplit hunchanged => ?_⟩
  obtain ⟨checksum, hchecksum, hlookup, htasks⟩ := issue_eq_unchanged_iff.1 hunchanged
  obtain ⟨earlier, found, hissued, hpath, hsucceeds, hholds⟩ :=
    Session.backed_run (labels_parseWith settings today) before _ _ hlookup
  rw [Session.issued_run] at hissued
  have hevents : Session.issuedIn events = Session.issuedIn before ++ .update note ::
      Session.issuedIn after := by
    rw [hsplit, Session.issuedIn, List.filterMap_append, List.filterMap_cons]
    rfl
  have hsame : earlier = note := by
    refine hdiscerned.eq ?_ ?_ hpath hsucceeds.checksum_eq hchecksum
    · rw [hevents]
      exact List.mem_append_left _ hissued
    · rw [hevents]
      exact List.mem_append_right _ List.mem_cons_self
  have hfound : found = tasks := hholds.tasks_eq.symm.trans htasks
  rw [← hsame, ← hfound]
  exact hsucceeds.parse_eq

section Example

def headed (header : List (Text × Value)) : Note :=
  { path := "n.md".toList, content := "- [ ] a".toList,
    header := some (header.map fun entry => (.str entry.1, entry.2)) }

theorem sortEntries?_pair {key other : Text} (h : le key other = true) (h' : le other key = false)
    (s t : Text) :
    Json.sortEntries? [(.str key, s), (.str other, t)] = some [(.str key, s), (.str other, t)] ∧
      Json.sortEntries? [(.str other, t), (.str key, s)] =
        some [(.str key, s), (.str other, t)] := by
  constructor <;> simp [Json.sortEntries?, List.mergeSort, List.MergeSort.Internal.splitInTwo,
    Json.keyLe?, h, h']

theorem evidence_headed {key other s t : Text} {v w : Value}
    (hv : Json.writeAt Value.display .canonical 2 v = .ok s)
    (hw : Json.writeAt Value.display .canonical 2 w = .ok t) (h : le key other = true)
    (h' : le other key = false) :
    let members :=
      [Json.writeText .canonical key ++ ": ".toList ++ s,
       Json.writeText .canonical other ++ ": ".toList ++ t]
    let header := '\x7b' :: join ", ".toList members ++ ['\x7d']
    let evidence :=
      "- [ ] a".toList ++ '\n' :: ('[' :: join ", ".toList [header, "null".toList] ++ [']'])
    (headed [(key, v), (other, w)]).evidence = .ok evidence ∧
        (headed [(other, w), (key, v)]).evidence = .ok evidence := by
  obtain ⟨hsort, hsort'⟩ := sortEntries?_pair h h' s t
  have hsorted : Json.Style.canonical.sorted = true := rfl
  have hmember : ∀ name text, Json.writeMember .canonical (.str name) text =
      .ok (Json.writeText .canonical name ++ ": ".toList ++ text) :=
    fun _ _ => rfl
  simp only [Note.evidence, headed, Note.orNull, List.map_cons, List.map_nil, Json.writeAt,
    Json.writeItems, Json.writeEntries, Json.writeMembers,
    hv, hw, hsorted, hsort, hsort', hmember, if_true, bind, Except.bind, pure, Except.pure,
    List.mapM_cons, List.mapM_nil, Json.bracket_canonical]
  exact ⟨trivial, trivial⟩

theorem holds_run_update {parse : Parse} (hlabels : Labels parse) {note : Note}
    {checksum : Text} {tasks : List Task} (h : Session.Succeeds parse note checksum tasks) :
    Session.Holds (Session.run parse [.issue (.update note), .finish 0]).index
      note.path checksum tasks := by
  have hstart : (({} : Index).start (.update note)).1 = .pending ⟨note, 1, checksum⟩ := by
    rw [start_update_fst _ h.checksum_eq]
    rfl
  have hissued : Session.run parse [.issue (.update note)] =
      ⟨(({} : Index).nextVersion note.path).2, [.update note], [⟨⟨note, 1, checksum⟩, 0⟩]⟩ := by
    have hstep := Session.step_issue parse {} (.update note)
    rw [hstart, start_update_snd] at hstep
    exact hstep
  have hcurrent : (({} : Index).nextVersion note.path).2.isOvertaken
      ⟨note, 1, checksum⟩ = false := by
    have hversion := versions_nextVersion {} note.path
    rw [isOvertaken, hversion]
    rfl
  have hrun : (Session.run parse [.issue (.update note), .finish 0]).index =
      (({} : Index).nextVersion note.path).2.store note.path checksum tasks := by
    have hfinish := Session.run_append parse [.issue (.update note)] (.finish 0)
    rw [hissued, @Session.step_finish_of_some parse _ 0 _ rfl, complete_pending_snd,
      h.parse_eq] at hfinish
    rw [show ([.issue (.update note), .finish 0] : List Event) = [.issue (.update note)] ++
      [.finish 0] from rfl, hfinish]
    simp [hcurrent]
  rw [hrun]
  exact Session.holds_store _ _ (hlabels note tasks h.parse_eq)

def dated (date : Date) : Note :=
  headed [("area".toList, .str "home".toList), ("due".toList, .date date)]

theorem faithful_dated (date other : Date) : Note.Faithful (dated date) (dated other) := by
  have hobject : ∀ date,
      Json.IsObject [(.str "area".toList, .str "home".toList), (.str "due".toList, .date date)] :=
    fun date => ⟨by simp, by simp⟩
  have hheader : Json.Faithful
      (.map [(.str "area".toList, .str "home".toList), (.str "due".toList, .date date)])
      (.map [(.str "area".toList, .str "home".toList), (.str "due".toList, .date other)]) := by
    refine Json.faithful_of_keys (hobject date) (hobject other) rfl fun key v w hv hw => ?_
    simp only [List.mem_cons, Prod.mk.injEq, List.not_mem_nil, or_false] at hv hw
    rcases hv with ⟨rfl, rfl⟩ | ⟨rfl, rfl⟩ <;> rcases hw with ⟨hkey, rfl⟩ | ⟨hkey, rfl⟩
    · exact .inl ⟨rfl, rfl⟩
    · simp at hkey
    · simp at hkey
    · exact .inr ⟨date, other, rfl, rfl⟩
  exact ⟨hheader, .same _⟩

theorem discerned_dated {date other : Date} (h : (dated date).checksum ≠ (dated other).checksum)
    {changes : List Change}
    (hchanges : ∀ note, .update note ∈ changes → note = dated date ∨ note = dated other) :
    Session.Discerned changes := by
  intro first second hfirst hsecond _
  rcases hchanges first hfirst with rfl | rfl <;> rcases hchanges second hsecond with rfl | rfl
  · exact ⟨.refl _, faithful_dated _ _⟩
  · exact ⟨Note.digestsDecide_of_ne h, faithful_dated _ _⟩
  · exact ⟨Note.digestsDecide_of_ne h.symm, faithful_dated _ _⟩
  · exact ⟨.refl _, faithful_dated _ _⟩

/-- The header of a note gets another day after the note was updated twice with the same input. -/
theorem unchanged_is_transparent_of_days :
    let first := dated ⟨2024, 1, 1, rfl⟩
    let second := dated ⟨2024, 2, 2, rfl⟩
    let parse := parseWith {} ⟨2024, 3, 13, rfl⟩
    let before : List Event := [.issue (.update first), .finish 0]
    let events := before ++ .issue (.update first) :: [.issue (.update second)]
    Session.Discerned (Session.issuedIn events) ∧
      ∃ tasks, ((Session.run parse before).index.issue first).1 = .ok (.unchanged tasks) ∧
          parse first = .ok tasks ∧ tasks ≠ [] := by
  intro first second parse before events
  have hevidence := fun date =>
    (@evidence_headed "area".toList "due".toList _ _ (.str "home".toList) (.date date) rfl rfl
    (by decide +kernel) (by decide +kernel)).1
  have hdiffer : (dated ⟨2024, 1, 1, rfl⟩).checksum ≠ (dated ⟨2024, 2, 2, rfl⟩).checksum := by
    rw [Note.checksum, Note.checksum, dated, dated, hevidence, hevidence]
    decide +kernel
  have hdiscerned : Session.Discerned (Session.issuedIn events) := by
    refine discerned_dated hdiffer fun note hnote => ?_
    simpa [Session.issuedIn, events, before] using hnote
  obtain ⟨checksum, hchecksum⟩ : ∃ checksum, first.checksum = .ok checksum :=
    ⟨_, congrArg (Except.map _) (hevidence _)⟩
  have hparse : ((parse first).toOption.map fun tasks => tasks.isEmpty) =
      some false := by decide +kernel
  cases htasks : parse first with
  | error cause => simp [htasks, Except.toOption] at hparse
  | ok tasks =>
    have hholds := holds_run_update (labels_parseWith _ _) ⟨hchecksum, htasks⟩
    have hunchanged :=
      issue_eq_unchanged_iff.2 ⟨checksum, hchecksum, hholds.checksum_eq, hholds.tasks_eq⟩
    have hfresh := (unchanged_is_transparent {} ⟨2024, 3, 13, rfl⟩ events hdiscerned).2
      before first _ tasks rfl hunchanged
    exact ⟨hdiscerned, tasks, hunchanged, htasks.symm.trans hfresh,
      by simpa [htasks, Except.toOption] using hparse⟩

/-- Two headers with the same keys in different orders have one checksum; of the two days that stand
for one field the first one counts, so the second note is answered with the day of the first. -/
theorem unchanged_hides_order_of_keys :
    let first :=
      headed [("due".toList, .str "2024-01-01".toList),
        ("dueDate".toList, .str "2024-02-02".toList)]
    let second :=
      headed [("dueDate".toList, .str "2024-02-02".toList),
        ("due".toList, .str "2024-01-01".toList)]
    let parse := parseWith {} ⟨2024, 3, 13, rfl⟩
    let session := Session.run parse [.issue (.update first), .finish 0]
    first.checksum = second.checksum ∧
      ∃ tasks fresh, (session.index.issue second).1 = .ok (.unchanged tasks) ∧
        parse second = .ok fresh ∧
        tasks.map (fun task => task.metadata.dates.due) = [some 1704067200000] ∧
        fresh.map (fun task => task.metadata.dates.due) = [some 1706832000000] := by
  intro first second parse session
  obtain ⟨hevidence, hevidence'⟩ :=
    @evidence_headed "due".toList "dueDate".toList _ _
      (.str "2024-01-01".toList) (.str "2024-02-02".toList)
    rfl rfl (by decide +kernel) (by decide +kernel)
  have hsame : first.checksum = second.checksum := by
    rw [Note.checksum, Note.checksum]
    exact congrArg (Except.map _) (hevidence.trans hevidence'.symm)
  obtain ⟨checksum, hchecksum⟩ : ∃ checksum, first.checksum = .ok checksum :=
    ⟨_, congrArg (Except.map _) hevidence⟩
  have hdue : ((parse first).toOption.map fun tasks => tasks.map fun task =>
      task.metadata.dates.due) = some [some 1704067200000] ∧
      ((parse second).toOption.map fun tasks => tasks.map fun task => task.metadata.dates.due) =
          some [some 1706832000000] := by
    decide +kernel
  cases htasks : parse first with
  | error cause => simp [htasks, Except.toOption] at hdue
  | ok tasks =>
    cases hfresh : parse second with
    | error cause => simp [hfresh, Except.toOption] at hdue
    | ok fresh =>
      have hholds := holds_run_update (labels_parseWith _ _) ⟨hchecksum, htasks⟩
      have hunchanged := @issue_eq_unchanged_iff session.index second tasks |>.2
        ⟨checksum, hsame ▸ hchecksum, hholds.checksum_eq, hholds.tasks_eq⟩
      simp only [htasks, hfresh, Except.toOption, Option.map_some, Option.some.injEq] at hdue
      exact ⟨hsame, tasks, fresh, hunchanged, rfl, hdue.1, hdue.2⟩

end Example

end Checklist.Index
