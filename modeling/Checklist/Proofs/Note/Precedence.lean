import Checklist.Proofs.Note.Projects

/-! # Which of two sources a field comes from

What tasks inherit is the project file with the header of the note set over it, key by key. Main
statement: a field that the header fills comes from the header, unless a key of the project file
that the header does not have stands before it (`fields_of_header`). -/

namespace Checklist
set_option autoImplicit false
open Text

namespace Inheritance

variable {rules : Option ProjectRules} {today : Date} {field : Field} {file header : Entries}

/-! ## The first entry that fills a field -/

/-- An entry of the project file once the header is set over it. -/
def overlaid (header : Entries) (entry : Value × Value) : Value × Value :=
  (entry.1, (header.get? entry.1).getD entry.2)

/-- An entry of the project file stands before the header for a field: it fills the field, the
header does not have its key, and of the keys before it none fills the field, be it with the value
that the header has for it. -/
structure Precedes (rules : Option ProjectRules) (today : Date) (field : Field)
    (header before : Entries) (entry : Value × Value) : Prop where
  lacks : header.has entry.1 = false
  fills : fills rules today field entry = true
  before : ∀ other ∈ before, Inheritance.fills rules today field (overlaid header other) = false

theorem find?_update (hheader : header.IsMapping) (p : Value × Value → Bool) :
    (file.update header).find? p =
    ((file.map (overlaid header)).find? p).or
      ((header.filter fun entry => !file.has entry.1).find? p) := by
  rw [Entries.update_eq hheader, List.find?_append]
  rfl

theorem find?_of_precedes (hheader : header.IsMapping) {before after : Entries}
    {entry : Value × Value} (hfile : file = before ++ entry :: after)
    (h : Precedes rules today field header before entry) :
    (file.update header).find? (fills rules today field) = some entry := by
  have hentry : overlaid header entry = entry := by
    rw [overlaid, Entries.get?_eq_none_iff.2 h.lacks]
    rfl
  have hfirst : (file.map (overlaid header)).find? (fills rules today field) = some entry := by
    rw [hfile, List.map_append, List.map_cons, hentry, List.find?_eq_some_iff_append]
    refine ⟨h.fills, before.map (overlaid header), after.map (overlaid header), rfl,
      fun other hother => ?_⟩
    obtain ⟨other, hmem, rfl⟩ := List.mem_map.1 hother
    simp [h.before other hmem]
  rw [find?_update hheader, hfirst]
  rfl

theorem find?_of_not_precedes (hheader : header.IsMapping)
    (hnone : ∀ before entry after, file = before ++ entry :: after →
      ¬Precedes rules today field header before entry) {given : Value × Value}
      (hgiven : given ∈ header) (hfills : fills rules today field given = true) :
    ∃ entry ∈ header, (file.update header).find? (fills rules today field) = some entry := by
  have hnames : names rules field given.1 = true := by
    simp only [fills, Bool.and_eq_true] at hfills
    exact hfills.1.2
  rw [find?_update hheader]
  cases hfirst : (file.map (overlaid header)).find? (fills rules today field) with
  | some found =>
    obtain ⟨hfound, before, after, hsplit, hbefore⟩ := List.find?_eq_some_iff_append.1 hfirst
    obtain ⟨before, rest, hfile, rfl, hrest⟩ := List.map_eq_append_iff.1 hsplit
    obtain ⟨entry, after, rfl, rfl, -⟩ := List.map_eq_cons_iff.1 hrest
    refine ⟨overlaid header entry, ?_, rfl⟩
    cases hvalue : header.get? entry.1 with
    | none =>
      refine (hnone before entry after hfile
        ⟨Entries.get?_eq_none_iff.1 hvalue, ?_, fun other hother => ?_⟩).elim
      · rwa [overlaid, hvalue] at hfound
      · simpa using hbefore _ (List.mem_map_of_mem hother)
    | some value =>
      obtain ⟨key, hmem, hsame⟩ := Entries.exists_of_get? hvalue
      rw [overlaid, hvalue] at hfound ⊢
      simp only [fills, Bool.and_eq_true] at hfound
      rw [Value.sameKey_comm] at hsame
      rwa [eq_of_names hfound.1.2 hsame] at hmem
  | none =>
    have hnew : file.has given.1 = false := by
      refine List.any_eq_false.2 fun entry hentry hsame => ?_
      rw [Value.sameKey_comm] at hsame
      -- the file has the very key, with the value of the header
      have hgiven : overlaid header entry = given := by
        rw [overlaid, Entries.get?_of_mem hheader hgiven hsame, eq_of_names hnames hsame]
        rfl
      exact List.find?_eq_none.1 hfirst _ (List.mem_map_of_mem hentry) (hgiven ▸ hfills)
    have hrest : given ∈ header.filter fun entry => !file.has entry.1 :=
      List.mem_filter.2 ⟨hgiven, by rw [hnew]; rfl⟩
    rw [Option.none_or]
    cases hfind :
        (header.filter fun entry => !file.has entry.1).find? (fills rules today field) with
    | none => exact absurd hfills (List.find?_eq_none.1 hfind given hrest)
    | some entry => exact ⟨entry, (List.mem_filter.1 (List.mem_of_find?_eq_some hfind)).1, rfl⟩

end Inheritance

/-! ## Fields of tasks -/

namespace Note

variable {settings : Settings} {today : Date} {note : Note} {field : Field}

/-- The task has in a field what the value of an entry means for it. -/
def HasFrom (today : Date) (field : Field) (entry : Value × Value) (task : Task) : Prop :=
  ∃ filled, Inheritance.meaning? today field entry.2 = some filled ∧
    filled.Agrees task.metadata field

theorem agrees_dateFromPath {metadata : Metadata} (timestamp : Option Int)
    (h : metadata.has field = true) :
    metadata.Agrees (dateFromPath settings timestamp metadata) field := by
  cases field with
  | date kind =>
    show Dates.get _ kind = metadata.dates.get kind
    by_cases hkind : kind = settings.pathDate
    · subst hkind
      obtain ⟨found, hfound⟩ := Option.isSome_iff_exists.1 h
      rw [dateFromPath, Dates.get_set, hfound]
      rfl
    · exact Dates.get_set_of_ne _ _ hkind
  | _ => rfl

/-- No key of the header or the project file is filed under a further key. -/
def MapsNoKeys (settings : Settings) : Prop :=
  ∀ rules ∈ settings.projects, rules.keys = []

theorem source_of_mapsNoKeys (h : MapsNoKeys settings) (header : Entries) (file : Option Entries) :
    Inheritance.source settings.projects header file = Entries.update (file.getD []) header := by
  unfold Inheritance.source
  cases hrules : settings.projects with
  | none => rfl
  | some rules =>
    rw [Option.map_some, Option.getD_some, h rules hrules]
    rfl

theorem hasFrom_of_completeAlone {around : Surroundings} {first task : Task}
    {node : Outline.Node} {number : Nat}
    (h : completeAlone around ((first, node), number) = .ok task)
    (hreaches : Inheritance.reaches around.settings.projects node.parent?.isSome = true)
    {field : Field} (hopen : first.metadata.has field = false) {entry : Value × Value}
    (hfind : around.source.find? (Inheritance.fills around.settings.projects around.today field) =
      some entry) :
    HasFrom around.today field entry task := by
  obtain ⟨metadata, hmetadata, rfl⟩ := completeAlone_eq_ok h
  have hne : field ≠ .project := by
    rintro rfl
    have hfills := List.find?_some hfind
    simp [Inheritance.fills, Inheritance.names_project] at hfills
  let start : Metadata :=
    let alone := resolveProject around.settings.projects around.context
      first.metadata.project node.parent?.isSome none
    { first.metadata with project := alone.written, inferred := alone.inferred }
  have hstart : start.has field =
      false := by cases field <;> first | exact hopen | exact absurd rfl hne
  have hagrees := Inheritance.agrees_apply hmetadata hreaches hstart
  rw [hfind] at hagrees
  obtain ⟨filled, hmeaning, hagrees⟩ := hagrees
  refine ⟨filled, hmeaning, hagrees.trans (agrees_dateFromPath _ ?_)⟩
  exact hagrees.has_eq.trans (Inheritance.has_of_meaning? hmeaning)

/-- Where the task of a line inherits, a field that the line leaves open and the header fills has
the value of a key of the header, unless a key of the project file stands before the header; then
the field has the value of that key. -/
def RanksHeaderFirst (settings : Settings) (today : Date) (note : Note) (header : Entries)
    (found : Found) (task : Task) : Prop :=
  ∃ first, taskOf settings today note.path found = .ok first ∧
    ∀ field, Inheritance.reaches settings.projects task.parent.isSome = true →
      first.metadata.has field = false →
      (∃ given ∈ header, Inheritance.fills settings.projects today field given = true) →
        ((∀ before entry after, note.file.getD [] = before ++ entry :: after →
          ¬Inheritance.Precedes settings.projects today field header before entry) →
          ∃ entry ∈ header, Inheritance.fills settings.projects today field entry = true ∧
          HasFrom today field entry task) ∧
        (∀ before entry after, note.file.getD [] = before ++ entry :: after →
          Inheritance.Precedes settings.projects today field header before entry →
          HasFrom today field entry task)

/-- Each task has a field that the header fills from the header, unless a key of the project file
that the header does not have stands before it; then that key counts. -/
theorem fields_of_header {tasks : List Task} (h : note.tasks settings today = .ok tasks)
    (hkeys : MapsNoKeys settings)
    (hmapping : ∀ header, note.headerOf = .ok header → header.IsMapping) :
    ∃ header, note.headerOf = .ok header ∧
      List.Forall₂ (RanksHeaderFirst settings today note header) (note.found settings) tasks := by
  obtain ⟨header, firsts, hheader, -, hall⟩ := forall₂_completeAlone_tasks h
  refine ⟨header, hheader, ?_⟩
  rw [← map_found_places]
  refine List.forall₂_map_left_iff.2
    (hall.imp fun place task ⟨first, hfirst, htask, hparent⟩ => ⟨first, hfirst, ?_⟩)
  intro field hreaches hopen ⟨given, hgiven, hfills⟩
  rw [hparent] at hreaches
  have hsource : (note.surroundings settings today header firsts).source =
      Entries.update (note.file.getD []) header :=
    source_of_mapsNoKeys hkeys header note.file
  have hfrom := fun entry => @hasFrom_of_completeAlone _ _ _ _ _ htask hreaches field hopen entry
  refine ⟨fun hnone => ?_, fun before entry after hfile hprecedes => ?_⟩
  · obtain ⟨entry, hentry, hfind⟩ :=
      Inheritance.find?_of_not_precedes (hmapping header hheader) hnone hgiven hfills
    rw [← hsource] at hfind
    exact ⟨entry, hentry, List.find?_some hfind, hfrom entry hfind⟩
  · have hfind := Inheritance.find?_of_precedes (hmapping header hheader) hfile hprecedes
    rw [← hsource] at hfind
    exact hfrom entry hfind

/-- The project file has the key of the header before the other one, and the header counts. -/
theorem fields_of_header_same_key :
    let note : Note := {
      path := "n.md".toList
      content := "- [ ] a".toList
      header := some [(.str "due".toList, .str "2024-01-01".toList)]
      file := some [(.str "due".toList, .str "2024-02-02".toList),
        (.str "dueDate".toList, .str "2024-03-03".toList)] }
    ∃ tasks, note.tasks {} ⟨2024, 3, 13, rfl⟩ = .ok tasks ∧
      tasks.map (fun task => task.metadata.dates.due) = [some 1704067200000] ∧
      MapsNoKeys {} ∧ (∀ header, note.headerOf = .ok header → header.IsMapping) ∧
      ∃ header, note.headerOf = .ok header ∧
          List.Forall₂ (RanksHeaderFirst {} ⟨2024, 3, 13, rfl⟩ note header) (note.found {})
            tasks := by
  intro note
  have hdates :
      ((note.tasks {} ⟨2024, 3, 13, rfl⟩).map (·.map fun task => task.metadata.dates.due)).toOption
        = some [some 1704067200000] := by
    decide +kernel
  obtain ⟨tasks, htasks, hdue⟩ := Result.exists_of_map hdates
  have hkeys : MapsNoKeys {} := by
    intro rules hrules
    cases hrules
    rfl
  have hmapping : ∀ header, note.headerOf = .ok header → header.IsMapping := by
    intro header hheader
    cases hheader
    exact List.pairwise_singleton _ _
  exact ⟨tasks, htasks, hdue, hkeys, hmapping, fields_of_header htasks hkeys hmapping⟩

/-- The project file has another key for the date than the header, and the header does not count. -/
theorem header_overruled_by_alias :
    let given : Value × Value := (.str "due".toList, .str "2024-01-01".toList)
    let note : Note := {
      path := "n.md".toList
      content := "- [ ] a".toList
      header := some [given]
      file := some [(.str "dueDate".toList, .str "2024-02-02".toList)] }
    Inheritance.fills (some {}) ⟨2024, 3, 13, rfl⟩ (.date .due) given = true ∧
      ∃ task, note.tasks {} ⟨2024, 3, 13, rfl⟩ = .ok [task] ∧
        task.metadata.dates.due = some 1706832000000 ∧
        ¬HasFrom ⟨2024, 3, 13, rfl⟩ (.date .due) given task := by
  intro given note
  have hdates :
      ((note.tasks {} ⟨2024, 3, 13, rfl⟩).map (·.map fun task => task.metadata.dates.due)).toOption
        = some [some 1706832000000] := by
    decide +kernel
  have hgiven : (Inheritance.meaning? ⟨2024, 3, 13, rfl⟩ (.date .due) given.2).map
      (fun filled => filled.dates.due) = some (some 1704067200000) := by
    decide +kernel
  obtain ⟨tasks, htasks, hdue⟩ := Result.exists_of_map hdates
  obtain ⟨task, rfl, htask⟩ := List.map_eq_singleton_iff.1 hdue
  refine ⟨by decide +kernel, task, htasks, htask, ?_⟩
  rintro ⟨filled, hmeaning, hagrees⟩
  rw [hmeaning, Option.map_some, Option.some.injEq] at hgiven
  have hsame : task.metadata.dates.due = filled.dates.due := hagrees
  rw [htask, hgiven] at hsame
  cases hsame

end Note
end Checklist
