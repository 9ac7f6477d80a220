import Checklist.Proofs.Inheritance

/-! # Inheritance fills gaps

A source gives a task what it does not have: fields that are empty, and entries under keys of which
it has none. Main statement: this is all that taking over a source does, and doing it again does
nothing (`fillsGaps_of_apply`). -/

namespace Checklist
set_option autoImplicit false
open Text

namespace Metadata

theorem heading_markInherited (metadata : Metadata) (name : Value) :
    (metadata.markInherited name).heading = metadata.heading := by
  unfold markInherited
  split <;> rfl

end Metadata

namespace Value

theorem sameKey_of_isFoundAs {key other : Value} (hother : other.isKey = true)
    (h : key.isFoundAs other = true) :
    key.sameKey other = true := by
  rwa [isFoundAs, sameKey_self_of_isKey hother, Bool.not_true, Bool.and_false, Bool.or_false] at h

end Value

namespace Inheritance

variable {rules : Option ProjectRules} {today : Date} {source : Entries}
  {metadata result : Metadata} {key value : Value} {isSubtask : Bool}

/-! ## What is meant -/

/-- The entry is one to be kept under its own key: it has a value, and the key neither is the task's
own nor stands for a field. -/
def isFiled (rules : Option ProjectRules) (entry : Value × Value) : Bool :=
  !entry.2.isNull && match entry.1.written with
    | .ok word => !isOwn rules word && (Field.ofKey? word).isNone
    | .error _ => false

/-- The result is the metadata with gaps filled from the source, among them the added entries. -/
structure Extends (rules : Option ProjectRules) (source : Entries) (metadata result : Metadata)
    (added : Entries) : Prop where
  fields : ∀ field, metadata.has field = true → metadata.Agrees result field
  custom : result.custom = metadata.custom ++ added
  of_source : ∀ entry ∈ added, entry ∈ source ∧ isFiled rules entry = true ∧
    metadata.custom.has entry.1 = false
  project : result.project = metadata.project
  inferred : result.inferred = metadata.inferred
  tags : result.tags = metadata.tags
  heading : result.heading = metadata.heading
  inherits : ∀ name, result.inherits name = true ↔ metadata.inherits name = true ∨
    (∃ field : Field, metadata.has field = false ∧ result.has field = true ∧
      (Value.str field.name).isFoundAs name = true) ∨
    ∃ entry ∈ added, entry.1.isFoundAs name = true

/-- Nothing but gaps is filled, all of them are that the source has a value for, and there is
nothing left to fill. -/
structure FillsGaps (rules : Option ProjectRules) (today : Date) (source : Entries)
    (isSubtask : Bool) (metadata result : Metadata) (added : Entries) : Prop where
  extends_metadata : Extends rules source metadata result added
  filled : reaches rules isSubtask = true → ∀ field, metadata.has field = false →
      match source.find? (fills rules today field) with
    | some entry => ∃ filled, meaning? today field entry.2 = some filled ∧
        filled.Agrees result field
    | none => result.has field = false
  filed : reaches rules isSubtask = true → ∀ entry ∈ source, isFiled rules entry = true →
    ∃ kept ∈ result.custom, kept.1.isFoundAs entry.1 = true
  unreached : reaches rules isSubtask = false → result = metadata
  again : (∀ entry ∈ source, entry.1.isKey = true) →
    apply rules today source isSubtask result = .ok result

/-! ## One value -/

theorem IsOffered.isFiled_eq {word : Text} (h : IsOffered rules key value word) :
    isFiled rules (key, value) = (Field.ofKey? word).isNone := by
  simp only [isFiled, h.value, h.key, h.free, Bool.not_false, Bool.true_and]

theorem exists_isOffered_of_isFiled (h : isFiled rules (key, value) = true) :
    ∃ word, IsOffered rules key value word ∧ Field.ofKey? word = none := by
  simp only [isFiled, Bool.and_eq_true, Bool.not_eq_true'] at h
  obtain ⟨hvalue, hkey⟩ := h
  split at hkey
  · rename_i word hword
    rw [Bool.and_eq_true, Bool.not_eq_true', Option.isNone_iff_eq_none] at hkey
    exact ⟨word, ⟨hvalue, hword, hkey.1⟩, hkey.2⟩
  · cases hkey

theorem custom_of_inherit (h : inherit rules today metadata key value = .ok result)
    (hfiled : isFiled rules (key, value) = false) :
    result.custom = metadata.custom := by
  cases inherit_eq_ok_iff.1 h with
  | null | own | known | full | senseless => rfl
  | keep hoffered hkey =>
    rw [hoffered.isFiled_eq, hkey] at hfiled
    cases hfiled
  | fill =>
    rw [Metadata.custom_markInherited]
    exact congrArg (·.2.2.1) (Metadata.rest_copy _ _ _)

theorem Extends.refl (metadata : Metadata) : Extends rules source metadata metadata [] where
  fields _ _ := .refl _ _
  custom := (List.append_nil _).symm
  of_source _ hentry := nomatch hentry
  project := rfl
  inferred := rfl
  tags := rfl
  heading := rfl
  inherits name := by
    refine ⟨.inl, ?_⟩
    rintro (h | ⟨field, hempty, hhas, -⟩ | ⟨entry, hentry, -⟩)
    · exact h
    · rw [hempty] at hhas
      cases hhas
    · cases hentry

theorem Extends.trans {first rest : Entries} {next : Metadata} {added added' : Entries}
    (h : Extends rules first metadata next added) (h' : Extends rules rest next result added') :
    Extends rules (first ++ rest) metadata result (added ++ added') where
  fields field hhas :=
    (h.fields field hhas).trans (h'.fields field ((h.fields field hhas).has_eq.trans hhas))
  custom := by rw [h'.custom, h.custom, List.append_assoc]
  of_source entry hentry := by
    rcases List.mem_append.1 hentry with hentry | hentry
    · obtain ⟨hsource, hrest⟩ := h.of_source entry hentry
      exact ⟨List.mem_append_left _ hsource, hrest⟩
    · obtain ⟨hsource, hfiled, hnew⟩ := h'.of_source entry hentry
      refine ⟨List.mem_append_right _ hsource, hfiled, ?_⟩
      rw [h.custom, Entries.has, List.any_append, Bool.or_eq_false_iff] at hnew
      exact hnew.1
  project := h'.project.trans h.project
  inferred := h'.inferred.trans h.inferred
  tags := h'.tags.trans h.tags
  heading := h'.heading.trans h.heading
  inherits name := by
    have hhas : ∀ field, metadata.has field = true → next.has field = true := fun field hfield =>
      (h.fields field hfield).has_eq.trans hfield
    have hhas' : ∀ field, next.has field = true → result.has field = true := fun field hfield =>
      (h'.fields field hfield).has_eq.trans hfield
    rw [h'.inherits, h.inherits]
    constructor
    · rintro ((hbefore | ⟨field, hempty, hfilled, hname⟩ | ⟨entry, hentry, hname⟩) |
        ⟨field, hempty, hfilled, hname⟩ | ⟨entry, hentry, hname⟩)
      · exact .inl hbefore
      · exact .inr (.inl ⟨field, hempty, hhas' field hfilled, hname⟩)
      · exact .inr (.inr ⟨entry, List.mem_append_left _ hentry, hname⟩)
      · exact .inr
          (.inl ⟨field, Bool.eq_false_iff.2 fun hbefore =>
            Bool.eq_false_iff.1 hempty (hhas field hbefore), hfilled, hname⟩)
      · exact .inr (.inr ⟨entry, List.mem_append_right _ hentry, hname⟩)
    · rintro (hbefore | ⟨field, hempty, hfilled, hname⟩ | ⟨entry, hentry, hname⟩)
      · exact .inl (.inl hbefore)
      · by_cases hnext : next.has field = true
        · exact .inl (.inr (.inl ⟨field, hempty, hnext, hname⟩))
        · exact .inr (.inl ⟨field, Bool.eq_false_iff.2 hnext, hfilled, hname⟩)
      · rcases List.mem_append.1 hentry with hentry | hentry
        · exact .inl (.inr (.inr ⟨entry, hentry, hname⟩))
        · exact .inr (.inr ⟨entry, hentry, hname⟩)

theorem extends_of_inherit (h : inherit rules today metadata key value = .ok result) :
    ∃ added, Extends rules [(key, value)] metadata result added := by
  have htaken := taken_of_inherit h
  have hkept : ∀ field, metadata.has field = true → metadata.Agrees result field :=
    fun field hhas => htaken.agrees (.inl hhas)
  have hother : ∀ field, fills rules today field (key, value) = false →
      metadata.Agrees result field := fun field hfills => htaken.agrees (.inr hfills)
  have hproject : result.project = metadata.project :=
    hother .project (by simp [fills, names_project])
  have htags : result.tags = metadata.tags :=
    hother .tags (by simp [fills, meaning?, fill?, Except.toOption])
  have hinferred : result.inferred = metadata.inferred := htaken.inferred_eq
  have hstays : ∀ field, fills rules today field (key, value) = false → metadata.has field = false →
      result.has field = false :=
    fun field hfills hempty => (hother field hfills).has_eq.trans hempty
  have hfilled : ∀ field filled, metadata.has field = false →
      fills rules today field (key, value) = true →
      meaning? today field value = some filled → result.has field = true :=
    fun field filled hempty hfills hmeaning =>
      (htaken.agrees_of_fills hempty hfills hmeaning).has_eq.trans (has_of_meaning? hmeaning)
  cases htaken with
  | nothing hfields => exact ⟨[], .refl _⟩
  | custom hfields _ hnew =>
    have hset : metadata.custom.set key value = metadata.custom ++
        [(key, value)] := by rw [Entries.set, if_neg (by simp [hnew])]
    refine ⟨[(key, value)], hkept, by rw [Metadata.custom_markInherited]; exact hset,
      List.forall_mem_singleton.2 ⟨List.mem_singleton_self _, ?_, hnew⟩,
      hproject, hinferred, htags, Metadata.heading_markInherited _ _, fun name => ?_⟩
    · -- an entry that is not to be kept would not have been added
      refine (Bool.not_eq_false _).mp fun hfiled => ?_
      have hsame := custom_of_inherit h hfiled
      rw [Metadata.custom_markInherited] at hsame
      exact List.cons_ne_nil _ _ (List.append_right_eq_self.1 (hset.symm.trans hsame))
    · rw [Metadata.inherits_markInherited, Bool.or_eq_true]
      refine or_congr .rfl ⟨fun hname => .inr ⟨_, List.mem_singleton_self _, hname⟩, ?_⟩
      rintro (⟨field, hempty, hhas, -⟩ | ⟨entry, hentry, hname⟩)
      · exact absurd hhas (Bool.eq_false_iff.1 (hstays field (hfields field) hempty))
      · rwa [List.mem_singleton.1 hentry] at hname
  | @field field filled hfills hmeaning hempty =>
    have hrest := Metadata.rest_copy filled metadata field
    have hmarked : (filled.copy field metadata).inherited = metadata.inherited :=
      congrArg (·.2.2.2) hrest
    refine ⟨[], hkept, ?_, List.forall_mem_nil _, hproject, hinferred, htags, ?_, fun name => ?_⟩
    · rw [Metadata.custom_markInherited, List.append_nil]
      exact congrArg (·.2.2.1) hrest
    · rw [Metadata.heading_markInherited]
      exact congrArg (·.2.1) hrest
    · rw [Metadata.inherits_markInherited, Metadata.inherits, hmarked, Bool.or_eq_true]
      refine or_congr .rfl
        ⟨fun hname => .inl ⟨field, hempty, hfilled field filled hempty hfills hmeaning, hname⟩, ?_⟩
      rintro (⟨other, hbefore, hhas, hname⟩ | ⟨_, hentry, -⟩)
      · -- of the fields that were empty the value fills one
        by_cases hsame : fills rules today other (key, value) = true
        · rwa [eq_of_fills hfills hsame]
        · exact absurd hhas (Bool.eq_false_iff.1 (hstays other (Bool.eq_false_iff.2 hsame) hbefore))
      · cases hentry

theorem exists_kept_of_inherit (h : inherit rules today metadata key value = .ok result)
    (hfiled : isFiled rules (key, value) = true) :
    ∃ kept ∈ result.custom, kept.1.isFoundAs key = true := by
  obtain ⟨word, hoffered, hkey⟩ := exists_isOffered_of_isFiled hfiled
  simp only [hoffered.inherit_eq, hkey] at h
  split at h
  case isTrue hhas =>
    cases h
    obtain ⟨kept, hkept, hsame⟩ := List.any_eq_true.1 hhas
    exact ⟨kept, hkept, by rw [Value.isFoundAs, hsame, Bool.true_or]⟩
  case isFalse hnew =>
    cases h
    refine ⟨(key, value), ?_, Value.isFoundAs_self key⟩
    rw [Metadata.custom_markInherited]
    show (key, value) ∈ metadata.custom.set key value
    rw [Entries.set, if_neg hnew]
    exact List.mem_append_right _ (List.mem_singleton_self _)

theorem inherit_again {next : Metadata} (h : inherit rules today metadata key value = .ok next)
    (hfields : ∀ field, next.has field = true → result.has field = true)
    (hkey : isFiled rules (key, value) = true → result.custom.has key = true) :
    inherit rules today result key value = .ok result := by
  rw [inherit_eq_ok_iff]
  cases inherit_eq_ok_iff.1 h with
  | null hnull => exact .null hnull
  | own hvalue hword hown => exact .own hvalue hword hown
  | known hoffered hnone | keep hoffered hnone =>
    exact .known hoffered hnone (hkey (by rw [hoffered.isFiled_eq, hnone]; rfl))
  | full hoffered hfield hhas => exact .full hoffered hfield (hfields _ hhas)
  | @senseless word written field hoffered hfield _ hfill hwritten =>
    -- another value may have filled the field since
    by_cases hhas : result.has field = true
    · exact .full hoffered hfield hhas
    · exact .senseless hoffered hfield (Bool.eq_false_iff.2 hhas) hfill hwritten
  | @fill word field filled hoffered hfield _ hfill =>
    have hread : meaning? today field value = some filled := by rw [meaning?, hfill]; rfl
    have hfilled :=
      ((Metadata.agrees_copy_self filled metadata field).markInherited
        (.str field.name)).has_eq.trans (has_of_meaning? hread)
    exact .full hoffered hfield (hfields field hfilled)

/-! ## All values -/

theorem exists_inherit_of_mem {entry : Value × Value} (hentry : entry ∈ source)
    (h : source.foldlM (fun metadata entry => inherit rules today metadata entry.1 entry.2)
      metadata = .ok result) :
    ∃ (before next : Metadata) (rest : Entries),
      inherit rules today before entry.1 entry.2 = .ok next ∧
      rest.foldlM (fun metadata entry => inherit rules today metadata entry.1 entry.2) next =
        .ok result := by
  obtain ⟨first, rest, rfl⟩ := List.append_of_mem hentry
  rw [List.foldlM_append] at h
  obtain ⟨before, -, h⟩ := Result.bind_eq_ok.1 h
  rw [List.foldlM_cons] at h
  obtain ⟨next, hnext, h⟩ := Result.bind_eq_ok.1 h
  exact ⟨before, next, rest, hnext, h⟩

theorem exists_extends_of_foldlM
    (h : source.foldlM (fun metadata entry => inherit rules today metadata entry.1 entry.2)
      metadata = .ok result) :
    ∃ added, Extends rules source metadata result added := by
  induction source generalizing metadata with
  | nil =>
    cases h
    exact ⟨[], .refl _⟩
  | cons entry rest ih =>
    rw [List.foldlM_cons] at h
    obtain ⟨next, hnext, h⟩ := Result.bind_eq_ok.1 h
    obtain ⟨added, hfirst⟩ := extends_of_inherit hnext
    obtain ⟨added', hrest⟩ := ih h
    exact ⟨added ++ added', hfirst.trans hrest⟩

theorem foldlM_eq_of_forall
    (h : ∀ entry ∈ source, inherit rules today result entry.1 entry.2 = .ok result) :
    source.foldlM (fun metadata entry => inherit rules today metadata entry.1 entry.2) result =
      .ok result := by
  induction source with
  | nil => rfl
  | cons entry rest ih =>
    rw [List.foldlM_cons]
    exact Result.bind_eq_ok.2 ⟨result, h entry List.mem_cons_self,
      ih fun other hother => h other (List.mem_cons_of_mem _ hother)⟩

theorem exists_kept_of_foldlM
    (h : source.foldlM (fun metadata entry => inherit rules today metadata entry.1 entry.2)
      metadata = .ok result)
    {entry : Value × Value} (hentry : entry ∈ source) (hfiled : isFiled rules entry = true) :
    ∃ kept ∈ result.custom, kept.1.isFoundAs entry.1 = true := by
  obtain ⟨_, next, rest, hnext, hrest⟩ := exists_inherit_of_mem hentry h
  obtain ⟨kept, hkept, hfound⟩ := exists_kept_of_inherit hnext hfiled
  obtain ⟨added, hextends⟩ := exists_extends_of_foldlM hrest
  exact ⟨kept, by rw [hextends.custom]; exact List.mem_append_left _ hkept, hfound⟩

theorem inherit_again_of_foldlM
    (h : source.foldlM (fun metadata entry => inherit rules today metadata entry.1 entry.2)
      metadata = .ok result)
    {entry : Value × Value} (hentry : entry ∈ source) (hkey : entry.1.isKey = true) :
    inherit rules today result entry.1 entry.2 = .ok result := by
  obtain ⟨_, next, rest, hnext, hrest⟩ := exists_inherit_of_mem hentry h
  obtain ⟨added, hextends⟩ := exists_extends_of_foldlM hrest
  refine inherit_again hnext (fun field hhas => (hextends.fields field hhas).has_eq.trans hhas)
    fun hfiled => ?_
  obtain ⟨kept, hkept, hfound⟩ := exists_kept_of_foldlM h hentry hfiled
  exact List.any_eq_true.2 ⟨kept, hkept, Value.sameKey_of_isFoundAs hkey hfound⟩

/-- Taking over a source fills gaps and does nothing else, and taking over a mapping once more
changes nothing. -/
theorem fillsGaps_of_apply (h : apply rules today source isSubtask metadata = .ok result) :
    ∃ added, FillsGaps rules today source isSubtask metadata result added := by
  by_cases hreaches : reaches rules isSubtask = true
  · have hfold : source.foldlM (fun metadata entry => inherit rules today metadata entry.1 entry.2)
        metadata = .ok result := by
      rwa [apply, if_pos hreaches] at h
    obtain ⟨added, hextends⟩ := exists_extends_of_foldlM hfold
    refine ⟨added, hextends, fun _ field hempty => ?_, fun _ entry => exists_kept_of_foldlM hfold,
      fun hnot => ?_, fun hkeys => ?_⟩
    · have hagrees := agrees_apply h hreaches hempty
      revert hagrees
      cases source.find? (fills rules today field) with
      | some entry => exact id
      | none => exact fun hagrees => hagrees.has_eq.trans hempty
    · rw [hreaches] at hnot
      cases hnot
    · rw [apply, if_pos hreaches]
      exact foldlM_eq_of_forall fun entry hentry =>
        inherit_again_of_foldlM hfold hentry (hkeys entry hentry)
  · have hnot : ∀ source metadata, apply rules today source isSubtask metadata = .ok metadata :=
        fun source metadata => by
      rw [apply, if_neg hreaches]
    obtain rfl : metadata = result := Except.ok.inj ((hnot source metadata).symm.trans h)
    exact ⟨[], .refl _, fun hyes => absurd hyes hreaches, fun hyes => absurd hyes hreaches,
      fun _ => rfl, fun _ => hnot _ _⟩

/-- A header with a date that cannot be read and one that can, a level, an empty area and an area,
and a project, a team and a room. -/
def shedHeader : Entries :=
  [(.str "Due".toList, .str "someday".toList), (.str "dueDate".toList, .str "2024-01-15".toList),
   (.str "PRIORITY".toList, .int 5), (.str "area".toList, .null),
   (.str "Area".toList, .str " garden ".toList), (.str "project".toList, .str "Shed".toList),
   (.str "team".toList, .str "red".toList), (.str "room".toList, .str "east".toList)]

def paintShed : Metadata :=
  { priority := some 3, custom := [(.str "room".toList, .str "west".toList)] }

theorem fillsGaps_of_apply_shed : ∃ result,
    apply none ⟨2024, 1, 1, rfl⟩ shedHeader false paintShed = .ok result ∧
    (∃ added, FillsGaps none ⟨2024, 1, 1, rfl⟩ shedHeader false paintShed result added) ∧
      result.dates.due = some 1705276800000 ∧ result.priority = some 3 ∧
        result.area = some "garden".toList ∧ result.project = none ∧
        result.custom.map (·.1.display) = ["room".toList, "team".toList] ∧
          result.inherited.map Value.display =
            ["dueDate".toList, "area".toList, "team".toList] := by
  obtain ⟨result, hresult, hfields⟩ : ∃ result,
      apply none ⟨2024, 1, 1, rfl⟩ shedHeader false paintShed = .ok result ∧
      (result.dates.due, result.priority, result.area, result.project) =
          (some 1705276800000, some 3, some "garden".toList, none) :=
    Result.exists_of_map (by decide +kernel)
  obtain ⟨other, hother, hlists⟩ : ∃ result,
      apply none ⟨2024, 1, 1, rfl⟩ shedHeader false paintShed = .ok result ∧
      (result.custom.map (·.1.display), result.inherited.map Value.display) =
        (["room".toList, "team".toList], ["dueDate".toList, "area".toList, "team".toList]) :=
          Result.exists_of_map (by decide +kernel)
  obtain rfl : result = other := Except.ok.inj (hresult.symm.trans hother)
  obtain ⟨hdue, hpriority, harea, hproject⟩ := by simpa only [Prod.mk.injEq] using hfields
  obtain ⟨hcustom, hinherited⟩ := Prod.mk.inj hlists
  exact ⟨result, hresult, fillsGaps_of_apply hresult, hdue, hpriority, harea,
    hproject, hcustom, hinherited⟩

end Inheritance
end Checklist
