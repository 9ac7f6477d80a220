import Checklist.Inheritance
import Checklist.Proofs.Except
import Checklist.Proofs.Task.Fields
import Checklist.Proofs.Value.Entries
import Checklist.Proofs.Value.Keys

/-! # What a task inherits

A value is taken over for a field, kept under its own key, or left. Main statements: the ways that a
value can go (`inherit_eq_ok_iff`), and that it changes one field at most (`taken_of_inherit`); a
field that a task does not have comes from the first entry that fills it (`agrees_apply`), and no
project is ever inherited (`project_of_apply`). -/

namespace Checklist
set_option autoImplicit false
open Text

namespace Metadata

variable {source metadata : Metadata} {field : Field}

theorem agrees_copy_of_ne {other : Field} (h : field ≠ other) :
    metadata.Agrees (source.copy other metadata) field := by
  cases other with
  | date kind => cases field with
    | date kind' => exact Dates.get_set_of_ne _ _ fun heq => h (congrArg Field.date heq)
    | _ => rfl
  | _ => cases field <;> first | rfl | exact absurd rfl h

theorem Agrees.markInherited (h : source.Agrees metadata field) (name : Value) :
    source.Agrees (metadata.markInherited name) field := by
  unfold Metadata.markInherited
  split
  · exact h
  · cases field <;> exact h

theorem Agrees.refl (metadata : Metadata) (field : Field) : metadata.Agrees metadata field := by
  cases field <;> rfl

theorem Agrees.trans {first second third : Metadata} (h : first.Agrees second field)
    (h' : second.Agrees third field) : first.Agrees third field := by
  cases field <;> exact Eq.trans h' h

theorem Agrees.has_eq (h : source.Agrees metadata field) :
    metadata.has field = source.has field := by
  cases field with
  | date kind =>
    exact congrArg Option.isSome (show metadata.dates.get kind = source.dates.get kind from h)
  | priority => exact congrArg Option.isSome (show metadata.priority = source.priority from h)
  | project => exact congrArg Option.isSome (show metadata.project = source.project from h)
  | context => exact congrArg Option.isSome (show metadata.context = source.context from h)
  | area => exact congrArg Option.isSome (show metadata.area = source.area from h)
  | recurrence => exact congrArg Option.isSome (show metadata.recurrence = source.recurrence from h)
  | tags =>
    exact congrArg (fun tags : List Text => !tags.isEmpty) (show metadata.tags = source.tags from h)

theorem inherits_markInherited (metadata : Metadata) (name other : Value) :
    (metadata.markInherited name).inherits other =
      (metadata.inherits other || name.isFoundAs other) := by
  unfold markInherited
  split
  · rename_i hmarked
    obtain ⟨marked, hmem, hsame⟩ := List.any_eq_true.1 hmarked
    have hself : name.sameKey name = true := by rwa [← Value.sameKey_congr hsame]
    by_cases hother : name.isFoundAs other = true
    · have hfound : marked.isFoundAs other = true := by
        rw [Value.isFoundAs, hself, Bool.not_true, Bool.false_and, Bool.or_false] at hother
        rw [Value.isFoundAs, Value.sameKey_congr hsame, hother, Bool.true_or]
      have hinherits : metadata.inherits other = true := List.any_eq_true.2 ⟨marked, hmem, hfound⟩
      rw [hinherits, Bool.true_or]
    · rw [Bool.eq_false_iff.2 hother, Bool.or_false]
  · rw [inherits, List.any_append, inherits]
    simp

theorem custom_markInherited (metadata : Metadata) (name : Value) :
    (metadata.markInherited name).custom = metadata.custom := by
  unfold markInherited
  split <;> rfl

end Metadata

namespace Inheritance

variable {rules : Option ProjectRules} {today : Date}

/-! ## Keys and values -/

/-- The key is read as a field: it stands for the field and is no key of the task itself. -/
def names (rules : Option ProjectRules) (field : Field) (key : Value) : Bool :=
  match key.written with
  | .ok word => !isOwn rules word && Field.ofKey? word == some field
  | .error _ => false

/-- What a value means for a field, as metadata that holds nothing else. -/
def meaning? (today : Date) (field : Field) (value : Value) : Option Metadata :=
  (fill? today {} field value).toOption.join

/-- The entry fills the field: it stands under a key for the field, and its value means
something for it. -/
def fills (rules : Option ProjectRules) (today : Date) (field : Field)
    (entry : Value × Value) : Bool :=
  !entry.2.isNull && names rules field entry.1 && (meaning? today field entry.2).isSome

theorem names_eq_of_written {key : Value} {word : Text} (h : key.written = .ok word)
    (field : Field) :
    names rules field key = (!isOwn rules word && Field.ofKey? word == some field) := by
  rw [names, h]

theorem isOwn_of_project {word : Text} (h : Field.ofKey? word = some .project) :
    isOwn rules word = true := by
  have hword : lower word = "project".toList := by
    rcases Option.or_eq_some_iff.1 h with hlookup | ⟨-, hfind⟩
    · have hwords : ∀ entry ∈ Field.words, entry.2 ≠ .project := by decide
      obtain ⟨before, after, hsplit, -⟩ := List.lookup_eq_some_iff.1 hlookup
      exact absurd rfl (hwords (lower word, .project) (by rw [hsplit]; simp))
    · have hname : (lower Field.project.name == lower word) =
          true := by simpa using (List.find?_eq_some_iff_append.1 hfind).1
      rw [← beq_iff_eq.1 hname]
      decide +kernel
  have hmem : "project".toList ∈ ownKeys := by decide
  rw [isOwn, hword, List.contains_iff_mem]
  exact List.mem_cons_of_mem _ hmem

theorem names_project (key : Value) : names rules .project key = false := by
  unfold names
  split
  · rename_i word _
    by_cases hfield : Field.ofKey? word = some .project
    · simp [isOwn_of_project hfield]
    · simp [hfield]
  · rfl

theorem eq_of_names {field : Field} {key other : Value} (h : names rules field key = true)
    (hsame : key.sameKey other = true) : other = key := by
  unfold names at h
  split at h
  · rename_i word hwritten
    have hdisplay : key.display = word := by
      unfold Value.written at hwritten
      split at hwritten
      · exact Except.ok.inj hwritten
      · cases hwritten
    simp only [Bool.and_eq_true, beq_iff_eq] at h
    obtain ⟨word, rfl⟩ := exists_word_of_ofKey? (hdisplay ▸ h.2)
    exact Value.eq_str_of_sameKey (by rwa [Value.sameKey_comm])
  · cases h

/-- Filling sets the field and nothing else, and what it sets the field to depends on the
value alone. -/
theorem fill?_eq (metadata : Metadata) (field : Field) (value : Value) :
    fill? today metadata field value =
      (fill? today {} field value).map (Option.map fun filled => filled.copy field metadata) := by
  have hread : ∀ {α : Type} {read : Except Failure (Option α)}
      {filled empty : Option α → Option Metadata},
      (∀ found, filled found = (empty found).map fun filled => filled.copy field metadata) →
      (do return filled (← read)) =
        (do return empty (← read) : Except Failure (Option Metadata)).map
        (Option.map fun filled => filled.copy field metadata) := by
    intro α read filled empty h
    cases read with
    | error cause => rfl
    | ok found => exact congrArg Except.ok (h found)
  cases field with
  | date kind =>
    refine hread fun found => ?_
    cases found with
    | none => rfl
    | some timestamp =>
      rw [Option.map_some, Option.map_some, Option.map_some, Metadata.copy, Dates.get_set]
  | tags => rfl
  | priority | recurrence | project | context | area =>
    exact hread fun found => by cases found <;> rfl

theorem has_of_meaning? {field : Field} {value : Value} {filled : Metadata}
    (h : meaning? today field value = some filled) : filled.has field = true := by
  have hfill := Result.eq_ok_of_join h
  have hread : ∀ {α : Type} {read : Except Failure (Option α)} {empty : Option α → Option Metadata},
      (∀ found, ∀ filled ∈ empty found, filled.has field = true) →
      (do return empty (← read)) = (.ok (some filled) : Except Failure (Option Metadata)) →
          filled.has field = true := by
    intro α read empty hempty hsome
    obtain ⟨found, -, hsome⟩ := Result.bind_eq_ok.1 hsome
    exact hempty found filled (Except.ok.inj hsome)
  cases field with
  | date kind =>
    refine hread (fun found => ?_) hfill
    cases found <;> simp [Metadata.has, Dates.get_set]
  | tags => cases hfill
  | priority | recurrence | project | context | area =>
    exact hread (fun found => by cases found <;> simp [Metadata.has]) hfill

/-! ## One value -/

/-- There is a value, and its key can be written and is no key of the task's own. -/
structure IsOffered (rules : Option ProjectRules) (key value : Value) (word : Text) : Prop where
  value : value.isNull = false
  key : key.written = .ok word
  free : isOwn rules word = false

/-- The ways in which taking over a value can end, with the tests that lead there. -/
inductive Step (rules : Option ProjectRules) (today : Date) (metadata : Metadata)
    (key value : Value) : Metadata → Prop where
  | null (hnull : value.isNull = true) : Step rules today metadata key value metadata
  | own {word : Text} (hvalue : value.isNull = false) (hword : key.written = .ok word)
      (hown : isOwn rules word = true) :
    Step rules today metadata key value metadata
  | known {word : Text} (hoffered : IsOffered rules key value word)
      (hkey : Field.ofKey? word = none) (hhas : metadata.custom.has key = true) :
    Step rules today metadata key value metadata
  | keep {word : Text} (hoffered : IsOffered rules key value word) (hkey : Field.ofKey? word = none)
      (hnew : metadata.custom.has key = false) :
    Step rules today metadata key value
      ({ metadata with custom := metadata.custom.set key value }.markInherited key)
  | full {word : Text} {field : Field} (hoffered : IsOffered rules key value word)
      (hkey : Field.ofKey? word = some field)
    (hhas : metadata.has field = true) : Step rules today metadata key value metadata
  | senseless {word written : Text} {field : Field} (hoffered : IsOffered rules key value word)
      (hkey : Field.ofKey? word = some field)
    (hempty : metadata.has field = false) (hfill : fill? today {} field value = .ok none)
      (hwritten : value.written = .ok written) :
    Step rules today metadata key value metadata
  | fill {word : Text} {field : Field} {filled : Metadata}
      (hoffered : IsOffered rules key value word) (hkey : Field.ofKey? word = some field)
    (hempty : metadata.has field = false) (hfill : fill? today {} field value = .ok (some filled)) :
    Step rules today metadata key value ((filled.copy field metadata).markInherited (.str field.name))

theorem IsOffered.inherit_eq {key value : Value} {word : Text} (h : IsOffered rules key value word)
    (metadata : Metadata) :
    inherit rules today metadata key value = match Field.ofKey? word with
      | none =>
        if metadata.custom.has key then .ok metadata
        else .ok ({ metadata with custom := metadata.custom.set key value }.markInherited key)
      | some field =>
        if metadata.has field then .ok metadata else inheritField today metadata field value := by
  rw [inherit, if_neg (Bool.eq_false_iff.1 h.value), h.key]
  exact if_neg (Bool.eq_false_iff.1 h.free)

theorem inheritField_eq_ok_iff {metadata result : Metadata} {field : Field} {value : Value} :
    inheritField today metadata field value = .ok result ↔
    (∃ filled, fill? today {} field value = .ok (some filled) ∧
      result = (filled.copy field metadata).markInherited (.str field.name)) ∨
    (fill? today {} field value = .ok none ∧ (∃ written, value.written = .ok written) ∧
      result = metadata) := by
  rw [inheritField, fill?_eq]
  rcases fill? today {} field value with cause | _ | filled
  · exact ⟨nofun, by rintro (⟨_, h, -⟩ | ⟨h, -⟩) <;> cases h⟩
  · refine Result.map_eq_ok.trans ⟨?_, ?_⟩
    · rintro ⟨written, hwritten, rfl⟩
      exact .inr ⟨rfl, ⟨written, hwritten⟩, rfl⟩
    · rintro (⟨_, h, -⟩ | ⟨-, ⟨written, hwritten⟩, rfl⟩)
      · cases h
      · exact ⟨written, hwritten, rfl⟩
  · constructor
    · intro h
      cases h
      exact .inl ⟨filled, rfl, rfl⟩
    · rintro (⟨_, h, rfl⟩ | ⟨h, -⟩) <;> cases h
      rfl

theorem step_of_inherit {metadata result : Metadata} {key value : Value}
    (h : inherit rules today metadata key value = .ok result) :
    Step rules today metadata key value result := by
  by_cases hnull : value.isNull = true
  · rw [inherit, if_pos hnull] at h
    cases h
    exact .null hnull
  have hvalue : value.isNull = false := Bool.eq_false_iff.2 hnull
  have hrest := h
  rw [inherit, if_neg hnull] at hrest
  obtain ⟨word, hword, hrest⟩ := Result.bind_eq_ok.1 hrest
  by_cases hown : isOwn rules word = true
  · rw [if_pos hown] at hrest
    cases hrest
    exact .own hvalue hword hown
  have hoffered : IsOffered rules key value word := ⟨hvalue, hword, Bool.eq_false_iff.2 hown⟩
  rw [hoffered.inherit_eq] at h
  cases hkey : Field.ofKey? word with
  | none =>
    simp only [hkey] at h
    split at h
    case isTrue hhas =>
      cases h
      exact .known hoffered hkey hhas
    case isFalse hnew =>
      cases h
      exact .keep hoffered hkey (Bool.eq_false_iff.2 hnew)
  | some field =>
    simp only [hkey] at h
    split at h
    case isTrue hhas =>
      cases h
      exact .full hoffered hkey hhas
    case isFalse hempty =>
      have hempty := Bool.eq_false_iff.2 hempty
      rcases inheritField_eq_ok_iff.1 h with ⟨filled, hfill, rfl⟩ |
        ⟨hfill, ⟨written, hwritten⟩, rfl⟩
      · exact .fill hoffered hkey hempty hfill
      · exact .senseless hoffered hkey hempty hfill hwritten

theorem Step.inherit_eq {metadata result : Metadata} {key value : Value}
    (h : Step rules today metadata key value result) :
    inherit rules today metadata key value = .ok result := by
  cases h with
  | null hnull => rw [inherit, if_pos hnull]
  | own hvalue hword hown =>
    simp [inherit, hvalue, hword, hown, bind, Except.bind, pure, Except.pure]
  | known hoffered hkey hhas => rw [hoffered.inherit_eq, hkey]; exact if_pos hhas
  | keep hoffered hkey hnew =>
    rw [hoffered.inherit_eq, hkey]; exact if_neg (Bool.eq_false_iff.1 hnew)
  | full hoffered hkey hhas => rw [hoffered.inherit_eq, hkey]; exact if_pos hhas
  | senseless hoffered hkey hempty hfill hwritten =>
    rw [hoffered.inherit_eq, hkey]
    exact (if_neg (Bool.eq_false_iff.1 hempty)).trans
      (inheritField_eq_ok_iff.2 (.inr ⟨hfill, ⟨_, hwritten⟩, rfl⟩))
  | fill hoffered hkey hempty hfill =>
    rw [hoffered.inherit_eq, hkey]
    exact (if_neg (Bool.eq_false_iff.1 hempty)).trans (inheritField_eq_ok_iff.2 (.inl ⟨_, hfill, rfl⟩))

theorem inherit_eq_ok_iff {metadata result : Metadata} {key value : Value} :
    inherit rules today metadata key value = .ok result ↔
      Step rules today metadata key value result :=
  ⟨step_of_inherit, Step.inherit_eq⟩

/-- What taking over one value makes of metadata. -/
inductive Taken (rules : Option ProjectRules) (today : Date) (metadata : Metadata)
    (key value : Value) : Metadata → Prop where
  /-- It is left: it fills no field that is empty, and nothing is filed under its key. -/
  | nothing (hfields : ∀ field, fills rules today field (key, value) = true →
      metadata.has field = true) :
    Taken rules today metadata key value metadata
  /-- It is kept under its own key, which is the name of no field. -/
  | custom (hfields : ∀ field, fills rules today field (key, value) = false)
    (hname : ∀ field : Field, (Value.str field.name).sameKey key = false)
      (hnew : metadata.custom.has key = false) :
    Taken rules today metadata key value
      ({ metadata with custom := metadata.custom.set key value }.markInherited key)
  /-- It fills a field. -/
  | field {field : Field} {filled : Metadata} (hfills : fills rules today field (key, value) = true)
    (hmeaning : meaning? today field value = some filled) (hempty : metadata.has field = false) :
    Taken rules today metadata key value ((filled.copy field metadata).markInherited (.str field.name))

theorem eq_of_fills {field other : Field} {entry : Value × Value}
    (h : fills rules today field entry = true) (h' : fills rules today other entry = true) :
    field = other := by
  have hkey : ∀ {field}, fills rules today field entry = true → ∃ word, entry.1.written = .ok word ∧
      Field.ofKey? word = some field := by
    intro field h
    simp only [fills, names, Bool.and_eq_true] at h
    split at h
    · rename_i word hword
      simp only [Bool.and_eq_true, beq_iff_eq] at h
      exact ⟨word, hword, h.1.2.2⟩
    · simp at h
  obtain ⟨word, hword, hfield⟩ := hkey h
  obtain ⟨word', hword', hother⟩ := hkey h'
  obtain rfl : word = word' := Except.ok.inj (hword.symm.trans hword')
  exact Option.some.inj (hfield.symm.trans hother)

theorem isOwn_name {field : Field} (h : Field.ofKey? field.name = none) :
    isOwn rules field.name = true := by
  have hnone : ∀ field ∈ Field.all, Field.ofKey? field.name = none →
      ownKeys.contains (lower field.name) = true := by decide +kernel
  have hmem : field ∈ Field.all := List.mem_of_find?_eq_some (Field.ofName?_name field)
  rw [isOwn, List.contains_iff_mem]
  exact List.mem_cons_of_mem _ (List.contains_iff_mem.1 (hnone field hmem h))

theorem IsOffered.names_eq {key value : Value} {word : Text} (h : IsOffered rules key value word)
    (field : Field) :
    names rules field key = (Field.ofKey? word == some field) := by
  rw [names_eq_of_written h.key, h.free, Bool.not_false, Bool.true_and]

theorem taken_of_inherit {metadata result : Metadata} {key value : Value}
    (h : inherit rules today metadata key value = .ok result) :
    Taken rules today metadata key value result := by
  cases inherit_eq_ok_iff.1 h with
  | null hnull => exact .nothing fun field hfills => by simp [fills, hnull] at hfills
  | own hvalue hword hown =>
    exact .nothing fun field hfills => by simp [fills, names_eq_of_written hword, hown] at hfills
  | known hoffered hkey hhas =>
    exact .nothing fun field hfills => by simp [fills, hoffered.names_eq, hkey] at hfills
  | keep hoffered hkey hnew =>
    refine .custom (fun field => by simp [fills, hoffered.names_eq, hkey])
      (fun field => Bool.eq_false_iff.2 fun hname => ?_) hnew
    -- the name of a field that no key stands for is one of the task's own keys
    obtain rfl := Value.eq_str_of_sameKey ((Value.sameKey_comm _ _).trans hname)
    obtain rfl := Except.ok.inj hoffered.key
    exact Bool.eq_false_iff.1 hoffered.free (isOwn_name hkey)
  | full hoffered hkey hhas =>
    refine .nothing fun other hother => ?_
    simp only [fills, hoffered.names_eq, hkey, Bool.and_eq_true, beq_iff_eq,
      Option.some.injEq] at hother
    rwa [← hother.1.2]
  | senseless hoffered hkey hempty hfill hwritten =>
    refine .nothing fun other hother => ?_
    simp only [fills, hoffered.names_eq, hkey, Bool.and_eq_true, beq_iff_eq,
      Option.some.injEq] at hother
    obtain ⟨⟨-, rfl⟩, hmeaning⟩ := hother
    simp [meaning?, hfill, Except.toOption] at hmeaning
  | @fill word field filled hoffered hkey hempty hfill =>
    have hmeaning : meaning? today field value = some filled := by rw [meaning?, hfill]; rfl
    refine .field ?_ hmeaning hempty
    simp [fills, hoffered.names_eq, hoffered.value, hkey, hmeaning]

variable {metadata result : Metadata} {key value : Value} {field : Field}

theorem Taken.agrees (h : Taken rules today metadata key value result)
    (hkept : metadata.has field = true ∨ fills rules today field (key, value) = false) :
    metadata.Agrees result field := by
  cases h with
  | nothing _ => cases field <;> rfl
  | custom _ _ _ => exact Metadata.Agrees.markInherited (by cases field <;> rfl) _
  | @field other filled hfills _ hempty =>
    refine Metadata.Agrees.markInherited (Metadata.agrees_copy_of_ne ?_) _
    rintro rfl
    simp [hempty, hfills] at hkept

theorem Taken.agrees_of_fills (h : Taken rules today metadata key value result)
    (hempty : metadata.has field = false)
    (hfills : fills rules today field (key, value) = true) {filled : Metadata}
    (hmeaning : meaning? today field value = some filled) :
    filled.Agrees result field := by
  cases h with
  | nothing hfields => simp [hfields field hfills] at hempty
  | custom hfields _ _ => simp [hfields field] at hfills
  | field hfills' hmeaning' _ =>
    obtain rfl := eq_of_fills hfills' hfills
    obtain rfl := Option.some.inj (hmeaning'.symm.trans hmeaning)
    exact (Metadata.agrees_copy_self _ _ _).markInherited _

theorem Taken.inferred_eq (h : Taken rules today metadata key value result) :
    result.inferred = metadata.inferred := by
  have hmark : ∀ (metadata : Metadata) (name : Value), (metadata.markInherited name).inferred =
      metadata.inferred := by
    intro metadata name
    unfold Metadata.markInherited
    split <;> rfl
  cases h with
  | nothing _ => rfl
  | custom _ _ _ => exact hmark _ _
  | field _ _ _ => exact (hmark _ _).trans (congrArg Prod.fst (Metadata.rest_copy _ _ _))

/-! ## All values -/

theorem agrees_foldlM_of_has {source : Entries}
    (h : source.foldlM (fun metadata entry => inherit rules today metadata entry.1 entry.2)
      metadata = .ok result)
    (hhas : metadata.has field = true) : metadata.Agrees result field := by
  induction source generalizing metadata with
  | nil =>
    cases h
    cases field <;> rfl
  | cons entry rest ih =>
    rw [List.foldlM_cons] at h
    obtain ⟨next, hnext, h⟩ := Result.bind_eq_ok.1 h
    have hagrees := (taken_of_inherit hnext).agrees (.inl hhas)
    exact hagrees.trans (ih h (hagrees.has_eq.trans hhas))

/-- A field without a value is filled by the first entry that fills it, and stays as it is if
there is none. -/
theorem agrees_foldlM {source : Entries}
    (h : source.foldlM (fun metadata entry => inherit rules today metadata entry.1 entry.2)
      metadata = .ok result)
    (hempty : metadata.has field = false) : match source.find? (fills rules today field) with
      | some entry => ∃ filled, meaning? today field entry.2 = some filled ∧
        filled.Agrees result field
      | none => metadata.Agrees result field := by
  induction source generalizing metadata with
  | nil =>
    cases h
    cases field <;> rfl
  | cons entry rest ih =>
    rw [List.foldlM_cons] at h
    obtain ⟨next, hnext, h⟩ := Result.bind_eq_ok.1 h
    have htaken := taken_of_inherit hnext
    cases hfills : fills rules today field entry with
    | true =>
      rw [List.find?_cons_of_pos hfills]
      have hsome : (meaning? today field entry.2).isSome = true := (Bool.and_eq_true _ _ ▸ hfills).2
      obtain ⟨filled, hmeaning⟩ := Option.isSome_iff_exists.1 hsome
      have hagrees := htaken.agrees_of_fills hempty hfills hmeaning
      exact ⟨filled, hmeaning,
        hagrees.trans (agrees_foldlM_of_has h (hagrees.has_eq.trans (has_of_meaning? hmeaning)))⟩
    | false =>
      rw [List.find?_cons_of_neg (by simp [hfills])]
      have hagrees := htaken.agrees (.inr hfills)
      have hrest := ih h (hagrees.has_eq.trans hempty)
      revert hrest
      cases rest.find? (fills rules today field) with
      | some found => exact id
      | none => exact hagrees.trans

theorem agrees_apply {source : Entries} {isSubtask : Bool}
    (h : apply rules today source isSubtask metadata = .ok result)
    (hreaches : reaches rules isSubtask = true) (hempty : metadata.has field = false) :
    match source.find? (fills rules today field) with
      | some entry => ∃ filled, meaning? today field entry.2 = some filled ∧
        filled.Agrees result field
      | none => metadata.Agrees result field := by
  rw [apply, if_pos hreaches] at h
  exact agrees_foldlM h hempty

theorem project_of_apply {source : Entries} {isSubtask : Bool}
    (h : apply rules today source isSubtask metadata = .ok result) :
    result.project = metadata.project ∧ result.inferred = metadata.inferred := by
  unfold apply at h
  split at h
  · have hstep : ∀ {metadata next : Metadata} {entry : Value × Value},
        inherit rules today metadata entry.1 entry.2 = .ok next →
        next.project = metadata.project ∧ next.inferred = metadata.inferred := by
      intro metadata next entry hnext
      have htaken := taken_of_inherit hnext
      have hproject : metadata.Agrees next .project :=
        htaken.agrees (.inr (by simp [fills, names_project]))
      exact ⟨hproject, htaken.inferred_eq⟩
    induction source generalizing metadata with
    | nil =>
      cases h
      exact ⟨rfl, rfl⟩
    | cons entry rest ih =>
      rw [List.foldlM_cons] at h
      obtain ⟨next, hnext, h⟩ := Result.bind_eq_ok.1 h
      obtain ⟨hproject, hinferred⟩ := ih h
      obtain ⟨hproject', hinferred'⟩ := hstep hnext
      exact ⟨hproject.trans hproject', hinferred.trans hinferred'⟩
  · cases h
    exact ⟨rfl, rfl⟩

end Inheritance
end Checklist
