import Checklist.Proofs.Inheritance

/-! # What is authored on a task

A task has values from its line and values that it inherited, which are listed by name. Main
statements: whatever a task inherits, its authored metadata stays the same
(`authoredMetadata_apply`), and nothing else is written (`pieces_authoredMetadata`). -/

namespace Checklist
set_option autoImplicit false
open Text

namespace Metadata

variable {metadata source : Metadata} {field : Field} {name key : Value}

/-- The metadata without whatever was inherited or inferred, and without the heading. -/
def authoredMetadata (metadata : Metadata) : Metadata where
  dates := {
    due := metadata.authored (.date .due) metadata.dates.due
    start := metadata.authored (.date .start) metadata.dates.start
    scheduled := metadata.authored (.date .scheduled) metadata.dates.scheduled
    completed := metadata.authored (.date .completed) metadata.dates.completed
    created := metadata.authored (.date .created) metadata.dates.created }
  priority := metadata.authored .priority metadata.priority
  project := metadata.authored .project metadata.project
  tags := metadata.tags
  context := metadata.authored .context metadata.context
  area := metadata.authored .area metadata.area
  recurrence := metadata.authored .recurrence metadata.recurrence
  custom := metadata.custom.filter fun entry => !metadata.inherits entry.1

theorem get_authoredMetadata (metadata : Metadata) (kind : DateField) :
    metadata.authoredMetadata.dates.get kind =
      metadata.authored (.date kind) (metadata.dates.get kind) := by
  cases kind <;> rfl

theorem authoredMetadata_eq_self (hinherited : metadata.inherited = [])
    (hheading : metadata.heading = none) (hinferred : metadata.inferred = none) :
    metadata.authoredMetadata = metadata := by
  cases metadata
  simp_all [authoredMetadata, authored, inherits]

/-- No key of the metadata is the name of a field, and one that equals no key is inherited. -/
structure HasPlainKeys (metadata : Metadata) : Prop where
  name : ∀ entry ∈ metadata.custom, ∀ field : Field, (Value.str field.name).sameKey entry.1 = false
  found : ∀ entry ∈ metadata.custom, entry.1.sameKey entry.1 = true ∨
    metadata.inherits entry.1 = true

theorem agrees_authoredMetadata
    (hinherits : metadata.inherits (.str field.name) = source.inherits (.str field.name))
    (h : source.Agrees metadata field) :
    source.authoredMetadata.Agrees metadata.authoredMetadata field := by
  cases field with
  | date kind =>
    show Dates.get _ kind = Dates.get _ kind
    rw [get_authoredMetadata, get_authoredMetadata, authored, authored, hinherits,
      show metadata.dates.get kind = source.dates.get kind from h]
  | tags => exact h
  | priority | project | context | area | recurrence =>
    exact congrArg₂ (fun inherited value => if inherited = true then none else value) hinherits h

theorem agrees_authoredMetadata_of_inherits (hinherits : metadata.inherits (.str field.name) = true)
    (hempty : source.has field = false)
    (hne : field ≠ .tags) : source.authoredMetadata.Agrees metadata.authoredMetadata field := by
  have hauthored : ∀ {α : Type} {value value' : Option α}, value'.isSome = false →
      metadata.authored field value = source.authored field value' := by
    intro α value value' hvalue
    obtain rfl := Option.isNone_iff_eq_none.1 (Option.isSome_eq_false_iff.1 hvalue)
    rw [authored, authored, hinherits, if_pos rfl, ite_self]
  cases field with
  | date kind =>
    show Dates.get _ kind = Dates.get _ kind
    rw [get_authoredMetadata, get_authoredMetadata]
    exact hauthored hempty
  | tags => exact absurd rfl hne
  | priority | project | context | area | recurrence => exact hauthored hempty

end Metadata

namespace Inheritance

variable {rules : Option ProjectRules} {today : Date} {metadata result : Metadata}
  {key value : Value}

theorem authoredMetadata_keep (hkeys : metadata.HasPlainKeys)
    (hname : ∀ field : Field, (Value.str field.name).sameKey key = false)
    (hnew : metadata.custom.has key = false) :
    ({ metadata with custom := metadata.custom.set key value }.markInherited key).authoredMetadata =
      metadata.authoredMetadata ∧
      ({ metadata with custom := metadata.custom.set key value }.markInherited key).HasPlainKeys := by
  have hset : metadata.custom.set key value = metadata.custom ++
      [(key, value)] := by rw [Entries.set, if_neg (by simp [hnew])]
  have hinherits :=
      Metadata.inherits_markInherited { metadata with custom := metadata.custom ++ [(key, value)] }
        key
  -- a key found as the new one equals none, and so it is inherited already
  have hold : ∀ entry ∈ metadata.custom, (metadata.inherits entry.1 || key.isFoundAs entry.1) =
      metadata.inherits entry.1 := by
    intro entry hentry
    have hother : key.sameKey entry.1 = false := by
      rw [Value.sameKey_comm]
      exact Bool.eq_false_iff.2 (List.any_eq_false.1 hnew entry hentry)
    rcases hkeys.found entry hentry with hself | hmarked
    · rw [Value.isFoundAs, hother, hself, Bool.not_true, Bool.and_false, Bool.or_false, Bool.or_false]
    · rw [hmarked, Bool.true_or]
  rw [hset]
  refine ⟨Metadata.eq_of_agrees (fun field => ?_) ?_, ⟨?_, ?_⟩⟩
  · refine Metadata.agrees_authoredMetadata ?_
      (Metadata.Agrees.markInherited (by cases field <;> rfl) _)
    rw [hinherits, Value.isFoundAs_str, hname field, Bool.or_false]
    rfl
  · refine congrArg (fun custom => (none, none, custom, [])) ?_
    show (Metadata.custom (Metadata.markInherited _ key)).filter _ = metadata.custom.filter _
    rw [Metadata.custom_markInherited, List.filter_append, List.filter_cons_of_neg,
      List.filter_nil, List.append_nil]
    · refine List.filter_congr fun entry hentry => ?_
      rw [hinherits]
      exact congrArg (!·) (hold entry hentry)
    · rw [hinherits, Value.isFoundAs_self, Bool.or_true]
      decide
  · rw [Metadata.custom_markInherited]
    exact List.forall_mem_append.2 ⟨hkeys.name, List.forall_mem_singleton.2 hname⟩
  · rw [Metadata.custom_markInherited]
    refine List.forall_mem_append.2
      ⟨fun entry hentry => (hkeys.found entry hentry).imp_right fun hmarked => ?_, ?_⟩
    · rw [hinherits]
      exact Bool.or_eq_true_iff.2 (.inl hmarked)
    · refine List.forall_mem_singleton.2 (.inr ?_)
      rw [hinherits, Value.isFoundAs_self, Bool.or_true]

theorem sameKey_name_eq_false {field other : Field} (hne : other ≠ field) :
    (Value.str field.name).sameKey (.str other.name) = false := by
  refine Bool.eq_false_iff.2 fun hname => hne ?_
  have hword : field.name = other.name := Value.str.inj (Value.eq_str_of_sameKey hname)
  have hother := Field.ofName?_name other
  rw [← hword, Field.ofName?_name field] at hother
  exact (Option.some.inj hother).symm

theorem authoredMetadata_fill {field : Field} (filled : Metadata) (hkeys : metadata.HasPlainKeys)
    (hne : field ≠ .tags) (hempty : metadata.has field = false) :
    ((filled.copy field metadata).markInherited (.str field.name)).authoredMetadata =
      metadata.authoredMetadata ∧
      ((filled.copy field metadata).markInherited (.str field.name)).HasPlainKeys := by
  have hcustom : (filled.copy field metadata).custom = metadata.custom :=
    congrArg (·.2.2.1) (Metadata.rest_copy filled metadata field)
  have hmarked : (filled.copy field metadata).inherited = metadata.inherited :=
    congrArg (·.2.2.2) (Metadata.rest_copy filled metadata field)
  have hinherits : ∀ name,
      ((filled.copy field metadata).markInherited (.str field.name)).inherits name =
      (metadata.inherits name || (Value.str field.name).sameKey name) := by
    intro name
    rw [Metadata.inherits_markInherited, Value.str_isFoundAs, Metadata.inherits,
      hmarked, Metadata.inherits]
  refine ⟨Metadata.eq_of_agrees (fun other => ?_) ?_, ⟨?_, ?_⟩⟩
  · by_cases hsame : other = field
    · subst hsame
      refine Metadata.agrees_authoredMetadata_of_inherits ?_ hempty hne
      rw [hinherits, Value.sameKey_str_self, Bool.or_true]
    · refine Metadata.agrees_authoredMetadata ?_ ((Metadata.agrees_copy_of_ne hsame).markInherited _)
      rw [hinherits, sameKey_name_eq_false hsame, Bool.or_false]
  · refine congrArg (fun custom => (none, none, custom, [])) ?_
    show (Metadata.custom (Metadata.markInherited _ _)).filter _ = metadata.custom.filter _
    rw [Metadata.custom_markInherited, hcustom]
    refine List.filter_congr fun entry hentry => ?_
    rw [hinherits, hkeys.name entry hentry, Bool.or_false]
  · rw [Metadata.custom_markInherited, hcustom]
    exact hkeys.name
  · rw [Metadata.custom_markInherited, hcustom]
    refine fun entry hentry => (hkeys.found entry hentry).imp_right fun hfound => ?_
    rw [hinherits, hfound, Bool.true_or]

theorem Taken.authoredMetadata_eq (h : Taken rules today metadata key value result)
    (hkeys : metadata.HasPlainKeys) :
    result.authoredMetadata = metadata.authoredMetadata ∧ result.HasPlainKeys := by
  cases h with
  | nothing _ => exact ⟨rfl, hkeys⟩
  | custom _ hname hnew => exact authoredMetadata_keep hkeys hname hnew
  | @field field filled _ hmeaning hempty =>
    have hne : field ≠ .tags := by
      rintro rfl
      cases hmeaning
    exact authoredMetadata_fill filled hkeys hne hempty

theorem authoredMetadata_apply {source : Entries} {isSubtask : Bool}
    (h : apply rules today source isSubtask metadata = .ok result)
    (hkeys : metadata.HasPlainKeys) : result.authoredMetadata = metadata.authoredMetadata := by
  unfold apply at h
  split at h
  · induction source generalizing metadata with
    | nil =>
      cases h
      rfl
    | cons entry rest ih =>
      rw [List.foldlM_cons] at h
      obtain ⟨next, hnext, h⟩ := Result.bind_eq_ok.1 h
      obtain ⟨hsame, hnextKeys⟩ := (taken_of_inherit hnext).authoredMetadata_eq hkeys
      exact (ih hnextKeys h).trans hsame
  · cases h
    rfl

end Inheritance

/-- Only what is authored is written. -/
theorem Task.pieces_authoredMetadata (metadata : Metadata) (style : Style) :
    pieces metadata.authoredMetadata style = pieces metadata style := by
  have hnone : ∀ {α : Type} (field : Field) (value : Option α),
      metadata.authoredMetadata.authored field value = value :=
    fun field value => authored_eq rfl field value
  have hcustom : (metadata.authoredMetadata.custom.filter fun entry =>
      !metadata.authoredMetadata.inherits entry.1) =
      metadata.custom.filter fun entry => !metadata.inherits entry.1 :=
        List.filter_eq_self.2 fun entry _ => rfl
  have hdates : ∀ entry : DateField × Text, metadata.authoredMetadata.authored (.date entry.1)
      (metadata.authoredMetadata.dates.get entry.1) =
      metadata.authored (.date entry.1) (metadata.dates.get entry.1) :=
        fun entry => by rw [hnone, Metadata.get_authoredMetadata]
  unfold pieces
  simp only [hdates, hcustom]
  simp only [hnone]
  rfl

end Checklist
