import Checklist.Proofs.Schema
import Checklist.Proofs.Table
import Checklist.Proofs.Workflow.Ring
import Checklist.Workflow.Data

/-! # Definitions that load

A definition whose fields have the right types loads if no terminal stage leads on and its stages
hang together. Main statements: stages have no flaw exactly if they are well-formed
(`flaw?_eq_none_iff`), nothing else stands in the way of a definition (`loads_iff_isWellFormed`),
and so a workflow written as data loads again (`load_toValue_iff`). -/

namespace Checklist
set_option autoImplicit false
open Text Schema

variable {entries : Entries} {items : List Entries} {workflow : Workflow}

/-! ## Well-formed stages -/

namespace Workflow

variable {stages : List Stage} {stage : Stage}

/-- No two stages have one id, stages refer to stages, and the sub-stages of each are one ring. -/
structure IsWellFormed (stages : List Stage) : Prop where
  distinct : (stages.map (·.id)).Nodup
  references : ∀ stage ∈ stages, ∀ target ∈ stage.references, target ∈ stages.map (·.id)
  rings : ∀ stage ∈ stages, IsRing stage.subStages

theorem duplicates_eq_nil_iff : duplicates stages = [] ↔ (stages.map (·.id)).Nodup := by
  rw [List.eq_nil_iff_forall_not_mem, List.nodup_iff_count_le_one]
  simp only [duplicates, mem_sort, List.mem_eraseDups, List.mem_filter,
    decide_eq_true_eq, not_and, Nat.not_lt]
  refine forall_congr' fun id => ⟨fun h => ?_, fun h _ => h⟩
  by_cases hid : id ∈ stages.map (·.id)
  · exact h hid
  · simp [List.count_eq_zero_of_not_mem hid]

theorem stageFlaw?_eq_none_iff :
    stageFlaw? stages stage = none ↔ (∀ target ∈ stage.references, target ∈ stages.map (·.id)) ∧
      IsRing stage.subStages := by
  have hknown : (stage.references.find? fun target => !stages.any fun other => other.id == target) =
      none ↔
      ∀ target ∈ stage.references, target ∈ stages.map (·.id) := by
    simp
  rw [← hknown, ← ringFlaw?_eq_none_iff, stageFlaw?]
  split <;> simp_all

theorem flaw?_eq_none_iff : flaw? stages = none ↔ IsWellFormed stages := by
  have hstages : stages.findSome? (stageFlaw? stages) = none ↔
      ∀ stage ∈ stages, (∀ target ∈ stage.references, target ∈ stages.map (·.id)) ∧
          IsRing stage.subStages := by
    simp only [List.findSome?_eq_none_iff, stageFlaw?_eq_none_iff]
  have hflaw : flaw? stages = none ↔ duplicates stages = [] ∧
      stages.findSome? (stageFlaw? stages) = none := by
    unfold flaw?
    split <;> simp_all
  rw [hflaw, duplicates_eq_nil_iff, hstages]
  exact ⟨fun ⟨hdistinct, h⟩ =>
    ⟨hdistinct, fun stage hstage => (h stage hstage).1, fun stage hstage => (h stage hstage).2⟩,
    fun h => ⟨h.distinct, fun stage hstage => ⟨h.references stage hstage, h.rings stage hstage⟩⟩⟩

end Workflow

/-! ## Data and what they describe -/

namespace Stage

/-- The fields that every stage has are of the right types. -/
structure HasFields (entries : Entries) (stage : Stage) : Prop where
  id : required ["id"] text entries = .ok stage.id
  name : required ["name"] text entries = .ok stage.name
  canProceedTo : optional ["canProceedTo", "can_proceed_to"] [] (listOf text) entries =
    .ok stage.canProceedTo

/-- The type names the kind of stage, and the fields of that kind are of the right types. -/
inductive HasKind (entries : Entries) : Kind → Prop where
  | linear {next : Targets} : entries.getText? "type".toList = some (.str "linear".toList) →
      optional ["next"] .none Targets.schema entries = .ok next → HasKind entries (.linear next)
  | cycle {next : Targets} {subStages : List SubStage} : entries.getText? "type".toList =
      some (.str "cycle".toList) →
      optional ["next"] .none Targets.schema entries = .ok next →
      optional ["subStages", "sub_stages"] [] (listOf SubStage.schema) entries = .ok subStages →
      HasKind entries (.cycle next subStages)
  | terminal : entries.getText? "type".toList = some (.str "terminal".toList) →
      HasKind entries .terminal

/-- The entries describe a stage, as far as the types of its fields go. -/
structure Describes (entries : Entries) (stage : Stage) : Prop where
  fields : HasFields entries stage
  kind : HasKind entries stage.kind

/-- The entries are those of a terminal stage that names a stage to come next. -/
def LeadsOn (entries : Entries) : Prop :=
  entries.getText? "type".toList = some (.str "terminal".toList) ∧
    ∃ next, entries.getText? "next".toList = some next ∧ next.isGiven = true

variable {stage : Stage}

theorem ofKind_eq_ok_iff {name : String} {kind : Entries → Checked Kind} :
    ofKind name kind (.map entries) = .ok stage ↔ HasFields entries stage ∧
      kind entries = .ok stage.kind := by
  simp only [ofKind, record, Checked.seq_eq_ok, Checked.fmap_eq_ok]
  constructor
  · rintro ⟨_, _, ⟨_, _, ⟨_, _, ⟨_, hid, rfl⟩, hname, rfl⟩, hproceed, rfl⟩, hkind, rfl⟩
    exact ⟨⟨hid, hname, hproceed⟩, hkind⟩
  · rintro ⟨⟨hid, hname, hproceed⟩, hkind⟩
    exact ⟨_, _, ⟨_, _, ⟨_, _, ⟨_, hid, rfl⟩, hname, rfl⟩, hproceed, rfl⟩, hkind, rfl⟩

theorem linear_eq_ok_iff : linear (.map entries) = .ok stage ↔ HasFields entries stage ∧
    ∃ next, optional ["next"] .none Targets.schema entries = .ok next ∧
      .linear next = stage.kind := by
  simp only [linear, ofKind_eq_ok_iff, Checked.fmap_eq_ok]

theorem cycle_eq_ok_iff : cycle (.map entries) = .ok stage ↔ HasFields entries stage ∧
    ∃ next subStages, optional ["next"] .none Targets.schema entries = .ok next ∧
      optional ["subStages", "sub_stages"] [] (listOf SubStage.schema) entries = .ok subStages ∧
        .cycle next subStages = stage.kind := by
  rw [cycle, ofKind_eq_ok_iff, Checked.seq_eq_ok]
  simp only [Checked.fmap_eq_ok]
  refine and_congr_right fun _ => ?_
  constructor
  · rintro ⟨_, subStages, ⟨next, hnext, rfl⟩, hsub, hkind⟩
    exact ⟨next, subStages, hnext, hsub, hkind⟩
  · rintro ⟨next, subStages, hnext, hsub, hkind⟩
    exact ⟨_, subStages, ⟨next, hnext, rfl⟩, hsub, hkind⟩

theorem terminal_eq_ok_iff : terminal (.map entries) = .ok stage ↔ HasFields entries stage ∧
    .terminal = stage.kind ∧
    ¬∃ next, entries.getText? "next".toList = some next ∧ next.isGiven = true := by
  have hgiven : (∃ next, entries.getText? "next".toList = some next ∧ next.isGiven = true) ↔
      (entries.getText? "next".toList).any Value.isGiven = true := by
    cases entries.getText? "next".toList <;> simp
  rw [hgiven, terminal]
  split
  · simp_all [Checked.fail]
  · simp_all [ofKind_eq_ok_iff]

/-- A stage is read if its entries describe it, unless it is a terminal stage that leads on. -/
theorem schema_eq_ok_iff {value : Value} :
    Stage.schema value = .ok stage ↔ ∃ entries, value = .map entries ∧ Describes entries stage ∧
      ¬LeadsOn entries := by
  rw [Stage.schema, tagged_eq_ok_iff]
  constructor
  · rintro ⟨entries, word, schema, rfl, hword, hschema, hstage⟩
    refine ⟨entries, rfl, ?_⟩
    have hmem := Table.mem_of_lookup hschema
    simp only [List.mem_cons, List.not_mem_nil, or_false, Prod.mk.injEq] at hmem
    obtain ⟨rfl, rfl⟩ | ⟨rfl, rfl⟩ | ⟨rfl, rfl⟩ := hmem
    · obtain ⟨hfields, next, hnext, hkind⟩ := linear_eq_ok_iff.1 hstage
      exact ⟨⟨hfields, hkind ▸ .linear hword hnext⟩,
        fun hleads => absurd (hword.symm.trans hleads.1) (by simp)⟩
    · obtain ⟨hfields, next, subStages, hnext, hsub, hkind⟩ := cycle_eq_ok_iff.1 hstage
      exact ⟨⟨hfields, hkind ▸ .cycle hword hnext hsub⟩,
        fun hleads => absurd (hword.symm.trans hleads.1) (by simp)⟩
    · obtain ⟨hfields, hkind, hnext⟩ := terminal_eq_ok_iff.1 hstage
      exact ⟨⟨hfields, hkind ▸ .terminal hword⟩, fun hleads => hnext hleads.2⟩
  · rintro ⟨entries, rfl, ⟨hfields, hkind⟩, hleads⟩
    generalize hk : stage.kind = kind at hkind
    cases hkind with
    | linear htype hnext =>
      exact ⟨entries, _, linear, rfl, htype, rfl, linear_eq_ok_iff.2 ⟨hfields, _, hnext, hk.symm⟩⟩
    | cycle htype hnext hsub =>
      exact ⟨entries, _, cycle, rfl, htype, rfl,
        cycle_eq_ok_iff.2 ⟨hfields, _, _, hnext, hsub, hk.symm⟩⟩
    | terminal htype =>
      exact ⟨entries, _, terminal, rfl, htype, rfl,
        terminal_eq_ok_iff.2 ⟨hfields, hk.symm, fun hnext => hleads ⟨htype, hnext⟩⟩⟩

theorem forall₂_schema_iff {values : List Value} {stages : List Stage} :
    List.Forall₂ (fun value stage => Stage.schema value = .ok stage) values stages ↔
      ∃ items : List Entries, values = items.map .map ∧ List.Forall₂ Describes items stages ∧
        ∀ item ∈ items, ¬LeadsOn item := by
  constructor
  · intro h
    induction h with
    | nil => exact ⟨[], rfl, .nil, nofun⟩
    | cons hstage _ ih =>
      obtain ⟨entries, rfl, hdescribes, hleads⟩ := schema_eq_ok_iff.1 hstage
      obtain ⟨items, rfl, hitems, hnone⟩ := ih
      exact ⟨entries :: items, rfl, .cons hdescribes hitems, List.forall_mem_cons.2 ⟨hleads, hnone⟩⟩
  · rintro ⟨items, rfl, hitems, hnone⟩
    induction hitems with
    | nil => exact .nil
    | cons hdescribes _ ih =>
      obtain ⟨hleads, hnone⟩ := List.forall_mem_cons.1 hnone
      exact .cons (schema_eq_ok_iff.2 ⟨_, rfl, hdescribes, hleads⟩) (ih hnone)

end Stage

namespace Workflow

/-- The entries describe a workflow whose stages have these entries, as far as the types of
its fields go. -/
structure Describes (entries : Entries) (items : List Entries) (workflow : Workflow) : Prop where
  id : required ["id"] text entries = .ok workflow.id
  name : required ["name"] text entries = .ok workflow.name
  description : optional ["description"] [] text entries = .ok workflow.description
  about : optional ["metadata"] {} About.schema entries = .ok workflow.about
  listed : optional ["stages"] [] (listOf .ok) entries = .ok (items.map .map)
  stages : List.Forall₂ Stage.Describes items workflow.stages

theorem fields_eq_ok_iff {data : Value} : fields data = .ok workflow ↔
    ∃ entries items, data = .map entries ∧ Describes entries items workflow ∧ ∀ item ∈ items,
      ¬Stage.LeadsOn item := by
  simp only [fields, record_eq_ok_iff, Checked.seq_eq_ok, Checked.fmap_eq_ok]
  constructor
  · rintro ⟨entries, rfl, _, _, ⟨_, _, ⟨_, _, ⟨_, _, ⟨_, hid, rfl⟩, hname, rfl⟩, hdescription, rfl⟩,
      hstages, rfl⟩, habout, rfl⟩
    obtain ⟨values, hlisted, hvalues⟩ := optional_listOf_eq_ok_iff.1 hstages
    obtain ⟨items, rfl, hitems, hnone⟩ := Stage.forall₂_schema_iff.1 hvalues
    exact ⟨entries, items, rfl, ⟨hid, hname, hdescription, habout, hlisted, hitems⟩, hnone⟩
  · rintro ⟨entries, items, rfl, h, hnone⟩
    have hstages := optional_listOf_eq_ok_iff.2
      ⟨_, h.listed, Stage.forall₂_schema_iff.2 ⟨items, rfl, h.stages, hnone⟩⟩
    exact ⟨entries, rfl, _, _,
      ⟨_, _, ⟨_, _, ⟨_, _, ⟨_, h.id, rfl⟩, h.name, rfl⟩, h.description, rfl⟩, hstages, rfl⟩,
      h.about, rfl⟩

theorem Describes.items_eq {others : List Entries} {read : Workflow}
    (h : Describes entries items workflow)
    (hread : Describes entries others read) : others = items := by
  have hlisted : others.map Value.map = items.map .map :=
    Checked.ok.inj (hread.listed.symm.trans h.listed)
  exact List.map_injective_iff.2 (fun _ _ heq => by injection heq) hlisted

theorem Describes.fields_eq_ok_iff {read : Workflow} (h : Describes entries items workflow) :
    fields (.map entries) = .ok read ↔ (∀ item ∈ items, ¬Stage.LeadsOn item) ∧ read = workflow := by
  have hworkflow : (∀ item ∈ items, ¬Stage.LeadsOn item) → fields (.map entries) = .ok workflow :=
    fun hnone => Workflow.fields_eq_ok_iff.2 ⟨entries, items, rfl, h, hnone⟩
  constructor
  · intro hread
    obtain ⟨_, others, hmap, hothers, hnone⟩ := Workflow.fields_eq_ok_iff.1 hread
    injection hmap with hentries
    subst hentries
    rw [h.items_eq hothers] at hnone
    exact ⟨hnone, Checked.ok.inj (hread.symm.trans (hworkflow hnone))⟩
  · rintro ⟨hnone, rfl⟩
    exact hworkflow hnone

theorem load_eq_ok_iff {data : Value} : load data = .ok workflow ↔ fields data = .ok workflow ∧
    IsWellFormed workflow.stages := by
  have hload : load data = .ok workflow ↔ schema data = .ok workflow := by
    unfold load
    cases schema data <;> simp
  have hchecked : ∀ read, checked read = .ok workflow ↔
      read = workflow ∧ flaw? read.stages = none := by
    intro read
    unfold checked
    cases flaw? read.stages <;> simp
  rw [hload, schema, check_eq_ok_iff, ← flaw?_eq_none_iff]
  constructor
  · rintro ⟨read, hread, hflaw⟩
    obtain ⟨rfl, hnone⟩ := (hchecked read).1 hflaw
    exact ⟨hread, hnone⟩
  · rintro ⟨hread, hnone⟩
    exact ⟨workflow, hread, (hchecked workflow).2 ⟨rfl, hnone⟩⟩

end Workflow

/-! ## Workflows as data -/

theorem SubStage.schema_toValue (sub : SubStage) : SubStage.schema sub.toValue = .ok sub := by
  obtain ⟨id, name, _ | next⟩ := sub <;> rfl

theorem Stage.Targets.schema_toValue (next : Targets) : Targets.schema next.toValue = .ok next := by
  cases next with
  | none => rfl
  | one id => rfl
  | several ids =>
    simp [Targets.schema, Targets.toValue, nullable, textOrTexts, text, listOf_text, Checked.fail,
      Checked.map]

theorem Stage.schema_toValue (stage : Stage) : Stage.schema stage.toValue = .ok stage := by
  obtain ⟨id, name, canProceedTo, kind⟩ := stage
  have hproceed := listOf_text canProceedTo
  cases kind with
  | linear next =>
    have hnext := next.schema_toValue
    exact schema_eq_ok_iff.2 ⟨_, rfl,
      ⟨⟨rfl, rfl, Checked.under_eq_ok.2 hproceed⟩, .linear rfl (Checked.under_eq_ok.2 hnext)⟩,
      nofun⟩
  | cycle next subStages =>
    have hnext := next.schema_toValue
    have hsub := listOf_map_eq_ok SubStage.schema_toValue subStages
    exact schema_eq_ok_iff.2 ⟨_, rfl,
      ⟨⟨rfl, rfl, Checked.under_eq_ok.2 hproceed⟩,
      .cycle rfl (Checked.under_eq_ok.2 hnext) (Checked.under_eq_ok.2 hsub)⟩, nofun⟩
  | terminal =>
    exact schema_eq_ok_iff.2 ⟨_, rfl, ⟨⟨rfl, rfl, Checked.under_eq_ok.2 hproceed⟩, .terminal rfl⟩,
      nofun⟩

namespace Workflow

theorem About.schema_toValue (about : About) : About.schema about.toValue = .ok about := by
  obtain ⟨version, _ | created, _ | lastModified⟩ := about <;> rfl

theorem fields_toValue (workflow : Workflow) : fields workflow.toValue = .ok workflow := by
  have hstages := listOf_map_eq_ok Stage.schema_toValue workflow.stages
  have habout := workflow.about.schema_toValue
  rw [fields, record_eq_ok_iff]
  refine ⟨_, rfl, ?_⟩
  simp only [Checked.seq_eq_ok, Checked.fmap_eq_ok]
  exact ⟨_, _,
    ⟨_, _, ⟨_, _, ⟨_, _, ⟨_, rfl, rfl⟩, rfl, rfl⟩, rfl, rfl⟩, Checked.under_eq_ok.2 hstages, rfl⟩,
    Checked.under_eq_ok.2 habout, rfl⟩

/-- A workflow that is written as data loads again exactly if its stages are well-formed. -/
theorem load_toValue_iff : load workflow.toValue = .ok workflow ↔ IsWellFormed workflow.stages := by
  rw [load_eq_ok_iff, and_iff_right (fields_toValue workflow)]

/-! ## Loading -/

/-- A definition with fields of the right types loads exactly if no terminal stage leads on and its
stages are well-formed. -/
theorem loads_iff_isWellFormed (h : Describes entries items workflow) :
    ((∃ loaded, load (.map entries) = .ok loaded) ↔
      (∀ item ∈ items, ¬Stage.LeadsOn item) ∧ IsWellFormed workflow.stages) ∧
    ∀ loaded, load (.map entries) = .ok loaded → loaded = workflow := by
  have hload : ∀ loaded, load (.map entries) = .ok loaded ↔
      ((∀ item ∈ items, ¬Stage.LeadsOn item) ∧ loaded = workflow) ∧ IsWellFormed loaded.stages := by
    intro loaded
    rw [load_eq_ok_iff, h.fields_eq_ok_iff]
  constructor
  · constructor
    · rintro ⟨loaded, hloaded⟩
      obtain ⟨⟨hnone, rfl⟩, hwell⟩ := (hload loaded).1 hloaded
      exact ⟨hnone, hwell⟩
    · rintro ⟨hnone, hwell⟩
      exact ⟨workflow, (hload workflow).2 ⟨⟨hnone, rfl⟩, hwell⟩⟩
  · intro loaded hloaded
    exact ((hload loaded).1 hloaded).1.2

/-- A text is drafted, then read and mended in turn until it is done. -/
def proofreading : Workflow where
  id := "text".toList
  name := "Text".toList
  description := []
  stages := [
    ⟨"draft".toList, "Draft".toList, [], .linear (.one "review".toList)⟩,
    ⟨"review".toList, "Review".toList, ["done".toList], .cycle .none
      [⟨"read".toList, "Read".toList, some "mend".toList⟩, ⟨"mend".toList, "Mend".toList, none⟩]⟩,
    ⟨"done".toList, "Done".toList, [], .terminal⟩]
  about := {}

theorem isWellFormed_proofreading : IsWellFormed proofreading.stages := by
  rw [← flaw?_eq_none_iff]
  decide +kernel

theorem loads_proofreading : ∃ entries items, proofreading.toValue = .map entries ∧
    Describes entries items proofreading ∧
    ∃ loaded, load (.map entries) = .ok loaded := by
  obtain ⟨entries, items, hdata, hdescribes, hnone⟩ :=
    fields_eq_ok_iff.1 (fields_toValue proofreading)
  exact ⟨entries, items, hdata, hdescribes,
    (loads_iff_isWellFormed hdescribes).1.2 ⟨hnone, isWellFormed_proofreading⟩⟩

end Workflow
end Checklist
