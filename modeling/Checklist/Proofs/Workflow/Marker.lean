import Checklist.Proofs.Text
import Checklist.Proofs.Workflow.Traversal
import Checklist.Workflow.Marker

/-! # Markers that are read back

A task carries its place as a marker, and a line is read from its first marker. Main statements: the
markers of a place are read as this place exactly if the place is legible (`resumes_iff_isLegible`),
and so a workflow with plain ids goes on where it was (`resumes_of_load`). An id with a dot is read
as a stage with a sub-stage (`no_resumption_at_dotted_id`). -/

namespace Checklist
set_option autoImplicit false
open Text

def Position.text (place : Position) : Text :=
  place.stage ++ place.subStage.elim [] ('.' :: ·)

/-- The ids of a place keep their bounds in a marker: no bracket closes it early, no dot parts the
stage, and nothing at the ends is trimmed away. -/
structure Position.IsLegible (place : Position) : Prop where
  trimmed : IsTrimmed place.text
  closed : ']' ∉ place.text
  dotless : '.' ∉ place.stage
  named : place.subStage ≠ some []

/-- The ids of a stage can be told from the signs around them in a marker. -/
structure Stage.HasPlainIds (stage : Stage) : Prop where
  trimmed : IsTrimmed stage.id
  closed : ']' ∉ stage.id
  dotless : '.' ∉ stage.id
  subStages : ∀ sub ∈ stage.subStages.map (·.id), sub ≠ [] ∧ ']' ∉ sub ∧ ∀ c,
    sub.getLast? = some c → isBlank c = false

namespace Workflow

variable {s before rest body : Text} {place : Position}

/-! ## Markers in a line -/

/-- The text begins with a marker. -/
def StartsWithMarker (s : Text) : Prop :=
  ∃ body rest, body ≠ [] ∧ ']' ∉ body ∧ s = markerStart ++ body ++ ']' :: rest

/-- No marker begins before the rest of a line. -/
def IsFirst (before rest : Text) : Prop :=
  ∀ late, late <:+ before → late ≠ [] → ¬StartsWithMarker (late ++ rest)

/-- Every line whose first marker is that of the place is read as the place. -/
def Resumes (place : Position) : Prop :=
  ∀ before after, IsFirst before (marker place ++ after) →
    lineInfo? (before ++ (marker place ++ after)) = some ⟨none, place⟩

theorem stageText?_append {s : Text} (hs : s ≠ []) (h : ']' ∉ s) (rest : Text) :
    stageText? (markerStart ++ s ++ ']' :: rest) = some s := by
  have hpre : markerStart.isPrefixOf (markerStart ++ s ++ ']' :: rest) = true := by
    rw [List.append_assoc]; exact List.isPrefixOf_iff_prefix.2 (List.prefix_append _ _)
  have hdrop : (markerStart ++ s ++ ']' :: rest).drop markerStart.length = s ++ ']' :: rest := by
    rw [List.append_assoc, List.drop_left]
  rw [stageText?, if_pos hpre, hdrop, cut_append h]
  simp [hs]

theorem stageText?_eq_some_iff : stageText? s = some body ↔ body ≠ [] ∧ ']' ∉ body ∧ ∃ rest,
    s = markerStart ++ body ++ ']' :: rest := by
  constructor
  · intro h
    unfold stageText? at h
    split at h
    · next hstart =>
      obtain ⟨t, rfl⟩ := List.isPrefixOf_iff_prefix.1 hstart
      rw [List.drop_left] at h
      split at h
      · next stage rest hcut =>
        obtain ⟨hnot, rfl⟩ := cut_eq_iff.1 hcut
        split at h
        · cases h
        · next hne =>
          cases h
          exact ⟨by simpa using hne, hnot, rest, by simp⟩
      · cases h
    · cases h
  · rintro ⟨hne, hnot, rest, rfl⟩
    exact stageText?_append hne hnot rest

theorem stageText?_eq_none_iff : stageText? s = none ↔ ¬StartsWithMarker s := by
  rw [← not_iff_not, not_not, ← Ne, Option.ne_none_iff_exists']
  simp only [stageText?_eq_some_iff, StartsWithMarker]
  exact exists_congr fun body => by simp

theorem firstIn_append {α : Type} {read : Text → Option α}
    (h : ∀ late, late <:+ before → late ≠ [] → read (late ++ rest) = none) :
    firstIn read (before ++ rest) = firstIn read rest := by
  induction before with
  | nil => rfl
  | cons c before ih =>
    rw [List.cons_append, firstIn, ← List.cons_append, h _ List.suffix_rfl (List.cons_ne_nil _ _),
      Option.none_or]
    exact ih fun late hlate => h late (hlate.trans (List.suffix_cons _ _))

theorem firstIn_eq_of_isFirst (h : IsFirst before rest) :
    firstIn stageText? (before ++ rest) = firstIn stageText? rest :=
  firstIn_append fun late hlate hne => stageText?_eq_none_iff.2 (h late hlate hne)

theorem exists_suffix_of_firstIn {α : Type} {read : Text → Option α} {a : α}
    (h : firstIn read s = some a) : ∃ late, late <:+ s ∧ read late = some a := by
  induction s with
  | nil => cases h
  | cons c s ih =>
    rw [firstIn, Option.or_eq_some_iff] at h
    obtain h | ⟨-, h⟩ := h
    · exact ⟨_, List.suffix_rfl, h⟩
    · obtain ⟨late, hlate, hread⟩ := ih h
      exact ⟨late, hlate.trans (List.suffix_cons _ _), hread⟩

/-! ## What a marker holds -/

theorem marker_eq (h : place.subStage ≠ some []) :
    marker place = markerStart ++ place.text ++ [']'] := by
  obtain ⟨stage, _ | _ | ⟨c, sub⟩⟩ := place
  · simp [marker, Position.text]
  · exact absurd rfl h
  · simp [marker, Position.text, Option.filter]

theorem firstIn_marker (hnamed : place.subStage ≠ some []) (hne : place.text ≠ [])
    (hclosed : ']' ∉ place.text) (after : Text) :
    firstIn stageText? (marker place ++ after) = some place.text := by
  have hread := stageText?_append hne hclosed after
  have hmarker : marker place ++ after = markerStart ++ place.text ++
      ']' :: after := by simp [marker_eq hnamed]
  rw [hmarker]
  rw [show markerStart ++ place.text ++ ']' :: after =
    '[' :: ("stage::".toList ++ place.text ++ ']' :: after) from rfl] at hread ⊢
  rw [firstIn, hread, Option.some_or]

/-- A text is read as a place exactly if trimming it gives the ids of the place, maybe with a dot
that nothing follows. -/
theorem placeOf_eq_iff : placeOf s = place ↔
    '.' ∉ place.stage ∧ place.subStage ≠ some [] ∧
      (trim s = place.text ∨ place.subStage = none ∧ trim s = place.stage ++ ['.']) := by
  have hplaceOf : ∀ {stage sub}, cut '.' (trim s) = (stage, sub) →
      placeOf s = ⟨stage, sub.filter (!·.isEmpty)⟩ := by
    intro stage sub hcut
    rw [placeOf, hcut]
  constructor
  · rcases hcut : cut '.' (trim s) with ⟨stage, sub⟩
    obtain ⟨hnot, htrim⟩ := cut_eq_iff.1 hcut
    rw [hplaceOf hcut]
    rintro rfl
    refine ⟨hnot, ?_⟩
    rcases sub with _ | _ | ⟨c, sub⟩
    · exact ⟨nofun, .inl htrim⟩
    · exact ⟨nofun, .inr ⟨rfl, htrim⟩⟩
    · exact ⟨by simp, .inl htrim⟩
  · obtain ⟨stage, sub⟩ := place
    rintro ⟨hnot, hnamed, htrim | ⟨hsub, htrim⟩⟩
    · rw [hplaceOf (cut_eq_iff.2 ⟨hnot, htrim⟩)]
      rcases sub with _ | _ | ⟨c, sub⟩
      · rfl
      · exact absurd rfl hnamed
      · rfl
    · obtain rfl : sub = none := hsub
      exact @hplaceOf stage (some []) (cut_eq_iff.2 ⟨hnot, htrim⟩)

theorem lineInfo?_eq_some_iff : lineInfo? s = some ⟨none, place⟩ ↔
    ∃ body, firstIn stageText? s = some body ∧ placeOf body = place := by
  unfold lineInfo?
  cases firstIn stageText? s with
  | some body => simp
  | none => simp

theorem length_trim_le (s : Text) : (trim s).length ≤ s.length :=
  (isPrefix_trim s).length_le.trans (trimStart_suffix s).length_le

/-- The markers of a place are read as this place exactly if the place is legible. -/
theorem resumes_iff_isLegible : Resumes place ↔ place.IsLegible := by
  constructor
  · intro h
    -- a line with nothing but the marker already tells
    obtain ⟨body, hbody, hplace⟩ :=
      lineInfo?_eq_some_iff.1 (h [] [] fun late hlate hne => absurd (List.suffix_nil.1 hlate) hne)
    obtain ⟨hdotless, hnamed, htrim⟩ := placeOf_eq_iff.1 hplace
    have hclosed : ']' ∉ place.text := by
      obtain ⟨late, -, hlate⟩ := exists_suffix_of_firstIn hbody
      have hnot : ']' ∉ trim body :=
        fun hmem => (stageText?_eq_some_iff.1 hlate).2.1 (mem_of_mem_trim hmem)
      obtain heq | ⟨hsub, heq⟩ := htrim
      · exact heq ▸ hnot
      · rw [heq] at hnot
        simpa [Position.text, hsub] using hnot
    have hne : place.text ≠ [] := by
      intro hempty
      obtain ⟨stage, _ | sub⟩ := place
      · obtain rfl : stage = [] := by simpa [Position.text] using hempty
        cases hbody
      · simp [Position.text] at hempty
    rw [List.nil_append, firstIn_marker hnamed hne hclosed, Option.some.injEq] at hbody
    subst hbody
    obtain heq | ⟨hsub, heq⟩ := htrim
    · have htrimmed : IsTrimmed (trim place.text) := isTrimmed_trim (by rwa [heq])
      exact ⟨heq ▸ htrimmed, hclosed, hdotless, hnamed⟩
    · have hlength := length_trim_le place.text
      rw [heq, List.length_append, Position.text, hsub, Option.elim_none, List.append_nil] at hlength
      exact absurd hlength (Nat.not_succ_le_self _)
  · intro h before after hfirst
    rw [lineInfo?_eq_some_iff, firstIn_eq_of_isFirst hfirst,
      firstIn_marker h.named h.trimmed.ne_nil h.closed]
    exact ⟨place.text, rfl, placeOf_eq_iff.2 ⟨h.dotless, h.named, .inl h.trimmed.trim_eq⟩⟩

/-! ## Markers of a workflow -/

theorem isLegible_of_contains {workflow : Workflow}
    (h : ∀ stage ∈ workflow.stages, stage.HasPlainIds) (hplace : workflow.Contains place) :
    place.IsLegible := by
  obtain ⟨stage, hstage, hid, hsub⟩ := hplace
  obtain ⟨htrimmed, hclosed, hdotless, hsubs⟩ := h stage hstage
  rw [hid] at htrimmed hclosed hdotless
  obtain ⟨id, _ | sub⟩ := place
  · exact ⟨by simpa [Position.text] using htrimmed, by simpa [Position.text] using hclosed,
      hdotless, nofun⟩
  · obtain ⟨hne, hopen, hlast⟩ := hsubs sub (hsub sub rfl)
    have htext : Position.text ⟨id, some sub⟩ = id ++ ['.'] ++ sub := by simp [Position.text]
    refine ⟨⟨by simp [htext], fun c hc => htrimmed.head c ?_, fun c hc => hlast c ?_⟩,
      by simp [htext, hclosed, hopen], hdotless, by simpa using hne⟩
    · rwa [htext, List.append_assoc, List.head?_append_of_ne_nil _ htrimmed.ne_nil] at hc
    · rwa [htext, List.getLast?_append_of_ne_nil _ hne] at hc

/-- In a workflow that loads, a transition is resumed from its markers exactly if its place is
legible. If all ids are plain, every transition is. -/
theorem resumes_of_load {workflow : Workflow} {data : Value} (h : load data = .ok workflow) :
    (∀ place next, workflow.next? place = some next → (Resumes next ↔ next.IsLegible)) ∧
      ((∀ stage ∈ workflow.stages, stage.HasPlainIds) → ∀ place next,
        workflow.next? place = some next → Resumes next) := by
  have hwell : IsWellFormed workflow.stages := flaw?_eq_none_iff.1 (flaw?_of_load h)
  exact ⟨fun _ _ _ => resumes_iff_isLegible,
    fun hplain _ _ hnext =>
      resumes_iff_isLegible.2 (isLegible_of_contains hplain (contains_of_next? hwell hnext))⟩

theorem resumes_proofreading : load proofreading.toValue = .ok proofreading ∧
    proofreading.next? ⟨"draft".toList, none⟩ = some ⟨"review".toList, some "read".toList⟩ ∧
      Resumes ⟨"review".toList, some "read".toList⟩ := by
  have hload : load proofreading.toValue = .ok proofreading :=
    load_toValue_iff.2 isWellFormed_proofreading
  have hnext : proofreading.next? ⟨"draft".toList, none⟩ =
      some ⟨"review".toList, some "read".toList⟩ := by decide +kernel
  exact ⟨hload, hnext, ((resumes_of_load hload).1 _ _ hnext).2
    ⟨isTrimmed_of_forall (by decide) (by decide), by decide, by decide, by decide⟩⟩

def drafting : Workflow where
  id := "text".toList
  name := "Text".toList
  description := []
  stages := [
    ⟨"draft".toList, "Draft".toList, [], .linear (.one "v1.0".toList)⟩,
    ⟨"v1.0".toList, "Version".toList, [], .terminal⟩]
  about := {}

theorem isWellFormed_drafting : IsWellFormed drafting.stages := by
  rw [← flaw?_eq_none_iff]
  decide +kernel

/-- A stage whose id holds a dot is read as another stage with a sub-stage. -/
theorem no_resumption_at_dotted_id : ∃ data workflow place next, load data = .ok workflow ∧
    workflow.next? place = some next ∧
    IsFirst "- [ ] a ".toList (marker next) ∧
      lineInfo? ("- [ ] a ".toList ++ marker next) ≠ some ⟨none, next⟩ ∧ ¬Resumes next := by
  refine ⟨drafting.toValue, drafting, ⟨"draft".toList, none⟩, ⟨"v1.0".toList, none⟩,
    load_toValue_iff.2 isWellFormed_drafting,
    by decide +kernel, ?_, by decide +kernel, ?_⟩
  · intro late hlate
    have hall : ∀ late ∈ "- [ ] a ".toList.tails, late ≠ [] →
        stageText? (late ++ marker ⟨"v1.0".toList, none⟩) = none := by decide +kernel
    exact fun hne => stageText?_eq_none_iff.1 (hall late ((List.mem_tails _ _).2 hlate) hne)
  · exact fun h => (resumes_iff_isLegible.1 h).dotless (by decide)

end Workflow
end Checklist
