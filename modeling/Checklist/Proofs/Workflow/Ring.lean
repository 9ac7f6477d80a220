import Checklist.Workflow.Flaw
import Mathlib.Data.List.Rotate

/-! # Sub-stages that are one ring

The ids of the sub-stages go over into each other, and that map is one round through all of them. A
walk from the first sub-stage finds out: it meets each id once, comes back, and leaves nothing over.
Main statements: what a walk leaves over (`leftOver?_eq_some_iff`), and sub-stages have no flaw
exactly if they are one ring (`ringFlaw?_eq_none_iff`). -/

namespace Checklist.Workflow
set_option autoImplicit false

/-! ## Rings -/

/-- The id that comes after an id: where the first sub-stage of that id leads, and the very first id
where it names none. -/
def successor? (subStages : List SubStage) (id : Text) : Option Text :=
  (SubStage.find? subStages id).bind fun sub => sub.next.or (subStages.head?.map (·.id))

/-- The list is one round of the ids: it has each of them once, each is followed by its successor,
and the last one by the first. -/
structure IsRound (subStages : List SubStage) (round : List Text) : Prop where
  nodup : round.Nodup
  mem_iff : ∀ id, id ∈ round ↔ id ∈ subStages.map (·.id)
  successors : round.map (successor? subStages) = (round.rotate 1).map some

/-- No sub-stage leads to one that is not there, and all of them lie on one round. -/
structure IsRing (subStages : List SubStage) : Prop where
  known : ∀ sub ∈ subStages, ∀ next, sub.next = some next → next ∈ subStages.map (·.id)
  round : ∃ round, IsRound subStages round

variable {subStages : List SubStage} {start id : Text} {met : List Text}

theorem find?_eq_none_iff : SubStage.find? subStages id = none ↔ id ∉ subStages.map (·.id) := by
  simp [SubStage.find?]

theorem mem_of_successor? {next : Text} (h : successor? subStages id = some next) :
    id ∈ subStages.map (·.id) := by
  obtain ⟨sub, hsub, -⟩ := Option.bind_eq_some_iff.1 h
  by_contra hid
  rw [find?_eq_none_iff.2 hid] at hsub
  cases hsub

theorem successor?_of_find? {sub : SubStage} (hfirst : subStages.head?.map (·.id) = some start)
    (hsub : SubStage.find? subStages id = some sub) :
    successor? subStages id = some (sub.next.getD start) := by
  simp only [successor?, hsub, Option.bind_some, hfirst]
  cases sub.next <;> rfl

theorem IsRound.exists_cons {round : List Text} (h : IsRound subStages round) (hid : id ∈ round) :
    ∃ path, IsRound subStages (id :: path) := by
  obtain ⟨before, after, rfl⟩ := List.append_of_mem hid
  have hrotate : (before ++ id :: after).rotate before.length = id :: (after ++ before) :=
    List.rotate_append_length_eq _ _
  refine ⟨after ++ before, ?_⟩
  rw [← hrotate]
  constructor
  · exact List.nodup_rotate.2 h.nodup
  · intro other
    rw [List.mem_rotate, h.mem_iff]
  · rw [List.map_rotate, h.successors, ← List.map_rotate, List.rotate_rotate,
      List.rotate_rotate, Nat.add_comm]

/-! ## Walks -/

/-- From an id the walk goes on through ids that it has not met, one after the other, and from the
last one to the start. -/
inductive Walk (subStages : List SubStage) (start : Text) :
    List Text → Text → List Text → Prop where
  | last {met : List Text} {id : Text} : successor? subStages id = some start →
      Walk subStages start met id []
  | step {met path : List Text} {id next : Text} : successor? subStages id = some next →
      next ∉ met →
      Walk subStages start (next :: met) next path → Walk subStages start met id (next :: path)

theorem walk_iff {path : List Text} : Walk subStages start met id path ↔
    path.Nodup ∧ (∀ next ∈ path, next ∉ met) ∧
      (id :: path).map (successor? subStages) = (path ++ [start]).map some := by
  induction path generalizing met id with
  | nil =>
    constructor
    · rintro ⟨hlast⟩
      simp [hlast]
    · rintro ⟨-, -, hlast⟩
      exact .last (by simpa using hlast)
  | cons next path ih =>
    constructor
    · rintro (_ | ⟨hnext, hmet, hwalk⟩)
      obtain ⟨hnodup, hfresh, hpath⟩ := ih.1 hwalk
      have hnew : next ∉ path := fun hmem => hfresh next hmem List.mem_cons_self
      refine ⟨List.nodup_cons.2 ⟨hnew, hnodup⟩, ?_, by rw [List.map_cons, hnext, hpath]; rfl⟩
      intro other hother
      rcases List.mem_cons.1 hother with rfl | hother
      · exact hmet
      · exact fun hmem => hfresh other hother (List.mem_cons_of_mem _ hmem)
    · rintro ⟨hnodup, hfresh, hpath⟩
      obtain ⟨hnew, hnodup⟩ := List.nodup_cons.1 hnodup
      obtain ⟨hnext, hpath⟩ : successor? subStages id = some next ∧ _ := List.cons_eq_cons.1 hpath
      refine .step hnext (hfresh next List.mem_cons_self)
        (ih.2 ⟨hnodup, fun other hother hmem => ?_, hpath⟩)
      rcases List.mem_cons.1 hmem with rfl | hmem
      · exact hnew hother
      · exact hfresh other (List.mem_cons_of_mem _ hother) hmem

def unmet (met : List Text) (subStages : List SubStage) : List SubStage :=
  subStages.filter fun sub => sub.id ∉ met

theorem unmet_congr {met' : List Text} (h : ∀ id, id ∈ met ↔ id ∈ met') :
    unmet met subStages = unmet met' subStages := by
  simp only [unmet, h]

theorem without_unmet : without id (unmet met subStages) = unmet (id :: met) subStages := by
  simp only [without, unmet, List.filter_filter]
  refine List.filter_congr fun sub _ => ?_
  by_cases hid : sub.id = id <;> simp [hid]

theorem find?_unmet (h : id ∉ met) :
    SubStage.find? (unmet met subStages) id = SubStage.find? subStages id := by
  simp only [SubStage.find?, unmet, List.find?_filter]
  congr 1
  funext sub
  by_cases hid : sub.id = id <;> simp [hid, h]

theorem find?_unmet_of_mem (h : id ∈ met) : SubStage.find? (unmet met subStages) id = none := by
  rw [find?_eq_none_iff]
  simp only [unmet, List.mem_map, List.mem_filter, decide_eq_true_eq]
  rintro ⟨sub, ⟨-, hsub⟩, rfl⟩
  exact hsub h

theorem walk_iff_nil {path : List Text} (hstart : start ∈ met)
    (hback : successor? subStages id = some start) :
    Walk subStages start met id path ↔ path = [] := by
  constructor
  · rintro (_ | ⟨hnext, hmet, -⟩)
    · rfl
    · rw [hback, Option.some.injEq] at hnext
      exact absurd (hnext ▸ hstart) hmet
  · rintro rfl
    exact .last hback

theorem walk_iff_cons {path : List Text} {next : Text} (hnext : successor? subStages id = some next)
    (hne : next ≠ start) :
    Walk subStages start met id path ↔
      next ∉ met ∧ ∃ onward, Walk subStages start (next :: met) next onward ∧
        path = next :: onward := by
  constructor
  · rintro (hback | ⟨hstep, hmet, hwalk⟩)
    · rw [hnext, Option.some.injEq] at hback
      exact absurd hback hne
    · rw [hnext, Option.some.injEq] at hstep
      subst hstep
      exact ⟨hmet, _, hwalk, rfl⟩
  · rintro ⟨hmet, onward, hwalk, rfl⟩
    exact .step hnext hmet hwalk

theorem Walk.subset {path : List Text} (h : Walk subStages start met id path) :
    ∀ other ∈ id :: path, other ∈ subStages.map (·.id) := by
  induction h with
  | last hlast => simpa using mem_of_successor? hlast
  | step hnext _ _ ih => exact List.forall_mem_cons.2 ⟨mem_of_successor? hnext, ih⟩

/-- What is left over is what a walk that comes back to the start has not met. -/
theorem leftOver?_eq_some_iff {current : SubStage} {left : List SubStage}
    (hfirst : subStages.head?.map (·.id) = some start)
    (hstart : start ∈ met) (hcurrent : SubStage.find? subStages id = some current) :
    leftOver? start current (unmet met subStages) = some left ↔
      ∃ path, Walk subStages start met id path ∧ left = unmet (path ++ met) subStages := by
  have hsuccessor := successor?_of_find? hfirst hcurrent
  -- The induction is on the recursion of the check, whose pool holds what has not been met at every
  -- step.
  generalize hunmet : unmet met subStages = rest
  fun_induction leftOver? start current rest generalizing id met with
  | case1 current rest hnext =>
    rw [hnext, Option.getD_none] at hsuccessor
    simp [walk_iff_nil hstart hsuccessor, hunmet, eq_comm]
  | case2 current rest next hnext hback =>
    rw [hnext, Option.getD_some, eq_of_beq hback] at hsuccessor
    simp [walk_iff_nil hstart hsuccessor, hunmet, eq_comm]
  | case3 current rest next hnext hback hfind =>
    rw [hnext, Option.getD_some] at hsuccessor
    refine iff_of_false (by simp) ?_
    rintro ⟨path, hwalk, -⟩
    obtain ⟨hmet, onward, hwalk, -⟩ := (walk_iff_cons hsuccessor (by simpa using hback)).1 hwalk
    rw [← hunmet, find?_unmet hmet, find?_eq_none_iff] at hfind
    exact hfind (hwalk.subset next List.mem_cons_self)
  | case4 current rest next hnext hback sub hfind ih =>
    rw [hnext, Option.getD_some] at hsuccessor
    have hmet : next ∉ met := fun hmem => by simp [← hunmet, find?_unmet_of_mem hmem] at hfind
    rw [← hunmet, find?_unmet hmet] at hfind
    have honward := ih (List.mem_cons_of_mem next hstart) hfind
      (successor?_of_find? hfirst hfind) (by rw [← hunmet, without_unmet])
    have hpath : ∀ onward, unmet (next :: (onward ++ met)) subStages =
        unmet (onward ++ next :: met) subStages :=
      fun onward => unmet_congr fun other => by simp only [List.mem_append, List.mem_cons]; tauto
    simp [honward, walk_iff_cons hsuccessor (by simpa using hback), hmet, hpath]

/-! ## The check -/

theorem isRound_cons_iff {path : List Text} :
    IsRound subStages (start :: path) ↔ Walk subStages start [start] start path ∧
      unmet (path ++ [start]) subStages = [] := by
  have hrotate : (start :: path).rotate 1 = path ++ [start] := by simp
  have hunmet : unmet (path ++ [start]) subStages = [] ↔ ∀ id ∈ subStages.map (·.id),
      id ∈ start :: path := by
    simp only [unmet, List.filter_eq_nil_iff, List.forall_mem_map, decide_eq_true_eq, not_not]
    exact forall₂_congr fun sub _ => by simp [or_comm]
  constructor
  · rintro ⟨hnodup, hmem, hround⟩
    obtain ⟨hstart, hpath⟩ := List.nodup_cons.1 hnodup
    refine ⟨walk_iff.2 ⟨hpath, fun next hnext => ?_, hrotate ▸ hround⟩, hunmet.2 fun id => (hmem id).2⟩
    rw [List.mem_singleton]
    rintro rfl
    exact hstart hnext
  · rintro ⟨hwalk, hall⟩
    obtain ⟨hpath, hfresh, hround⟩ := walk_iff.1 hwalk
    refine ⟨List.nodup_cons.2 ⟨fun hmem => hfresh start hmem List.mem_cons_self, hpath⟩,
      fun id => ⟨hwalk.subset id, hunmet.1 hall id⟩, ?_⟩
    rw [hround, hrotate]

theorem strayReference?_eq_none_iff :
    strayReference? subStages = none ↔ ∀ sub ∈ subStages, ∀ next, sub.next = some next →
      next ∈ subStages.map (·.id) := by
  simp only [strayReference?, List.findSome?_eq_none_iff, Option.bind_eq_none_iff]
  refine forall₂_congr fun sub _ => forall₂_congr fun next _ => ?_
  rw [← not_iff_not, ← find?_eq_none_iff]
  cases SubStage.find? subStages next <;> simp

/-- The check of sub-stages: no reference is stray, and the walk from the first one leaves
nothing over. -/
theorem ringFlaw?_cons {stage : Stage} {first : SubStage} {rest : List SubStage}
    (hsub : stage.subStages = first :: rest) :
    ringFlaw? stage = none ↔
      strayReference? (first :: rest) = none ∧
        leftOver? first.id first (without first.id rest) = some [] := by
  simp only [ringFlaw?, hsub]
  cases strayReference? (first :: rest) with
  | some stray => simp
  | none =>
    rcases leftOver? first.id first (without first.id rest) with _ | (_ | ⟨sub, left⟩) <;> simp

theorem leftOver?_eq_nil_iff {first : SubStage} {rest : List SubStage} :
    leftOver? first.id first (without first.id rest) = some [] ↔
      ∃ round, IsRound (first :: rest) round := by
  have hwithout : without first.id rest = unmet [first.id] (first :: rest) := by
    simpa [unmet] using @without_unmet rest first.id []
  have hstart : SubStage.find? (first :: rest) first.id = some first := by simp [SubStage.find?]
  rw [hwithout, leftOver?_eq_some_iff rfl List.mem_cons_self hstart]
  constructor
  · rintro ⟨path, hwalk, hunmet⟩
    exact ⟨_, isRound_cons_iff.2 ⟨hwalk, hunmet.symm⟩⟩
  · rintro ⟨round, hround⟩
    obtain ⟨path, hpath⟩ := hround.exists_cons ((hround.mem_iff first.id).2 List.mem_cons_self)
    obtain ⟨hwalk, hunmet⟩ := isRound_cons_iff.1 hpath
    exact ⟨path, hwalk, hunmet.symm⟩

/-- Sub-stages pass the check exactly if they are one ring; where there are none, that is
the empty one. -/
theorem ringFlaw?_eq_none_iff {stage : Stage} : ringFlaw? stage = none ↔
    IsRing stage.subStages := by
  cases hsub : stage.subStages with
  | nil => exact iff_of_true (by simp [ringFlaw?, hsub]) ⟨by simp, [], by simp, by simp, by simp⟩
  | cons first rest =>
    rw [ringFlaw?_cons hsub, strayReference?_eq_none_iff, leftOver?_eq_nil_iff]
    exact ⟨fun ⟨hknown, hround⟩ => ⟨hknown, hround⟩, fun hring => ⟨hring.known, hring.round⟩⟩

end Checklist.Workflow
