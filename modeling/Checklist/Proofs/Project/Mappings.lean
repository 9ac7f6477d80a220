import Checklist.Project.Resolve
import Checklist.Proofs.Text
import Mathlib.Data.List.MinMax
import Mathlib.Data.List.Pairwise

/-! # The deepest mapped folder

A path mapping without wildcards stands for a folder or a note. Texts are compared, but at slashes a
text begins another one exactly if its names are the first names of the other one
(`prefix_splitAt_iff`). Main statement: of the mappings that a path falls under the one with the
most names counts, in whatever order the mappings stand (`mapping?_eq_iff_isDeepest`). -/

namespace Checklist
set_option autoImplicit false
open Text

/-! ## Names between separators -/

namespace Text

variable {separator : Char} {s t : Text}

theorem splitAt_inj (h : splitAt separator s = splitAt separator t) : s = t := by
  rw [← join_splitAt separator s, h, join_splitAt]

/-- The pieces of a text are the first pieces of another one exactly if the text is all of it, or
stands in it before a separator. -/
theorem prefix_splitAt_iff : splitAt separator s <+: splitAt separator t ↔
    s = t ∨ s ++ [separator] <+: t := by
  constructor
  · rintro ⟨more, hmore⟩
    by_cases hnil : more = []
    · rw [hnil, List.append_nil] at hmore
      exact .inl (splitAt_inj hmore)
    · have hjoin := join_append [separator] (splitAt separator s) more (splitWhere_ne_nil _ _) hnil
      rw [hmore, join_splitAt, join_splitAt] at hjoin
      exact .inr ⟨join [separator] more, hjoin.symm⟩
  · rintro (rfl | ⟨rest, rfl⟩)
    · exact List.prefix_rfl
    · refine ⟨splitAt separator rest, ?_⟩
      rw [splitAt, splitAt, splitAt, List.append_assoc, List.singleton_append,
        splitWhere_append_cons (by simp)]

/-- Of two texts that begin a third one at separators, the one with fewer pieces is the
shorter one. -/
theorem length_lt_of_prefix_splitAt (h : splitAt separator s <+: splitAt separator t)
    (hne : s ≠ t) : s.length < t.length := by
  have hprefix := (prefix_splitAt_iff.1 h).resolve_left hne
  have hle := hprefix.length_le
  rw [List.length_append, List.length_singleton] at hle
  exact hle

end Text

/-! ## Plain patterns -/

namespace ProjectPath

def names (path : Text) : List Text :=
  splitAt '/' (normalize path)

theorem dropHere_suffix (s : Text) : dropHere s <:+ s := by
  fun_induction dropHere s with
  | case1 rest ih => exact ih.trans ⟨['.', '/'], rfl⟩
  | case2 => exact List.suffix_rfl

theorem mem_of_mem_normalize {path : Text} {c : Char} (h : c ∈ normalize path) :
    c = '/' ∨ c ∈ path := by
  have hdropped : c ∈ replaceChar '\\' '/' path := by
    rw [normalize, trimWhere, trimEndWhere, List.mem_reverse] at h
    have hstart := (List.dropWhile_suffix _).mem h
    rw [List.mem_reverse] at hstart
    exact (dropHere_suffix _).mem ((List.dropWhile_suffix _).mem hstart)
  obtain ⟨d, hd, hreplaced⟩ := List.mem_map.1 hdropped
  split at hreplaced
  · exact .inl hreplaced.symm
  · exact .inr (hreplaced ▸ hd)

theorem isGlob_normalize {pattern : Text} (hstar : '*' ∉ pattern) (hmark : '?' ∉ pattern) :
    isGlob (normalize pattern) = false := by
  have hnot : ∀ {c : Char}, c ≠ '/' → c ∉ pattern → c ∉ normalize pattern :=
    fun hne hmem h => (mem_of_mem_normalize h).elim hne hmem
  simp [isGlob, hnot (by decide) hstar, hnot (by decide) hmark]

/-- A path falls under a plain pattern exactly if the names of the pattern are the first names
of the path. -/
theorem isUnder_iff {path pattern : Text} (hstar : '*' ∉ pattern) (hmark : '?' ∉ pattern) :
    isUnder path pattern = true ↔ normalize pattern ≠ [] ∧ names pattern <+: names path := by
  unfold isUnder names
  rw [prefix_splitAt_iff, eq_comm (b := normalize path)]
  by_cases hnil : normalize pattern = []
  · simp [hnil]
  · simp [hnil, isGlob_normalize hstar hmark]

end ProjectPath

/-! ## Mappings -/

namespace PathMapping

open ProjectPath

/-- The pattern has no wildcards. -/
def HasNoWildcards (mapping : PathMapping) : Prop :=
  '*' ∉ mapping.pattern ∧ '?' ∉ mapping.pattern

instance : DecidablePred HasNoWildcards :=
  fun mapping => inferInstanceAs (Decidable ('*' ∉ mapping.pattern ∧ '?' ∉ mapping.pattern))

/-- The patterns differ also after normalising. -/
def Differs (mapping other : PathMapping) : Prop :=
  ProjectPath.normalize mapping.pattern ≠ ProjectPath.normalize other.pattern

instance : DecidableRel Differs :=
  fun mapping other =>
    inferInstanceAs
      (Decidable (ProjectPath.normalize mapping.pattern ≠ ProjectPath.normalize other.pattern))

/-- The folder of the mapping is the note at a path or lies above it: its names are the first ones
on the way there. The folder that holds all notes cannot be mapped. -/
def LeadsTo (mapping : PathMapping) (path : Text) : Prop :=
  ProjectPath.normalize mapping.pattern ≠ [] ∧ names mapping.pattern <+: names path

/-- What counts for a path among some mappings: the one of them that leads there with the most
names, or none if none leads there. -/
inductive IsDeepest (mappings : List PathMapping) (path : Text) : Option PathMapping → Prop where
  | found {mapping : PathMapping} : mapping ∈ mappings → mapping.LeadsTo path →
      (∀ other ∈ mappings, other ≠ mapping → other.LeadsTo path →
        (names other.pattern).length < (names mapping.pattern).length) →
      IsDeepest mappings path (some mapping)
  | absent : (∀ mapping ∈ mappings, ¬mapping.LeadsTo path) → IsDeepest mappings path none

variable {mappings others : List PathMapping} {path : Text}

theorem IsDeepest.unique {found found' : Option PathMapping} (h : IsDeepest mappings path found)
    (h' : IsDeepest mappings path found') :
    found = found' := by
  cases h with
  | absent hnone =>
    cases h' with
    | absent => rfl
    | found hmem hleads => exact absurd hleads (hnone _ hmem)
  | @found mapping hmem hleads hdeepest =>
    cases h' with
    | absent hnone => exact absurd hleads (hnone _ hmem)
    | @found mapping' hmem' hleads' hdeepest' =>
      by_contra hne
      have hne : mapping' ≠ mapping := fun heq => hne (by rw [heq])
      have hlt := hdeepest mapping' hmem' hne hleads'
      have hlt' := hdeepest' mapping hmem hne.symm hleads
      omega

theorem IsDeepest.of_perm (hperm : mappings.Perm others) {found : Option PathMapping}
    (h : IsDeepest mappings path found) :
    IsDeepest others path found := by
  cases h with
  | found hmem hleads hdeepest =>
    exact .found (hperm.mem_iff.1 hmem) hleads fun other hother =>
      hdeepest other (hperm.mem_iff.2 hother)
  | absent hnone => exact .absent fun mapping hmapping => hnone mapping (hperm.mem_iff.2 hmapping)

theorem length_names_lt {mapping other : PathMapping} (h : mapping.LeadsTo path)
    (hother : other.LeadsTo path) (hne : other.Differs mapping)
    (hle : (ProjectPath.normalize other.pattern).length ≤
      (ProjectPath.normalize mapping.pattern).length) :
    (names other.pattern).length < (names mapping.pattern).length := by
  rcases List.prefix_or_prefix_of_prefix hother.2 h.2 with habove | hbelow
  · exact Nat.lt_of_le_of_ne habove.length_le fun hlength =>
      hne (splitAt_inj (habove.eq_of_length hlength))
  · have hlt := length_lt_of_prefix_splitAt hbelow hne.symm
    omega

end PathMapping

namespace ProjectRules

open ProjectPath PathMapping

/-- The mappings that are not switched off, in order. -/
def inForce (rules : ProjectRules) : List PathMapping :=
  rules.paths.filter PathMapping.enabled

variable {rules : ProjectRules}

theorem mapping?_eq_argmax (rules : ProjectRules) (path : Text) :
    rules.mapping? path = (rules.inForce.filter fun mapping => isUnder path mapping.pattern).argmax
      fun mapping => (ProjectPath.normalize mapping.pattern).length := by
  unfold mapping? inForce List.argmax
  rw [List.filter_filter]
  have hfilter : (fun mapping : PathMapping => isUnder path mapping.pattern && mapping.enabled) =
      fun mapping => mapping.enabled && isUnder path mapping.pattern :=
        funext fun mapping => Bool.and_comm _ _
  rw [hfilter]
  congr 1
  funext best mapping
  cases best <;> rfl

theorem isDeepest_mapping? (hplain : ∀ mapping ∈ rules.inForce, mapping.HasNoWildcards)
    (hdistinct : rules.inForce.Pairwise Differs) (path : Text) :
    IsDeepest rules.inForce path (rules.mapping? path) := by
  rw [mapping?_eq_argmax]
  generalize rules.inForce = mappings at hplain hdistinct
  have hleads : ∀ mapping ∈ mappings, isUnder path mapping.pattern = true ↔ mapping.LeadsTo path :=
    fun mapping hmapping => isUnder_iff (hplain mapping hmapping).1 (hplain mapping hmapping).2
  cases hfound : (mappings.filter fun mapping => isUnder path mapping.pattern).argmax
      fun mapping => (ProjectPath.normalize mapping.pattern).length with
  | none =>
    refine .absent fun mapping hmapping hlead => ?_
    exact List.filter_eq_nil_iff.1 (List.argmax_eq_none.1 hfound) mapping hmapping
      ((hleads mapping hmapping).2 hlead)
  | some mapping =>
    obtain ⟨hmapping, hunder⟩ := List.mem_filter.1 (List.argmax_mem hfound)
    refine .found hmapping ((hleads mapping hmapping).1 hunder) fun other hother hne hlead => ?_
    -- The longest text is chosen; folders on one way are ordered by length as they are by depth,
    -- and two of one length are one.
    have hsymm : Std.Symm Differs := ⟨fun _ _ => Ne.symm⟩
    refine length_names_lt ((hleads mapping hmapping).1 hunder) hlead
      (List.Pairwise.forall hdistinct hother hmapping hne) ?_
    exact List.le_of_mem_argmax (f := fun mapping : PathMapping =>
      (ProjectPath.normalize mapping.pattern).length)
      (List.mem_filter.2 ⟨hother, (hleads other hother).2 hlead⟩) hfound

/-- Where the mappings in force have no wildcards and differ from each other, the deepest one that
leads to a path counts, and it counts in whatever order they stand. -/
theorem mapping?_eq_iff_isDeepest (hplain : ∀ mapping ∈ rules.inForce, mapping.HasNoWildcards)
    (hdistinct : rules.inForce.Pairwise Differs) (path : Text) :
    (∀ found, rules.mapping? path = found ↔ IsDeepest rules.inForce path found) ∧
      ∀ other : ProjectRules, other.inForce.Perm rules.inForce →
        other.mapping? path = rules.mapping? path := by
  have hdeepest := isDeepest_mapping? hplain hdistinct path
  refine ⟨fun found => ⟨fun h => h ▸ hdeepest, fun h => hdeepest.unique h⟩, fun other hperm => ?_⟩
  have hplain' : ∀ mapping ∈ other.inForce, mapping.HasNoWildcards :=
    fun mapping hmapping => hplain mapping (hperm.mem_iff.1 hmapping)
  have hdistinct' := (hperm.pairwise_iff fun h => Ne.symm h).2 hdistinct
  exact ((isDeepest_mapping? hplain' hdistinct' path).of_perm hperm).unique hdeepest

/-- A folder, two folders in it of which the name of one begins that of the other, and a mapping
that was switched off. -/
def officeRules : ProjectRules :=
  { paths := [⟨"Work".toList, "Office".toList, true⟩, ⟨"./Work/Acme/".toList, "Acme".toList, true⟩,
      ⟨"Work/Ac".toList, "Accounts".toList, true⟩,
      ⟨"Work/Acme/2024".toList, "Past".toList, false⟩] }

theorem mapping?_eq_iff_isDeepest_office :
    (∀ mapping ∈ officeRules.inForce, mapping.HasNoWildcards) ∧
      officeRules.inForce.Pairwise Differs ∧
        IsDeepest officeRules.inForce "Work/Acme/2024/n.md".toList
          (some ⟨"./Work/Acme/".toList, "Acme".toList, true⟩) ∧
          IsDeepest officeRules.inForce "Workshop/n.md".toList none ∧
            { officeRules with paths := officeRules.paths.reverse }.mapping?
              "Work/Acme/2024/n.md".toList =
              some ⟨"./Work/Acme/".toList, "Acme".toList, true⟩ := by
  have hplain : ∀ mapping ∈ officeRules.inForce, mapping.HasNoWildcards := by decide
  have hdistinct : officeRules.inForce.Pairwise Differs := by decide
  have hacme : officeRules.mapping? "Work/Acme/2024/n.md".toList =
      some ⟨"./Work/Acme/".toList, "Acme".toList, true⟩ := by decide
  obtain ⟨hdeepest, hperm⟩ :=
    mapping?_eq_iff_isDeepest hplain hdistinct "Work/Acme/2024/n.md".toList
  have hnone := (mapping?_eq_iff_isDeepest hplain hdistinct "Workshop/n.md".toList).1 none
  exact ⟨hplain, hdistinct, (hdeepest _).1 hacme, hnone.1 (by decide),
    (hperm { officeRules with paths := officeRules.paths.reverse }
    ((List.reverse_perm _).filter _)).trans hacme⟩

end ProjectRules
end Checklist
