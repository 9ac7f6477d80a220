import Checklist.Outline
import Mathlib.Data.List.TakeWhile

/-! # The hierarchy that indents describe

An outline keeps only the lines that are still open. Main statements: for whatever comes next these
answer as all lines so far would (`find?_opened`), so the parent of a line is the nearest earlier
line that is indented less, and its depth is one more than the parent's (`hangs_ofIndents`). -/

namespace Checklist.Outline
set_option autoImplicit false

/-- The nearest node that is indented less, with its number; the nodes are those so far,
latest first. -/
def nearest? : List Node → Int → Option (Nat × Node)
  | [], _ => none
  | node :: earlier, indent =>
    if node.indent < indent then some (earlier.length, node) else nearest? earlier indent

/-- The node hangs below the nearest earlier one that is indented less, or is a root if
there is none. -/
def Hangs (earlier : List Node) (node : Node) : Prop :=
  node.parent? = (nearest? earlier node.indent).map (·.1) ∧
    node.depth = ((nearest? earlier node.indent).map (·.2.depth + 1)).getD 0

def AllHang : List Node → Prop
  | [] => True
  | node :: earlier => Hangs earlier node ∧ AllHang earlier

theorem AllHang.hangs {later earlier : List Node} {node : Node}
    (h : AllHang (later ++ node :: earlier)) : Hangs earlier node := by
  induction later with
  | nil => exact h.1
  | cons _ later ih => exact ih h.2

/-! ## Adding a line -/

/-- The open lines and all lines so far have the same nearest line for every indent. -/
structure Build.Sound (build : Build) : Prop where
  size_eq : build.size = build.nodes.length
  find?_opened : ∀ indent, build.opened.find? (fun entry => entry.2.indent < indent) =
    nearest? build.nodes indent
  hang : AllHang build.nodes

theorem Build.sound_empty : Build.empty.Sound :=
  ⟨rfl, fun _ => rfl, trivial⟩

/-- Lines that are closed are indented no less than what follows, so they are not missed. -/
theorem find?_dropWhile {opened : List (Nat × Node)} {indent other : Int} (h : other ≤ indent) :
    (opened.dropWhile fun entry => indent ≤ entry.2.indent).find?
      (fun entry => entry.2.indent < other) =
      opened.find? fun entry => entry.2.indent < other := by
  induction opened with
  | nil => rfl
  | cons entry opened ih =>
    by_cases hclosed : indent ≤ entry.2.indent
    · rw [List.dropWhile_cons_of_pos (by simpa using hclosed), ih,
        List.find?_cons_of_neg (by simp; omega)]
    · rw [List.dropWhile_cons_of_neg (by simpa using hclosed)]

theorem Build.Sound.head?_opened {build : Build} (h : build.Sound) (indent : Int) :
    (build.opened.dropWhile fun entry => indent ≤ entry.2.indent).head? =
      nearest? build.nodes indent := by
  rw [← h.find?_opened, ← List.find?_not_eq_head?_dropWhile]
  congr 1
  funext entry
  rw [← decide_not, decide_eq_decide]
  exact Int.not_le

theorem Build.add_eq (build : Build) (indent : Int) :
    ∃ node, build.add indent = ⟨build.size + 1, node :: build.nodes,
        (build.size, node) :: build.opened.dropWhile fun entry => indent ≤ entry.2.indent⟩ ∧
      node.indent = indent ∧
      node.parent? = (build.opened.dropWhile fun entry => indent ≤ entry.2.indent).head?.map (·.1) ∧
      node.depth = ((build.opened.dropWhile fun entry =>
        indent ≤ entry.2.indent).head?.map (·.2.depth + 1)).getD 0 := by
  unfold Build.add
  cases build.opened.dropWhile fun entry => indent ≤ entry.2.indent with
  | nil => exact ⟨_, rfl, rfl, rfl, rfl⟩
  | cons entry opened => exact ⟨_, rfl, rfl, rfl, rfl⟩

/-- A line that is added hangs below the nearest one, and is itself the nearest for what is
indented more. -/
theorem Build.Sound.add {build : Build} (h : build.Sound) (indent : Int) :
    (build.add indent).Sound ∧ (build.add indent).nodes.map Node.indent = indent ::
      build.nodes.map Node.indent := by
  obtain ⟨node, hadd, hindent, hparent, hdepth⟩ := build.add_eq indent
  rw [h.head?_opened] at hparent hdepth
  rw [hadd]
  refine ⟨⟨by rw [List.length_cons, h.size_eq], fun other => ?_,
    ⟨⟨by rw [hparent, hindent], by rw [hdepth, hindent]⟩, h.hang⟩⟩,
    by rw [List.map_cons, hindent]⟩
  by_cases hmore : indent < other
  · rw [List.find?_cons_of_pos (by simpa [hindent] using hmore), nearest?,
      if_pos (by rwa [hindent]), h.size_eq]
  · rw [List.find?_cons_of_neg (by simpa [hindent] using hmore),
      find?_dropWhile (Int.not_lt.1 hmore), h.find?_opened, nearest?,
      if_neg (by rwa [hindent])]

theorem Build.Sound.foldl {build : Build} (h : build.Sound) (indents : List Int) :
    (indents.foldl Build.add build).Sound ∧
    (indents.foldl Build.add build).nodes.map Node.indent = indents.reverse ++
      build.nodes.map Node.indent := by
  induction indents generalizing build with
  | nil => exact ⟨h, rfl⟩
  | cons indent indents ih =>
    obtain ⟨hsound, hindents⟩ := ih (h.add indent).1
    exact ⟨hsound, by rw [List.foldl_cons, hindents, (h.add indent).2]; simp⟩

/-! ## The outline of all lines -/

/-- Every node of an outline hangs below those before it. -/
theorem hangs_ofIndents (indents : List Int) : AllHang (ofIndents indents).nodes.reverse := by
  rw [ofIndents, List.reverse_reverse]
  exact (Build.sound_empty.foldl indents).1.hang

theorem map_indent_ofIndents (indents : List Int) :
    (ofIndents indents).nodes.map Node.indent = indents := by
  rw [ofIndents, List.map_reverse, (Build.sound_empty.foldl indents).2]
  simp [Build.empty]

theorem length_nodes_ofIndents (indents : List Int) :
    (ofIndents indents).nodes.length = indents.length := by
  rw [← List.length_map Node.indent, map_indent_ofIndents]

theorem Build.nodes_foldl (build : Build) (indents : List Int) :
    ∃ later, (indents.foldl Build.add build).nodes = later ++ build.nodes := by
  induction indents generalizing build with
  | nil => exact ⟨[], rfl⟩
  | cons indent indents ih =>
    obtain ⟨later, hlater⟩ := ih (build.add indent)
    obtain ⟨node, hadd, -⟩ := build.add_eq indent
    exact ⟨later ++ [node], by rw [List.foldl_cons, hlater, hadd, List.append_assoc]; rfl⟩

theorem nodes_ofIndents_prefix {indents more : List Int} (h : indents <+: more) :
    (ofIndents indents).nodes <+: (ofIndents more).nodes := by
  obtain ⟨below, rfl⟩ := h
  obtain ⟨later, hlater⟩ := (indents.foldl Build.add Build.empty).nodes_foldl below
  refine ⟨later.reverse, ?_⟩
  rw [ofIndents, ofIndents, List.foldl_append, hlater, List.reverse_append]

theorem getElem?_childLists (outline : Outline) {number : Nat} (h : number < outline.size) :
    outline.childLists[number]? = some (outline.children (some number)) := by
  unfold childLists children
  rw [List.foldl_reverse]
  generalize outline.nodes.zipIdx = numbered
  induction numbered with
  | nil => simp [h]
  | cons entry numbered ih =>
    obtain ⟨node, child⟩ := entry
    rw [List.foldr_cons, List.filterMap_cons]
    dsimp only
    cases hparent : node.parent? with
    | none => exact ih
    | some parent =>
      dsimp only
      rw [Array.getElem?_modify, ih]
      by_cases hsame : parent = number <;> simp [hsame]

end Checklist.Outline
