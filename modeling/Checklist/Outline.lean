/-! # Outlines

The hierarchy of a list of indented lines. Lines come in file order; the parent of a line is the
nearest earlier line that is still open and indented less. Nodes are numbered by position, and each
holds its parent, its depth and its children. Main statements: `parent?_lt` says that a parent
stands before its child. -/

namespace Checklist
set_option autoImplicit false

/-- One line of an outline. -/
structure Outline.Node where
  indent : Int
  parent? : Option Nat
  depth : Nat
  deriving DecidableEq, Repr

/-- The nodes so far, latest first, and the open ones, innermost first, each with its number. -/
structure Outline.Build where
  size : Nat
  nodes : List Outline.Node
  opened : List (Nat × Outline.Node)

/-- The hierarchy of a list of indents. -/
structure Outline where
  nodes : List Outline.Node
  deriving DecidableEq, Repr

namespace Outline

def Build.empty : Build := ⟨0, [], []⟩

/-- Adds a line: open lines indented as much or more are closed, and the innermost that stays is
the parent. -/
def Build.add (build : Build) (indent : Int) : Build :=
  let opened := build.opened.dropWhile fun entry => indent ≤ entry.2.indent
  let node : Node := match opened with
    | [] => ⟨indent, none, 0⟩
    | (number, parent) :: _ => ⟨indent, some number, parent.depth + 1⟩
  ⟨build.size + 1, node :: build.nodes, (build.size, node) :: opened⟩

def ofIndents (indents : List Int) : Outline :=
  ⟨(indents.foldl Build.add Build.empty).nodes.reverse⟩

def size (outline : Outline) : Nat :=
  outline.nodes.length

def parent? (outline : Outline) (number : Nat) : Option Nat :=
  (outline.nodes[number]?).bind Node.parent?

def depth (outline : Outline) (number : Nat) : Nat :=
  ((outline.nodes[number]?).map Node.depth).getD 0

/-- The lines whose parent is the given one, in file order; without a given one, the roots. -/
def children (outline : Outline) (parent : Option Nat) : List Nat :=
  outline.nodes.zipIdx.filterMap fun (node, number) =>
    if node.parent? == parent then some number else none

/-- The children of every line, in file order. -/
def childLists (outline : Outline) : Array (List Nat) :=
  (outline.nodes.zipIdx.reverse).foldl (fun lists (node, number) => match node.parent? with
    | some parent => lists.modify parent (number :: ·)
    | none => lists) (Array.replicate outline.size [])

def roots (outline : Outline) : List Nat :=
  outline.children none

/-- Visits the pending lines, first one first, and the children of a line before what is
pending after it. -/
def visit (outline : Outline) : Nat → List Nat → List Nat
  | 0, _ => []
  | _, [] => []
  | fuel + 1, number :: pending =>
    number :: visit outline fuel (outline.children (some number) ++ pending)

/-- The lines in depth-first order; each is visited once, so its size bounds the walk. -/
def walk (outline : Outline) : List Nat :=
  outline.visit outline.size outline.roots

/-- The parents of a line, nearest first; each step lessens the depth. -/
def ancestorsWithin (outline : Outline) : Nat → Nat → List Nat
  | 0, _ => []
  | fuel + 1, number => match outline.parent? number with
    | none => []
    | some parent => parent :: ancestorsWithin outline fuel parent

/-- The parents of a line up to its root, nearest first. -/
def ancestors (outline : Outline) (number : Nat) : List Nat :=
  outline.ancestorsWithin outline.size number

/-! ## A parent stands before its child -/

/-- Open lines are numbered below the size, and so is the parent of every line, below the
line itself. -/
structure Build.Ordered (build : Build) : Prop where
  size_eq : build.nodes.length = build.size
  opened_lt : ∀ entry ∈ build.opened, entry.1 < build.size
  parent_lt : ∀ (number : Nat) (node : Node), build.nodes.reverse[number]? = some node →
    ∀ parent ∈ node.parent?, parent < number

theorem Build.ordered_empty : Build.empty.Ordered :=
  ⟨rfl, by simp [Build.empty], by simp [Build.empty]⟩

theorem Build.Ordered.add {build : Build} (h : build.Ordered) (indent : Int) :
    (build.add indent).Ordered := by
  obtain ⟨hsize, hopened, hparent⟩ := h
  have hkept : ∀ entry ∈ build.opened.dropWhile (fun entry => decide (indent ≤ entry.2.indent)),
      entry.1 < build.size :=
    fun entry he => hopened entry ((List.dropWhile_sublist _).subset he)
  refine ⟨by simp [Build.add, hsize], ?_, ?_⟩
  · intro entry he
    simp only [Build.add, List.mem_cons] at he
    rcases he with rfl | he
    · simp [Build.add]
    · exact Nat.lt_succ_of_lt (hkept entry he)
  · intro number node hnode parent hp
    simp only [Build.add, List.reverse_cons] at hnode
    rcases Nat.lt_or_ge number build.size with hlt | hge
    · rw [List.getElem?_append_left (by simp [hsize, hlt])] at hnode
      exact hparent number node hnode parent hp
    · rw [List.getElem?_append_right (by simp [hsize, hge])] at hnode
      simp only [List.length_reverse, hsize] at hnode
      have hzero : number - build.size = 0 := by
        rcases Nat.eq_zero_or_pos (number - build.size) with h0 | h0
        · exact h0
        · rw [List.getElem?_eq_none (by simp; omega)] at hnode
          simp at hnode
      rw [hzero] at hnode
      simp only [List.getElem?_cons_zero, Option.some.injEq] at hnode
      have hnum : number = build.size := by omega
      subst hnode
      split at hp
      · simp at hp
      · rename_i k parentNode rest hopen
        simp only [Option.mem_def, Option.some.injEq] at hp
        rw [← hp, hnum]
        exact hkept (k, parentNode) (by rw [hopen]; simp)

theorem Build.ordered_foldl {build : Build} (h : build.Ordered) (indents : List Int) :
    (indents.foldl Build.add build).Ordered := by
  induction indents generalizing build with
  | nil => exact h
  | cons indent rest ih => exact ih (h.add indent)

theorem parent?_lt {indents : List Int} {number parent : Nat}
    (h : (ofIndents indents).parent? number = some parent) : parent < number := by
  simp only [parent?, Option.bind_eq_some_iff] at h
  obtain ⟨node, hnode, hp⟩ := h
  exact (Build.ordered_foldl Build.ordered_empty indents).parent_lt number node hnode parent hp

example : (ofIndents [0, 2, 4, 2, 0]).walk = [0, 1, 2, 3, 4] := by decide

example : (ofIndents [4, 2, 3]).nodes.map Node.parent? = [none, none, some 1] := by decide

end Outline
end Checklist
