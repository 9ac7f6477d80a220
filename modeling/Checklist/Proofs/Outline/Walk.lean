import Checklist.Proofs.Outline
import Mathlib.Data.List.Range
import Mathlib.Logic.Relation

/-! # An outline is walked in file order

Lines are numbered as they stand in the file, and a walk goes depth first. Both orders are the same:
between a line and one of its children there are only lines below that line
(`exists_parent?_of_between`), so what is pending when a line is reached are, in file order, the
open ones, whose parent came before (`openFrom`), and the line itself is the first of them. Main
statement: a walk visits the lines in file order, and a line with everything below it is a run of
lines (`walk_eq_range`). -/

namespace Checklist.Outline
set_option autoImplicit false

/-! ## Walks -/

/-- The lines in the order in which they are visited, if the first pending one is taken and its
children are put in its place until none is left. -/
inductive Visits (outline : Outline) : List Nat → List Nat → Prop where
  | done : Visits outline [] []
  | next {number : Nat} {pending order : List Nat}
      (h : Visits outline (outline.children (some number) ++ pending) order) :
      Visits outline (number :: pending) (number :: order)

/-- The second line is a child of the first. -/
def HasChild (outline : Outline) (parent child : Nat) : Prop :=
  child ∈ outline.children (some parent)

variable {outline : Outline} {pending order : List Nat} {indents : List Int}

theorem Visits.visit_eq (h : outline.Visits pending order) {fuel : Nat}
    (hfuel : order.length ≤ fuel) : outline.visit fuel pending = order := by
  induction h generalizing fuel with
  | done => cases fuel <;> rfl
  | @next number pending order _ ih =>
    obtain ⟨fuel, rfl⟩ : ∃ less, fuel = less + 1 :=
      ⟨fuel - 1, by rw [List.length_cons] at hfuel; omega⟩
    rw [visit, ih (Nat.le_of_succ_le_succ hfuel)]

theorem Visits.of_append (first : List Nat) {rest : List Nat}
    (h : outline.Visits (first ++ rest) order) :
    ∃ before after, order = before ++ after ∧ outline.Visits first before ∧
      outline.Visits rest after := by
  generalize hpending : first ++ rest = pending at h
  -- on the walk, since what is pending first changes with every line that is taken
  induction h generalizing first with
  | done =>
    obtain ⟨rfl, rfl⟩ := List.append_eq_nil_iff.1 hpending
    exact ⟨[], [], rfl, .done, .done⟩
  | @next number pending order h ih =>
    cases first with
    | nil =>
      rw [List.nil_append] at hpending
      subst hpending
      exact ⟨[], number :: order, rfl, .done, .next h⟩
    | cons top first =>
      obtain ⟨rfl, rfl⟩ := List.cons.inj hpending
      obtain ⟨before, after, rfl, hbefore, hafter⟩ := ih _ (List.append_assoc _ _ _)
      exact ⟨top :: before, after, rfl, .next hbefore, hafter⟩

theorem Visits.exists_runs (h : outline.Visits pending order) :
    ∃ runs, List.Forall₂ (fun number run => outline.Visits [number] run) pending runs ∧
      runs.flatten = order := by
  induction pending generalizing order with
  | nil =>
    cases h
    exact ⟨[], .nil, rfl⟩
  | cons number pending ih =>
    obtain ⟨run, rest, rfl, hrun, hrest⟩ := Visits.of_append [number] h
    obtain ⟨runs, hruns, rfl⟩ := ih hrest
    exact ⟨run :: runs, .cons hrun hruns, rfl⟩

theorem Visits.mem_iff (h : outline.Visits pending order) {other : Nat} :
    other ∈ order ↔ ∃ number ∈ pending, Relation.ReflTransGen outline.HasChild number other := by
  induction h with
  | done => simp
  | @next number pending order _ ih =>
    simp only [List.mem_append, or_and_right, exists_or] at ih
    rw [List.mem_cons, ih, List.exists_mem_cons_iff, Relation.ReflTransGen.cases_head_iff,
      or_assoc, eq_comm]
    rfl

/-! ## Parents -/

/-- The nearest line that is indented less, and all lines behind it are indented as much or more. -/
theorem getElem?_of_nearest? {nodes : List Node} {indent : Int} {entry : Nat × Node}
    (h : nearest? nodes.reverse indent = some entry) :
    nodes[entry.1]? = some entry.2 ∧ entry.2.indent < indent ∧
      ∀ number node, entry.1 < number → nodes[number]? = some node → indent ≤ node.indent := by
  induction nodes using List.reverseRecOn with
  | nil => cases h
  | append_singleton nodes last ih =>
    rw [List.reverse_append, List.reverse_singleton, List.singleton_append, nearest?] at h
    split at h
    · rename_i hless
      obtain rfl := Option.some.inj h
      rw [List.length_reverse]
      refine ⟨by simp, hless, fun number node hlater hnode => ?_⟩
      have hbound := (List.getElem?_eq_some_iff.1 hnode).1
      rw [List.length_append, List.length_singleton] at hbound
      omega
    · rename_i hmore
      obtain ⟨hfound, hless, hbehind⟩ := ih h
      have hbound := (List.getElem?_eq_some_iff.1 hfound).1
      refine ⟨by rw [List.getElem?_append_left hbound, hfound], hless,
        fun number node hlater hnode => ?_⟩
      rcases Nat.lt_or_ge number nodes.length with hlt | hge
      · exact hbehind number node hlater (by rwa [List.getElem?_append_left hlt] at hnode)
      · rw [List.getElem?_append_right hge] at hnode
        have hlast := List.mem_of_getElem? hnode
        rw [List.mem_singleton.1 hlast]
        exact Int.not_lt.1 hmore

theorem exists_nearest? {nodes : List Node} {indent : Int} {number : Nat} {node : Node}
    (hnode : nodes[number]? = some node)
    (hless : node.indent < indent) : ∃ entry, nearest? nodes.reverse indent = some entry ∧
      number ≤ entry.1 := by
  induction nodes using List.reverseRecOn with
  | nil => simp at hnode
  | append_singleton nodes last ih =>
    have hbound := (List.getElem?_eq_some_iff.1 hnode).1
    rw [List.length_append, List.length_singleton] at hbound
    rw [List.reverse_append, List.reverse_singleton, List.singleton_append, nearest?]
    split
    · exact ⟨_, rfl, by rw [List.length_reverse]; omega⟩
    · rename_i hmore
      rcases Nat.lt_or_ge number nodes.length with hlt | hge
      · exact ih (by rwa [List.getElem?_append_left hlt] at hnode)
      · rw [List.getElem?_append_right hge] at hnode
        have hlast := List.mem_singleton.1 (List.mem_of_getElem? hnode)
        exact absurd (hlast ▸ hless) hmore

theorem parent?_eq {number : Nat} {node : Node}
    (hnode : (ofIndents indents).nodes[number]? = some node) :
    (ofIndents indents).parent? number =
      (nearest? ((ofIndents indents).nodes.take number).reverse node.indent).map (·.1) := by
  have hbound := (List.getElem?_eq_some_iff.1 hnode).1
  have hhang := hangs_ofIndents indents
  rw [← List.take_append_drop number (ofIndents indents).nodes, List.drop_eq_getElem_cons hbound,
    (List.getElem?_eq_some_iff.1 hnode).2, List.reverse_append, List.reverse_cons,
    List.append_assoc] at hhang
  rw [parent?, hnode, Option.bind_some]
  exact hhang.hangs.1

/-- Between a line and its child there are only lines below that line: the parent of each is that
line or one behind it. -/
theorem exists_parent?_of_between {parent between child : Nat}
    (h : (ofIndents indents).parent? child = some parent) (hafter : parent < between)
    (hbefore : between < child) : ∃ inner, (ofIndents indents).parent? between = some inner ∧
      parent ≤ inner := by
  obtain ⟨node, hnode, -⟩ := Option.bind_eq_some_iff.1 h
  have hbound := (List.getElem?_eq_some_iff.1 hnode).1
  rw [parent?_eq hnode] at h
  obtain ⟨entry, hentry, rfl⟩ := Option.map_eq_some_iff.1 h
  obtain ⟨houter, hless, hbehind⟩ := getElem?_of_nearest? hentry
  obtain ⟨inner, hinner⟩ : ∃ inner, (ofIndents indents).nodes[between]? = some inner :=
    ⟨_, List.getElem?_eq_getElem (by omega)⟩
  have hmore : node.indent ≤ inner.indent :=
    hbehind between inner hafter (by rw [List.getElem?_take_of_lt hbefore, hinner])
  rw [List.getElem?_take_of_lt (by omega)] at houter
  -- the parent of the child is indented less than the line between, so that line has a parent too,
  -- and no earlier one
  have hwithin : ((ofIndents indents).nodes.take between)[entry.1]? =
      some entry.2 := by rw [List.getElem?_take_of_lt hafter, houter]
  obtain ⟨found, hfound, hle⟩ := exists_nearest? hwithin (Int.lt_of_lt_of_le hless hmore)
  exact ⟨found.1, by rw [parent?_eq hinner, hfound]; rfl, hle⟩

/-! ## What is pending -/

theorem children_eq_filter (outline : Outline) (parent : Option Nat) :
    outline.children parent = (List.range outline.size).filter fun number =>
      outline.parent? number == parent := by
  obtain ⟨nodes⟩ := outline
  induction nodes using List.reverseRecOn with
  | nil => rfl
  | append_singleton nodes last ih =>
    have hsame : ∀ number ∈ List.range nodes.length,
        ((⟨nodes ++ [last]⟩ : Outline).parent? number == parent) =
            ((⟨nodes⟩ : Outline).parent? number == parent) := by
      intro number hnumber
      rw [parent?, parent?, List.getElem?_append_left (List.mem_range.1 hnumber)]
    have hlast : (⟨nodes ++ [last]⟩ : Outline).parent? nodes.length =
        last.parent? := by simp [parent?]
    have hsize : (⟨nodes ++ [last]⟩ : Outline).size = nodes.length + 1 := by simp [size]
    rw [hsize, List.range_succ, List.filter_append, List.filter_congr hsame, children,
      List.zipIdx_append, List.filterMap_append]
    congr 1
    simp only [List.zipIdx_singleton, List.filter_cons, hlast, List.filter_nil, List.filterMap_cons]
    split <;> simp_all

theorem parent?_lt_of_mem {parent child : Nat} (h : (ofIndents indents).HasChild parent child) :
    parent < child := by
  rw [HasChild, children_eq_filter, List.mem_filter, beq_iff_eq] at h
  exact parent?_lt h.2

/-- A line is open when another is reached, if it is a root or its parent stands before that one. -/
def isOpen (outline : Outline) (number other : Nat) : Bool :=
  (outline.parent? other).all (· < number)

/-- The lines from one on that are open when it is reached. -/
def openFrom (outline : Outline) (number : Nat) : List Nat :=
  (List.range' number (outline.size - number)).filter (outline.isOpen number)

theorem openFrom_zero (outline : Outline) : outline.openFrom 0 = outline.roots := by
  rw [openFrom, roots, children_eq_filter, List.range_eq_range', Nat.sub_zero]
  refine List.filter_congr fun number _ => ?_
  rw [isOpen]
  cases outline.parent? number <;> rfl

theorem openFrom_size (outline : Outline) : outline.openFrom outline.size = [] := by
  rw [openFrom, Nat.sub_self]
  rfl

theorem isOpen_succ (outline : Outline) (number other : Nat) :
    outline.isOpen (number + 1) other =
      (outline.parent? other == some number || outline.isOpen number other) := by
  rw [isOpen, isOpen]
  cases outline.parent? other with
  | none => rfl
  | some parent =>
    rw [Bool.eq_iff_iff]
    simp
    omega

/-- What is chosen in two ways is chosen in order, if what is chosen in the first way
comes first. -/
theorem filter_append_filter {p q : Nat → Bool} {numbers : List Nat}
    (hapart : ∀ number ∈ numbers, p number = true → q number = false)
    (hfirst : numbers.Pairwise fun number later => q number = true → p later = false) :
    numbers.filter p ++ numbers.filter q = numbers.filter fun number => p number || q number := by
  induction numbers with
  | nil => rfl
  | cons number numbers ih =>
    have hrest := ih (fun other hother => hapart other (List.mem_cons_of_mem _ hother))
      (List.pairwise_cons.1 hfirst).2
    have hlater := (List.pairwise_cons.1 hfirst).1
    cases hp : p number with
    | true => simp [hp, hapart number List.mem_cons_self hp, ← hrest]
    | false =>
      cases hq : q number with
      | false => simp [hp, hq, ← hrest]
      | true =>
        have hnone : numbers.filter p = [] :=
          List.filter_eq_nil_iff.2 fun other hother => by simp [hlater other hother hq]
        simp [hp, hq, ← hrest, hnone]

theorem range_eq_append {first count : Nat} (h : first ≤ count) :
    List.range count = List.range first ++ List.range' first (count - first) := by
  rw [List.range_eq_range', List.range_eq_range', List.range'_eq_append_iff]
  exact ⟨first, h, rfl, by rw [Nat.zero_add, Nat.mul_one]⟩

theorem children_eq_filter_range' {number : Nat} (h : number < (ofIndents indents).size) :
    (ofIndents indents).children (some number) =
    (List.range' (number + 1) ((ofIndents indents).size - (number + 1))).filter fun other =>
      (ofIndents indents).parent? other == some number := by
  have hnone : ((List.range (number + 1)).filter fun other => (ofIndents indents).parent? other ==
      some number) = [] := by
    rw [List.filter_eq_nil_iff]
    intro other hother hparent
    have hbefore := parent?_lt (beq_iff_eq.1 hparent)
    rw [List.mem_range] at hother
    omega
  rw [children_eq_filter, range_eq_append h, List.filter_append, hnone, List.nil_append]

/-- When a line is reached it is the first that is open, and its children stand before
the others. -/
theorem exists_openFrom {number : Nat} (h : number < (ofIndents indents).size) :
    ∃ rest, (ofIndents indents).openFrom number = number :: rest ∧
    (ofIndents indents).openFrom (number + 1) =
      (ofIndents indents).children (some number) ++ rest := by
  have hsize : (ofIndents indents).size - number =
      (ofIndents indents).size - (number + 1) + 1 := by omega
  have hself : (ofIndents indents).isOpen number number = true := by
    rw [isOpen, Option.all_eq_true]
    intro parent hparent
    exact decide_eq_true (parent?_lt hparent)
  refine ⟨(List.range' (number + 1) ((ofIndents indents).size - (number + 1))).filter
    ((ofIndents indents).isOpen number), ?_, ?_⟩
  · rw [openFrom, hsize, List.range'_succ, List.filter_cons_of_pos hself]
  · -- a line before a child of this one is below this one, so it is not open yet
    rw [children_eq_filter_range' h, filter_append_filter, openFrom]
    · exact List.filter_congr fun other _ => isOpen_succ _ number other
    · intro child _ hchild
      rw [isOpen, beq_iff_eq.1 hchild]
      simp
    · refine List.Pairwise.imp_of_mem ?_ List.pairwise_lt_range'
      intro other child hother _ hlt hopen
      rw [beq_eq_false_iff_ne]
      intro hchild
      have hafter := (List.mem_range'_1.1 hother).1
      obtain ⟨inner, hinner, hle⟩ := exists_parent?_of_between hchild hafter hlt
      rw [isOpen, hinner, Option.all_some, decide_eq_true_eq] at hopen
      omega

/-! ## The walk -/

theorem visits_openFrom (indents : List Int) (count : Nat) :
    ∀ number, number + count = (ofIndents indents).size →
    (ofIndents indents).Visits ((ofIndents indents).openFrom number) (List.range' number count) := by
  induction count with
  | zero =>
    intro number hnumber
    rw [show number = (ofIndents indents).size from hnumber, openFrom_size]
    exact .done
  | succ count ih =>
    intro number hnumber
    have hbound : number < (ofIndents indents).size := by omega
    obtain ⟨rest, hfirst, hnext⟩ := exists_openFrom hbound
    have hvisits := ih (number + 1) (by omega)
    rw [hnext] at hvisits
    rw [hfirst, List.range'_succ]
    exact .next hvisits

theorem visits_roots (indents : List Int) :
    (ofIndents indents).Visits (ofIndents indents).roots (List.range indents.length) := by
  have hvisits := visits_openFrom indents (ofIndents indents).size 0 (Nat.zero_add _)
  rw [openFrom_zero, size, length_nodes_ofIndents, ← List.range_eq_range'] at hvisits
  exact hvisits

theorem exists_visits_range' {number : Nat} (h : number < indents.length) :
    ∃ count, (ofIndents indents).Visits [number] (List.range' number count) := by
  have hsize : (ofIndents indents).size = indents.length := length_nodes_ofIndents indents
  have hbound : number < (ofIndents indents).size := by omega
  obtain ⟨rest, hfirst, -⟩ := exists_openFrom hbound
  have hvisits := visits_openFrom indents (indents.length - number) number (by omega)
  rw [hfirst] at hvisits
  obtain ⟨run, later, hsplit, hrun, -⟩ := Visits.of_append [number] hvisits
  obtain ⟨count, -, rfl, -⟩ := List.range'_eq_append_iff.1 hsplit
  exact ⟨count, hrun⟩

theorem lt_of_transGen {above below : Nat}
    (h : Relation.TransGen (ofIndents indents).HasChild above below) : above < below := by
  induction h with
  | single hchild => exact parent?_lt_of_mem hchild
  | tail _ hchild ih => exact Nat.lt_trans ih (parent?_lt_of_mem hchild)

theorem lt_size_of_hasChild {parent child : Nat} (h : outline.HasChild parent child) :
    child < outline.size := by
  rw [HasChild, children_eq_filter, List.mem_filter, List.mem_range] at h
  exact h.1

/-- A walk visits all lines in file order, each once, root by root. A line comes before all that is
below it, and with it makes up a run of lines. -/
theorem walk_eq_range (indents : List Int) :
    (ofIndents indents).walk = List.range indents.length ∧
      (∃ runs, List.Forall₂ (fun root run => (ofIndents indents).Visits [root] run)
        (ofIndents indents).roots runs ∧
        runs.flatten = List.range indents.length) ∧
      (∀ above below, Relation.TransGen (ofIndents indents).HasChild above below →
        [above, below].Sublist (ofIndents indents).walk) ∧
      ∀ number < indents.length, ∃ count,
        (ofIndents indents).Visits [number] (List.range' number count) ∧
        ∀ other, Relation.ReflTransGen (ofIndents indents).HasChild number other ↔
          other ∈ List.range' number count := by
  have hsize : (ofIndents indents).size = indents.length := length_nodes_ofIndents indents
  have hwalk : (ofIndents indents).walk = List.range indents.length :=
    (visits_roots indents).visit_eq (by rw [List.length_range, hsize])
  refine ⟨hwalk, (visits_roots indents).exists_runs, fun above below hbelow => ?_,
    fun number hnumber => ?_⟩
  · have hlt := lt_of_transGen hbelow
    obtain ⟨parent, -, hchild⟩ := Relation.TransGen.tail'_iff.1 hbelow
    have hbound := lt_size_of_hasChild hchild
    have hwithin : below ≤ indents.length := by omega
    rw [hwalk, range_eq_append hwithin]
    exact List.Sublist.append (List.singleton_sublist.2 (List.mem_range.2 hlt))
      (List.singleton_sublist.2 (List.mem_range'_1.2 (by omega)))
  · obtain ⟨count, hvisits⟩ := exists_visits_range' hnumber
    exact ⟨count, hvisits, fun other => by rw [hvisits.mem_iff]; simp⟩

/-- A chapter with three lines below it, and one with one. -/
theorem walk_eq_range_chapters :
    let outline := ofIndents [0, 4, 8, 4, 0, 4]
    outline.walk = [0, 1, 2, 3, 4, 5] ∧ [0, 2].Sublist outline.walk ∧
      ∃ count, outline.Visits [0] (List.range' 0 count) ∧ ∀ other,
          Relation.ReflTransGen outline.HasChild 0 other ↔ other ∈ List.range' 0 count := by
  intro outline
  obtain ⟨hwalk, -, hbefore, hbelow⟩ := walk_eq_range [0, 4, 8, 4, 0, 4]
  have hfirst : outline.HasChild 0 1 := by
    rw [HasChild]
    decide
  have hsecond : outline.HasChild 1 2 := by
    rw [HasChild]
    decide
  exact ⟨hwalk, hbefore 0 2 (.tail (.single hfirst) hsecond), hbelow 0 (by decide)⟩

end Checklist.Outline
