import Mathlib.Data.List.Forall2
import Mathlib.Tactic.Common

/-! # Results of steps that may fail

A chain of steps has a result if every step has one. Main statements: a bind is taken apart into its
two steps (`bind_eq_ok`), and a traversal into one step for each element (`mapM_eq_ok`). A selection
keeps what is accepted, and needs a verdict on everything (`filterM_eq_ok`). -/

namespace Checklist.Result
set_option autoImplicit false

variable {ε δ α β : Type}

theorem bind_eq_ok {x : Except ε α} {f : α → Except ε β} {b : β} :
    (x >>= f) = .ok b ↔ ∃ a, x = .ok a ∧ f a = .ok b := by
  cases x with
  | error e => simp [bind, Except.bind]
  | ok a => simp [bind, Except.bind]

theorem bind_isOk_iff {x : Except ε α} {f : α → Except ε β} :
    (∃ b, (x >>= f) = .ok b) ↔ ∃ a, x = .ok a ∧ ∃ b, f a = .ok b := by
  cases x with
  | error e => simp [bind, Except.bind]
  | ok a => simp [bind, Except.bind]

theorem both_isOk_iff {x : Except ε α} {y : Except ε β} {f : α → β → δ} :
    (∃ d, (x >>= fun a => y >>= fun b => .ok (f a b)) = .ok d) ↔
      (∃ a, x = .ok a) ∧ ∃ b, y = .ok b := by
  rw [bind_isOk_iff]
  constructor
  · rintro ⟨a, hx, hrest⟩
    obtain ⟨b, hy, -⟩ := bind_isOk_iff.1 hrest
    exact ⟨⟨a, hx⟩, b, hy⟩
  · rintro ⟨⟨a, hx⟩, b, hy⟩
    exact ⟨a, hx, bind_isOk_iff.2 ⟨b, hy, _, rfl⟩⟩

theorem both_eq_ok {x : Except ε α} {y : α → Except ε β} {f : α → β → δ} {d : δ} :
    (x >>= fun a => y a >>= fun b => .ok (f a b)) = .ok d ↔ ∃ a b, x = .ok a ∧
      y a = .ok b ∧ f a b = d := by
  refine bind_eq_ok.trans (exists_congr fun a => ?_)
  rw [exists_and_left]
  exact and_congr_right fun _ =>
    bind_eq_ok.trans (exists_congr fun b => and_congr_right fun _ => by rw [Except.ok.injEq])

theorem map_isOk_iff {x : Except ε α} {f : α → β} : (∃ b, x.map f = .ok b) ↔ ∃ a, x = .ok a := by
  cases x with
  | error e => simp [Except.map]
  | ok a => simp [Except.map]

theorem mapError_isOk_iff {x : Except ε α} {f : ε → δ} :
    (∃ a, x.mapError f = .ok a) ↔ ∃ a, x = .ok a := by
  cases x with
  | error e => simp [Except.mapError]
  | ok a => simp [Except.mapError]

theorem map_eq_ok {x : Except ε α} {f : α → β} {b : β} :
    x.map f = .ok b ↔ ∃ a, x = .ok a ∧ f a = b := by
  cases x with
  | error e => simp [Except.map]
  | ok a => simp [Except.map]

theorem mapError_eq_ok {x : Except ε α} {f : ε → δ} {a : α} : x.mapError f = .ok a ↔ x = .ok a := by
  cases x with
  | error e => simp [Except.mapError]
  | ok b => simp [Except.mapError]

theorem toOption_eq_some {x : Except ε α} {a : α} : x.toOption = some a ↔ x = .ok a := by
  cases x with
  | error e => simp [Except.toOption]
  | ok b => simp [Except.toOption]

theorem eq_ok_of_join {x : Except ε (Option α)} {a : α} (h : x.toOption.join = some a) :
    x = .ok (some a) := by
  cases x with
  | error e => cases h
  | ok found => exact congrArg Except.ok h

theorem exists_of_map {x : Except ε α} {f : α → β} {b : β} (h : (x.map f).toOption = some b) :
    ∃ a, x = .ok a ∧ f a = b := by
  cases x with
  | error e => cases h
  | ok a => exact ⟨a, rfl, Option.some.inj h⟩

theorem mapM_eq_ok {f : α → Except ε β} {xs : List α} {ys : List β} :
    xs.mapM f = .ok ys ↔ List.Forall₂ (fun x y => f x = .ok y) xs ys := by
  induction xs generalizing ys with
  | nil => cases ys <;> simp [pure, Except.pure]
  | cons x xs ih =>
    rw [List.mapM_cons, bind_eq_ok]
    constructor
    · rintro ⟨y, hy, h⟩
      obtain ⟨rest, hrest, h⟩ := bind_eq_ok.1 h
      cases h
      exact .cons hy (ih.1 hrest)
    · rintro (_ | ⟨hy, hrest⟩)
      exact ⟨_, hy, bind_eq_ok.2 ⟨_, ih.2 hrest, rfl⟩⟩

theorem exists_left_of_mem {R : α → β → Prop} {xs : List α} {ys : List β} (h : List.Forall₂ R xs ys)
    {y : β} (hy : y ∈ ys) :
    ∃ x ∈ xs, R x y := by
  induction h with
  | nil => simp at hy
  | cons hxy _ ih =>
    rcases List.mem_cons.1 hy with rfl | hy
    · exact ⟨_, List.mem_cons_self, hxy⟩
    · obtain ⟨x, hx, hR⟩ := ih hy
      exact ⟨x, List.mem_cons_of_mem _ hx, hR⟩

theorem exists_right_of_mem {R : α → β → Prop} {xs : List α} {ys : List β}
    (h : List.Forall₂ R xs ys) {x : α} (hx : x ∈ xs) :
    ∃ y ∈ ys, R x y :=
  exists_left_of_mem h.flip hx

theorem exists_left_of_getElem? {R : α → β → Prop} {xs : List α} {ys : List β}
    (h : List.Forall₂ R xs ys) {n : Nat} {y : β}
    (hy : ys[n]? = some y) : ∃ x, xs[n]? = some x ∧ R x y := by
  induction h generalizing n with
  | nil => cases hy
  | cons hxy _ ih =>
    cases n with
    | zero =>
      cases hy
      exact ⟨_, rfl, hxy⟩
    | succ n => exact ih hy

theorem exists_right_of_getElem? {R : α → β → Prop} {xs : List α} {ys : List β}
    (h : List.Forall₂ R xs ys) {n : Nat} {x : α}
    (hx : xs[n]? = some x) : ∃ y, ys[n]? = some y ∧ R x y :=
  exists_left_of_getElem? h.flip hx

theorem filterMap_eq_filterMap {γ : Type} {R : α → β → Prop} {f : α → Option γ} {g : β → Option γ}
    (hR : ∀ x y, R x y → f x = g y) {xs : List α}
    {ys : List β} (h : List.Forall₂ R xs ys) : xs.filterMap f = ys.filterMap g := by
  induction h with
  | nil => rfl
  | cons hxy _ ih => rw [List.filterMap_cons, List.filterMap_cons, hR _ _ hxy, ih]

theorem forall₂_of_left {γ : Type} {R : α → β → Prop} {S : α → γ → Prop} {xs : List α} {ys : List β}
    {zs : List γ} (hy : List.Forall₂ R xs ys)
    (hz : List.Forall₂ S xs zs) : List.Forall₂ (fun y z => ∃ x, R x y ∧ S x z) ys zs := by
  induction hy generalizing zs with
  | nil =>
    cases hz
    exact .nil
  | cons hR _ ih =>
    cases hz with
    | cons hS hrest => exact .cons ⟨_, hR, hS⟩ (ih hrest)

theorem eq_of_forall₂ {R S : α → β → Prop} {xs ys : List α} {zs : List β}
    (hx : List.Forall₂ R xs zs) (hy : List.Forall₂ S ys zs)
    (h : ∀ (n : Nat) x y z, xs[n]? = some x → ys[n]? = some y → R x z → S y z → x = y) :
    xs = ys := by
  induction hx generalizing ys with
  | nil =>
    cases hy
    rfl
  | cons hR _ ih =>
    cases hy with
    | cons hS hrest => rw [h 0 _ _ _ rfl rfl hR hS, ih hrest fun n => h (n + 1)]

theorem map_eq_map {γ : Type} {R : α → β → Prop} {f : α → γ} {g : β → γ}
    (hR : ∀ x y, R x y → f x = g y) {xs : List α} {ys : List β}
    (h : List.Forall₂ R xs ys) : xs.map f = ys.map g := by
  induction h with
  | nil => rfl
  | cons hxy _ ih => rw [List.map_cons, List.map_cons, hR _ _ hxy, ih]

theorem mapM_isOk_iff {f : α → Except ε β} {xs : List α} : (∃ ys, xs.mapM f = .ok ys) ↔
    ∀ x ∈ xs, ∃ y, f x = .ok y := by
  constructor
  · rintro ⟨ys, h⟩ x hx
    have hall := mapM_eq_ok.1 h
    clear h
    induction hall with
    | nil => simp at hx
    | cons hy _ ih =>
      rcases List.mem_cons.1 hx with rfl | hx
      · exact ⟨_, hy⟩
      · exact ih hx
  · intro h
    induction xs with
    | nil => exact ⟨[], rfl⟩
    | cons x xs ih =>
      obtain ⟨y, hy⟩ := h x List.mem_cons_self
      obtain ⟨ys, hys⟩ := ih fun z hz => h z (List.mem_cons_of_mem _ hz)
      exact ⟨y :: ys, mapM_eq_ok.2 (.cons hy (mapM_eq_ok.1 hys))⟩

theorem foldlM_isOk_iff {f : β → α → Except ε β} {xs : List α} {start : β} :
    (∃ r, xs.foldlM f start = .ok r) ↔
      ∀ before x after reached, xs = before ++ x :: after → before.foldlM f start = .ok reached →
        ∃ r, f reached x = .ok r := by
  induction xs generalizing start with
  | nil => simp [pure, Except.pure]
  | cons x xs ih =>
    rw [List.foldlM_cons, bind_isOk_iff]
    constructor
    · rintro ⟨next, hnext, hrest⟩ before y after reached hsplit hbefore
      cases before with
      | nil =>
        obtain ⟨rfl, rfl⟩ : x = y ∧ xs = after := by simpa using hsplit
        cases hbefore
        exact ⟨next, hnext⟩
      | cons z before =>
        obtain ⟨rfl, rfl⟩ : x = z ∧ xs = before ++ y :: after := by simpa using hsplit
        rw [List.foldlM_cons, bind_eq_ok] at hbefore
        obtain ⟨next', hnext', hbefore⟩ := hbefore
        obtain rfl : next = next' := by simpa using hnext.symm.trans hnext'
        exact ih.1 hrest before y after reached rfl hbefore
    · intro h
      obtain ⟨next, hnext⟩ := h [] x xs start rfl rfl
      refine ⟨next, hnext, ih.2 fun before y after reached hsplit hbefore => ?_⟩
      exact h (x :: before) y after reached (by rw [hsplit]; rfl)
        (by rw [List.foldlM_cons, hnext]; exact hbefore)

theorem foldlM_isOk_iff_forall {f : β → α → Except ε β} {P : α → Prop}
    (h : ∀ reached x, (∃ r, f reached x = .ok r) ↔ P x)
    {xs : List α} {start : β} : (∃ r, xs.foldlM f start = .ok r) ↔ ∀ x ∈ xs, P x := by
  induction xs generalizing start with
  | nil => simp [pure, Except.pure]
  | cons x xs ih =>
    rw [List.foldlM_cons, bind_isOk_iff, List.forall_mem_cons, ← h start x]
    constructor
    · rintro ⟨next, hnext, hrest⟩
      exact ⟨⟨next, hnext⟩, ih.1 hrest⟩
    · rintro ⟨⟨next, hnext⟩, hrest⟩
      exact ⟨next, hnext, ih.2 hrest⟩

/-! ## Verdicts -/

theorem filterAuxM_eq_ok [DecidableEq ε] {f : α → Except ε Bool} {xs done ys : List α} :
    xs.filterAuxM f done = .ok ys ↔ (∀ x ∈ xs, ∃ b, f x = .ok b) ∧
      ys = (xs.filter fun x => f x = .ok true).reverse ++ done := by
  induction xs generalizing done with
  | nil => simp [List.filterAuxM, pure, Except.pure, eq_comm]
  | cons x xs ih =>
    rw [List.filterAuxM, bind_eq_ok, List.forall_mem_cons]
    constructor
    · rintro ⟨b, hb, h⟩
      obtain ⟨hall, rfl⟩ := ih.1 h
      refine ⟨⟨⟨b, hb⟩, hall⟩, ?_⟩
      cases b <;> simp [hb]
    · rintro ⟨⟨⟨b, hb⟩, hall⟩, rfl⟩
      refine ⟨b, hb, ih.2 ⟨hall, ?_⟩⟩
      cases b <;> simp [hb]

/-- A selection has a result if every element has a verdict, and keeps those that are accepted. -/
theorem filterM_eq_ok [DecidableEq ε] {f : α → Except ε Bool} {xs ys : List α} :
    xs.filterM f = .ok ys ↔ (∀ x ∈ xs, ∃ b, f x = .ok b) ∧ ys = xs.filter fun x =>
      f x = .ok true := by
  rw [List.filterM, bind_eq_ok]
  constructor
  · rintro ⟨found, hfound, h⟩
    obtain ⟨hall, rfl⟩ := filterAuxM_eq_ok.1 hfound
    cases h
    exact ⟨hall, by simp⟩
  · rintro ⟨hall, rfl⟩
    exact ⟨_, filterAuxM_eq_ok.2 ⟨hall, rfl⟩, by simp [pure, Except.pure]⟩

theorem allM_eq_true_iff {f : α → Except ε Bool} {xs : List α} : xs.allM f = .ok true ↔
    ∀ x ∈ xs, f x = .ok true := by
  induction xs with
  | nil => simp [pure, Except.pure]
  | cons x xs ih =>
    rw [List.allM_cons, bind_eq_ok, List.forall_mem_cons, ← ih]
    constructor
    · rintro ⟨b, hb, h⟩
      cases b with
      | true => exact ⟨hb, h⟩
      | false => cases h
    · rintro ⟨hx, hrest⟩
      exact ⟨true, hx, hrest⟩

theorem allM_of_mapM {f : α → Except ε Bool} {xs : List α} {verdicts : List Bool}
    (h : xs.mapM f = .ok verdicts) :
    xs.allM f = .ok (verdicts.all id) := by
  have hall := mapM_eq_ok.1 h
  clear h
  induction hall with
  | nil => rfl
  | @cons _ verdict _ _ hx _ ih =>
    rw [List.allM_cons, hx]
    cases verdict with
    | true => exact ih
    | false => rfl

end Checklist.Result
