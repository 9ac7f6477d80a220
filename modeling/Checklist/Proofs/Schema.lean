import Checklist.Schema
import Mathlib.Data.List.Forall2

/-! # What a schema reads

A value is read if each of its parts is; where the parts stand, and under which names, makes no
difference to what is read. Main statements: parts that are read next to each other
(`Checked.seq_eq_ok`), and a list is read item by item (`listOf_eq_ok_iff`). -/

namespace Checklist.Schema
set_option autoImplicit false

variable {α β : Type}

/-! ## Reading with issues -/

namespace Checked

theorem map_eq_ok {f : α → β} {a : Checked α} {b : β} :
    a.map f = .ok b ↔ ∃ x, a = .ok x ∧ f x = b := by
  cases a with
  | ok x => simp [map]
  | issues first rest => simp [map]

theorem seq_eq_ok {f : Checked (α → β)} {a : Checked α} {b : β} :
    f <*> a = .ok b ↔ ∃ g x, f = .ok g ∧ a = .ok x ∧ g x = b := by
  cases f with
  | issues first rest => simp [Seq.seq, seq]
  | ok g => cases a <;> simp [Seq.seq, seq]

theorem fmap_eq_ok {f : α → β} {a : Checked α} {b : β} :
    f <$> a = .ok b ↔ ∃ x, a = .ok x ∧ f x = b := by
  rw [← map_eq_ok]
  cases a <;> rfl

theorem andThen_eq_ok {a : Checked α} {f : α → Checked β} {b : β} : a.andThen f = .ok b ↔
    ∃ x, a = .ok x ∧ f x = .ok b := by
  cases a with
  | ok x => simp [andThen]
  | issues first rest => simp [andThen]

theorem under_eq_ok {step : Text} {a : Checked α} {x : α} : a.under step = .ok x ↔ a = .ok x := by
  cases a with
  | ok y => simp [under]
  | issues first rest => simp [under]

theorem all_eq_ok {parts : List (Checked α)} {xs : List α} : all parts = .ok xs ↔
    List.Forall₂ (fun a x => a = .ok x) parts xs := by
  induction parts generalizing xs with
  | nil => cases xs <;> simp [all]
  | cons a rest ih =>
    constructor
    · intro h
      obtain ⟨cons, others, hcons, hothers, rfl⟩ := seq_eq_ok.1 h
      obtain ⟨x, hx, rfl⟩ := map_eq_ok.1 hcons
      exact .cons hx (ih.1 hothers)
    · rintro (_ | ⟨hx, hothers⟩)
      exact seq_eq_ok.2 ⟨_, _, map_eq_ok.2 ⟨_, hx, rfl⟩, ih.2 hothers, rfl⟩

theorem toExcept_eq_ok {a : Checked α} {x : α} : a.toExcept = .ok x ↔ a = .ok x := by
  cases a <;> simp [toExcept]

end Checked

/-! ## Lists and records -/

theorem all_mapIdx_eq_ok {schema : Schema α} {items : List Value} {xs : List α} :
    Checked.all (items.mapIdx fun number item => (schema item).under (Text.ofNat number)) = .ok xs ↔
      List.Forall₂ (fun item x => schema item = .ok x) items xs := by
  rw [Checked.all_eq_ok, List.forall₂_iff_get, List.forall₂_iff_get]
  simp [Checked.under_eq_ok]

theorem listOf_eq_ok_iff {schema : Schema α} {value : Value} {xs : List α} :
    listOf schema value = .ok xs ↔ ∃ items, listOf .ok value = .ok items ∧
      List.Forall₂ (fun item x => schema item = .ok x) items xs := by
  cases value with
  | list items | set items => simp [listOf, all_mapIdx_eq_ok]
  | _ => simp [listOf, Checked.fail]

theorem optional_listOf_eq_ok_iff {names : List String} {schema : Schema α}
    {entries : Entries} {xs : List α} :
    optional names [] (listOf schema) entries = .ok xs ↔
      ∃ items, optional names [] (listOf .ok) entries = .ok items ∧
        List.Forall₂ (fun item x => schema item = .ok x) items xs := by
  unfold optional
  cases entry? names entries with
  | none => simp [eq_comm]
  | some entry =>
    rw [Checked.under_eq_ok, listOf_eq_ok_iff]
    simp only [Checked.under_eq_ok]

theorem listOf_map_eq_ok {schema : Schema α} {write : α → Value} (h : ∀ x, schema (write x) = .ok x)
    (xs : List α) :
    listOf schema (.list (xs.map write)) = .ok xs := by
  rw [listOf, all_mapIdx_eq_ok, List.forall₂_map_left_iff, List.forall₂_same]
  exact fun x _ => h x

theorem listOf_text (texts : List Text) : listOf text (.list (texts.map Value.str)) = .ok texts :=
  @listOf_map_eq_ok _ text Value.str (fun _ => rfl) texts

theorem texts_map (pairs : List (Text × Text)) :
    texts (.map (pairs.map fun pair => (.str pair.1, .str pair.2))) = .ok pairs := by
  rw [texts, Checked.all_eq_ok, List.map_map, List.forall₂_map_left_iff, List.forall₂_same]
  exact fun pair _ => rfl

theorem eq_or_exists_of_optional {names : List String} {default a : α}
    {schema : Schema α} {entries : Entries} (h : optional names default schema entries = .ok a) :
    a = default ∨ ∃ value, schema value = .ok a := by
  unfold optional at h
  split at h
  · exact .inr ⟨_, Checked.under_eq_ok.1 h⟩
  · exact .inl (Checked.ok.inj h).symm

theorem record_eq_ok_iff {name : String} {fields : Entries → Checked α} {value : Value} {a : α} :
    record name fields value = .ok a ↔ ∃ entries, value = .map entries ∧
      fields entries = .ok a := by
  cases value <;> simp [record, Checked.fail]

theorem tagged_eq_ok_iff {tag : String} {options : List (Text × Schema α)} {value : Value} {a : α} :
    tagged tag options value = .ok a ↔ ∃ entries name schema, value = .map entries ∧
      Entries.getText? entries tag.toList = some (.str name) ∧ options.lookup name = some schema ∧
        schema (.map entries) = .ok a := by
  cases value with
  | map entries =>
    cases htag : Entries.getText? entries tag.toList with
    | none => simp [tagged, htag, Checked.fail]
    | some given =>
      cases given with
      | str name =>
        cases hschema : options.lookup name <;>
          simp [tagged, htag, hschema, Value.str?, Checked.fail, Checked.under_eq_ok]
      | _ => simp [tagged, htag, Value.str?, Checked.fail]
  | _ => simp [tagged, Checked.fail]

theorem check_eq_ok_iff {schema : Schema α} {condition : α → Except Text β}
    {value : Value} {b : β} :
    check schema condition value = .ok b ↔ ∃ a, schema value = .ok a ∧ condition a = .ok b := by
  rw [check, Checked.andThen_eq_ok]
  refine exists_congr fun a => and_congr_right fun _ => ?_
  cases condition a <;> simp [Checked.fail]

theorem le_of_atLeast {bound n : Nat} {value : Value} (h : atLeast bound value = .ok n) :
    bound ≤ n := by
  obtain ⟨m, -, hm⟩ := Checked.andThen_eq_ok.1 h
  split at hm
  · cases hm
  · obtain rfl := Checked.ok.inj hm
    omega

theorem mem_of_named {cause : List Text → Cause} {options : List (Text × α)} {value : Value} {a : α}
    (h : named cause options value = .ok a) :
    a ∈ options.map (·.2) := by
  unfold named at h
  split at h
  · next found =>
    obtain rfl := Checked.ok.inj h
    obtain ⟨name, -, hname⟩ := Option.bind_eq_some_iff.1 found
    obtain ⟨before, after, rfl, -⟩ := List.lookup_eq_some_iff.1 hname
    simp
  · cases h

end Checklist.Schema
