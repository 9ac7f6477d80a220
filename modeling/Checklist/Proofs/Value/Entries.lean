import Checklist.Value.Basic
import Mathlib.Tactic.Common

/-! # Entries set over other entries

Setting the entries of one mapping over those of another keeps the places of the keys that both
have. Main statement: what comes out is the first mapping with the values of the second, and behind
it the keys that only the second has (`update_eq`). -/

namespace Checklist
set_option autoImplicit false

namespace Value

/-! ## Keys -/

inductive Identity where
  | null
  | number (n : Int)
  | float (x : Binary64)
  | str (s : Text)
  | bytes (octets : List UInt8)
  | date (d : Date)
  | moment (m : Moment)
  | instant (micros : Int)
  deriving DecidableEq

/-- What a value is known by as a key; collections are no keys. -/
def identity? (value : Value) : Option Identity :=
  match value.integral?, value with
  | some n, _ => some (.number n)
  | none, .null => some .null
  | none, .float x => some (.float x)
  | none, .str s => some (.str s)
  | none, .bytes octets => some (.bytes octets)
  | none, .date d => some (.date d)
  | none, .moment m none => some (.moment m)
  | none, .moment m (some offset) => some (.instant (m.seconds * 1000000 + m.micro - offset))
  | none, _ => none

theorem sameKey_iff {a b : Value} :
    a.sameKey b = true ↔ ∃ identity, b.identity? = some identity ∧ a.identity? = some identity := by
  unfold sameKey identity?
  cases a.integral? with
  | some m => cases b.integral? with
    | some n => simp
    | none => cases b with
      | moment m offset => cases offset <;> simp
      | _ => simp
  | none => cases b.integral? with
    | some n => cases a with
      | moment m offset => cases offset <;> simp
      | _ => simp
    | none => cases a with
      | moment m offset => cases b with
        | moment n other => cases offset <;> cases other <;> simp
        | _ => cases offset <;> simp
      | _ => cases b with
        | moment n offset => cases offset <;> simp
        | _ => simp

theorem isSome_identity?_of_isKey {key : Value} (h : key.isKey = true) :
    key.identity?.isSome = true := by
  cases key with
  | float x =>
    unfold identity?
    cases (Value.float x).integral? <;> rfl
  | moment m offset => cases offset <;> rfl
  | list | map | set | ring => cases h
  | _ => rfl

theorem sameKey_self_of_isKey {key : Value} (h : key.isKey = true) : key.sameKey key = true := by
  obtain ⟨identity, hidentity⟩ := Option.isSome_iff_exists.1 (isSome_identity?_of_isKey h)
  exact sameKey_iff.2 ⟨identity, hidentity, hidentity⟩

theorem sameKey_comm (a b : Value) : a.sameKey b = b.sameKey a := by
  rw [Bool.eq_iff_iff, sameKey_iff, sameKey_iff]
  exact exists_congr fun _ => and_comm

theorem sameKey_congr {a b : Value} (h : a.sameKey b = true) (other : Value) :
    a.sameKey other = b.sameKey other := by
  obtain ⟨identity, hb, ha⟩ := sameKey_iff.1 h
  rw [Bool.eq_iff_iff, sameKey_iff, sameKey_iff, ha, hb]

theorem sameKey_str_self (word : Text) : (Value.str word).sameKey (.str word) = true :=
  sameKey_iff.2 ⟨.str word, rfl, rfl⟩

theorem isFoundAs_self (key : Value) : key.isFoundAs key = true := by
  unfold isFoundAs
  cases key.sameKey key <;> rfl

theorem str_isFoundAs (word : Text) (key : Value) :
    (Value.str word).isFoundAs key = (Value.str word).sameKey key := by
  rw [isFoundAs, sameKey_str_self, Bool.not_true, Bool.false_and, Bool.or_false]

theorem isFoundAs_str (word : Text) (key : Value) :
    key.isFoundAs (.str word) = (Value.str word).sameKey key := by
  rw [isFoundAs, sameKey_str_self, Bool.not_true, Bool.and_false, Bool.or_false, sameKey_comm]

theorem eq_str_of_sameKey {key : Value} {word : Text} (h : key.sameKey (.str word) = true) :
    key = .str word := by
  obtain ⟨identity, hword, hkey⟩ := sameKey_iff.1 h
  cases hword
  unfold identity? at hkey
  split at hkey <;> try cases hkey
  rfl

end Value

namespace Entries

variable {file header : Entries} {key value : Value}

/-! ## Mappings -/

def IsMapping (entries : Entries) : Prop :=
  entries.Pairwise fun entry later => entry.1.sameKey later.1 = false

theorem get?_cons (entry : Value × Value) (entries : Entries) (key : Value) :
    get? (entry :: entries) key = if entry.1.sameKey key = true then
      some entry.2 else get? entries key := by
  rw [get?, List.find?_cons]
  cases entry.1.sameKey key <;> rfl

theorem exists_of_get? {value : Value} (h : header.get? key = some value) :
    ∃ other, (other, value) ∈ header ∧ other.sameKey key = true := by
  obtain ⟨entry, hfind, rfl⟩ := Option.map_eq_some_iff.1 h
  exact ⟨entry.1, List.mem_of_find?_eq_some hfind, by simpa using List.find?_some hfind⟩

theorem get?_of_mem (hheader : header.IsMapping) {other : Value} {value : Value}
    (hmem : (other, value) ∈ header) (hsame : other.sameKey key = true) :
    header.get? key = some value := by
  induction header with
  | nil => cases hmem
  | cons entry header ih =>
    obtain ⟨hentry, hheader⟩ := List.pairwise_cons.1 hheader
    rw [get?_cons]
    rcases List.mem_cons.1 hmem with rfl | hmem
    · rw [if_pos hsame]
    · have hne : ¬entry.1.sameKey key = true := by
        rw [Value.sameKey_comm, ← Value.sameKey_congr hsame, Value.sameKey_comm, hentry _ hmem]
        exact Bool.false_ne_true
      rw [if_neg hne, ih hheader hmem]

theorem get?_eq_none_iff : header.get? key = none ↔ header.has key = false := by
  rw [get?, Option.map_eq_none_iff, List.find?_eq_none, has, List.any_eq_false]

theorem map_set_of_has (h : file.has key = true) :
    (file.set key value).map (·.1) = file.map (·.1) := by
  rw [set, if_pos h, List.map_map]
  refine List.map_congr_left fun entry _ => ?_
  rw [Function.comp_apply]
  split <;> rfl

theorem has_eq_any (entries : Entries) (key : Value) :
    entries.has key = (entries.map (·.1)).any (·.sameKey key) := by
  rw [has, List.any_map]
  rfl

/-- Setting entries keeps the keys that are there, with the values that are set, and adds
the others. -/
theorem update_eq (hheader : header.IsMapping) : file.update header =
    file.map (fun entry => (entry.1, (header.get? entry.1).getD entry.2)) ++
      header.filter fun entry => !file.has entry.1 := by
  induction header generalizing file with
  | nil => exact (List.map_id' file).symm.trans (List.append_nil _).symm
  | cons entry header ih =>
    obtain ⟨key, value⟩ := entry
    obtain ⟨hkey, hheader⟩ := List.pairwise_cons.1 hheader
    show (file.set key value).update header = _
    rw [ih hheader]
    by_cases hhas : file.has key = true
    · -- the key does not come again, so what is set for it now stays
      have hagain : ∀ other, key.sameKey other = true → get? header other = none := by
        intro other hsame
        refine get?_eq_none_iff.2 (List.any_eq_false.2 fun entry hentry => ?_)
        rw [Value.sameKey_comm, ← Value.sameKey_congr hsame, hkey entry hentry]
        exact Bool.false_ne_true
      have hrest : ∀ other, (file.set key value).has other = file.has other := fun other => by
        rw [has_eq_any, map_set_of_has hhas, ← has_eq_any]
      simp only [hrest]
      rw [List.filter_cons_of_neg (by simp [hhas]), set, if_pos hhas, List.map_map]
      refine congrArg (· ++ _) (List.map_congr_left fun entry _ => ?_)
      rw [Function.comp_apply, get?_cons, Value.sameKey_comm key]
      by_cases hsame : entry.1.sameKey key = true
      · rw [if_pos hsame, if_pos hsame, hagain _ (by rwa [Value.sameKey_comm])]
        rfl
      · rw [if_neg hsame, if_neg hsame]
    · have hfile : ∀ entry ∈ file, entry.1.sameKey key = false := by simpa [has] using hhas
      have hnone : get? header key = none := by
        refine get?_eq_none_iff.2 (List.any_eq_false.2 fun entry hentry => ?_)
        rw [Value.sameKey_comm, hkey entry hentry]
        exact Bool.false_ne_true
      have hset : file.set key value = file ++ [(key, value)] := by rw [set, if_neg hhas]
      have hrest : ∀ entry ∈ header, (file.set key value).has entry.1 = file.has entry.1 := by
        intro entry hentry
        rw [hset, has, List.any_append, List.any_cons, List.any_nil, hkey entry hentry,
          Bool.or_false, Bool.or_false]
        rfl
      rw [List.filter_cons_of_pos (by simp [hhas]), List.filter_congr fun entry hentry =>
        congrArg Bool.not (hrest entry hentry), hset,
        List.map_append, List.map_singleton, hnone, List.append_assoc]
      refine congrArg (· ++ _) (List.map_congr_left fun entry hentry => ?_)
      rw [get?_cons, Value.sameKey_comm, hfile entry hentry, if_neg Bool.false_ne_true]

end Entries
end Checklist
