import Checklist.Note.File
import Checklist.Proofs.Value.Canonical

/-! # Values that have a canonical text

Keys of mappings become strings and are sorted, integers have limited length, and a value that holds
itself has no end. Main statements: a value is written exactly if it has no key that cannot be, no
keys of two kinds in one mapping, no integer that is too long and nothing that holds itself
(`writeAt_isOk_iff`), and so a note has a checksum exactly if its data are such
(`checksum_isOk_iff`). -/

namespace Checklist
set_option autoImplicit false
open Text

namespace Json

/-! ## Mappings -/

/-- The keys of a mapping can be written and sorted: each becomes a string, and where there are
several they are all texts or all numbers. -/
def AreKeys (keys : List Value) : Prop :=
  (∀ key ∈ keys, (keyText? key).isSome = true ∧ key.isWritable = true) ∧
    (keys.length = 1 ∨ ∀ key ∈ keys, ∀ other ∈ keys, (keyLe? key other).isSome = true)

theorem writeMember_isOk_iff {pair : Value × Text} :
    (∃ member, writeMember .canonical pair.1 pair.2 = .ok member) ↔
    (keyText? pair.1).isSome = true ∧ pair.1.isWritable = true := by
  unfold writeMember
  cases keyText? pair.1 with
  | none => simp
  | some name => cases pair.1.isWritable <;> simp

theorem sortEntries?_isSome_iff {written : List (Value × Text)} :
    (∃ ordered, sortEntries? written = some ordered) ↔
    (written.map Prod.fst).length = 1 ∨ ∀ key ∈ written.map Prod.fst,
      ∀ other ∈ written.map Prod.fst, (keyLe? key other).isSome = true := by
  unfold sortEntries?
  by_cases hone : written.length = 1
  · simp [hone]
  · simp [hone]

theorem writeMembers_isOk_iff {written : List (Value × Text)} :
    (∃ members, writeMembers .canonical written = .ok members) ↔
    AreKeys (written.map Prod.fst) := by
  unfold writeMembers AreKeys
  rw [← sortEntries?_isSome_iff]
  cases hsort : sortEntries? written with
  | none => simp [Style.canonical]
  | some ordered =>
    have hperm := perm_of_sortEntries? hsort
    have hall :
        (∃ members, ordered.mapM (fun pair => writeMember .canonical pair.1 pair.2) = .ok members) ↔
        ∀ key ∈ written.map Prod.fst, (keyText? key).isSome = true ∧ key.isWritable = true := by
      rw [Result.mapM_isOk_iff]
      simp only [writeMember_isOk_iff, List.forall_mem_map, hperm.mem_iff]
    simpa [Style.canonical, hsort] using hall

/-! ## Values -/

mutual

def HasText : Value → Prop
  | .list items => HaveTexts items
  | .map entries => ValuesHaveTexts entries ∧ AreKeys (entries.map Prod.fst)
  | .ring _ => False
  | value => value.isWritable = true

def HaveTexts : List Value → Prop
  | [] => True
  | item :: rest => HasText item ∧ HaveTexts rest

def ValuesHaveTexts : List (Value × Value) → Prop
  | [] => True
  | (_, value) :: rest => HasText value ∧ ValuesHaveTexts rest

end

theorem fst_writeEntries {depth : Nat} {entries : Entries} {written : List (Value × Text)}
    (h : writeEntries Value.display .canonical depth entries = .ok written) :
    written.map Prod.fst = entries.map Prod.fst :=
  (Result.map_eq_map (fun _ _ hwritten => hwritten.1) (writeEntries_eq_ok h)).symm

theorem checked_isOk_iff {writable : Bool} {s : Text} {cause : Failure} :
    (∃ written, (if writable then Except.ok s else Except.error cause) = Except.ok written) ↔
      writable = true := by
  cases writable <;> simp

mutual

theorem writeAt_isOk_iff (depth : Nat) (value : Value) :
    (∃ s, writeAt Value.display .canonical depth value = .ok s) ↔ HasText value := by
  cases value with
  | list items =>
    rw [writeAt, HasText, ← writeItems_isOk_iff (depth + 1) items, Result.bind_isOk_iff]
    exact exists_congr fun parts => and_iff_left ⟨_, rfl⟩
  | map entries =>
    rw [writeAt, HasText, ← writeEntries_isOk_iff (depth + 1) entries, Result.bind_isOk_iff]
    constructor
    · rintro ⟨written, hwritten, hmembers⟩
      obtain ⟨members, hmembers, -⟩ := Result.bind_isOk_iff.1 hmembers
      exact ⟨⟨written, hwritten⟩,
        fst_writeEntries hwritten ▸ writeMembers_isOk_iff.1 ⟨members, hmembers⟩⟩
    · rintro ⟨⟨written, hwritten⟩, hkeys⟩
      obtain ⟨members, hmembers⟩ := writeMembers_isOk_iff.2 (fst_writeEntries hwritten ▸ hkeys)
      exact ⟨written, hwritten, Result.bind_isOk_iff.2 ⟨members, hmembers, _, rfl⟩⟩
  | null | bool b | float x | str s | bytes octets | date d | moment m offset =>
    exact iff_of_true ⟨_, rfl⟩ rfl
  | ring isMapping =>
    rw [writeAt, HasText]
    simp
  | int n => exact checked_isOk_iff
  | set items => exact checked_isOk_iff
termination_by structural value

theorem writeItems_isOk_iff (depth : Nat) (items : List Value) :
    (∃ parts, writeItems Value.display .canonical depth items = .ok parts) ↔ HaveTexts items := by
  cases items with
  | nil => exact iff_of_true ⟨_, rfl⟩ trivial
  | cons item rest =>
    rw [writeItems, HaveTexts, ← writeAt_isOk_iff depth item, ← writeItems_isOk_iff depth rest]
    exact Result.both_isOk_iff
termination_by structural items

theorem writeEntries_isOk_iff (depth : Nat) (entries : List (Value × Value)) :
    (∃ written, writeEntries Value.display .canonical depth entries = .ok written) ↔
      ValuesHaveTexts entries := by
  cases entries with
  | nil => exact iff_of_true ⟨_, rfl⟩ trivial
  | cons entry rest =>
    obtain ⟨key, value⟩ := entry
    rw [writeEntries, ValuesHaveTexts, ← writeAt_isOk_iff depth value,
      ← writeEntries_isOk_iff depth rest]
    exact Result.both_isOk_iff
termination_by structural entries

end

end Json

theorem Note.checksum_isOk_iff {note : Note} :
    (∃ checksum, note.checksum = .ok checksum) ↔ Json.HasText (Note.orNull note.header) ∧
      Json.HasText (Note.orNull note.file) := by
  rw [checksum, Result.map_isOk_iff, evidence, Result.bind_isOk_iff]
  have hcontext : Json.HasText (.list [Note.orNull note.header, Note.orNull note.file]) ↔
      Json.HasText (Note.orNull note.header) ∧ Json.HasText (Note.orNull note.file) := by
    simp only [Json.HasText, Json.HaveTexts, and_true]
  rw [← hcontext, ← Json.writeAt_isOk_iff 0]
  exact exists_congr fun context => and_iff_left ⟨_, rfl⟩

end Checklist
