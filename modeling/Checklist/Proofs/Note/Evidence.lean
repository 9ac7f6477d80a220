import Checklist.Note.File
import Checklist.Proofs.Value.Faithful

/-! # What a checksum says of a note

The evidence of a note is its content and, on one more line, the canonical text of its header and of
the data of its project file. Main statement: two notes at one place with the same evidence are the
same note, as far as their texts tell their data apart (`eq_of_checksum`). -/

namespace Checklist.Note
set_option autoImplicit false
open Text

/-- The data that comes with a note: its header and what its project file holds. -/
def context (note : Note) : Value :=
  .list [orNull note.header, orNull note.file]

theorem evidence_eq_ok {note : Note} {s : Text} (h : note.evidence = .ok s) :
    ∃ line, Json.writeAt Value.display .canonical 0 note.context = .ok line ∧
      s = note.content ++ '\n' :: line := by
  obtain ⟨line, hline, h⟩ := Result.bind_eq_ok.1 h
  cases h
  exact ⟨line, hline, rfl⟩

theorem append_line_inj {s t line other : Text} (hline : '\n' ∉ line) (hother : '\n' ∉ other)
    (h : s ++ '\n' :: line = t ++ '\n' :: other) :
    s = t ∧ line = other := by
  have hcut : ∀ {s line : Text}, '\n' ∉ line → cut '\n' (s ++ '\n' :: line).reverse =
      (line.reverse, some s.reverse) := by
    intro s line hline
    have hreverse : (s ++ '\n' :: line).reverse = line.reverse ++ '\n' :: s.reverse := by simp
    rw [hreverse]
    exact cut_append fun hmem => hline (List.mem_reverse.1 hmem)
  have hsame := congrArg (fun s => cut '\n' s.reverse) h
  simp only [hcut hline, hcut hother, Prod.mk.injEq, Option.some.injEq, List.reverse_inj] at hsame
  exact ⟨hsame.2, hsame.1⟩

theorem orNull_inj {entries others : Option Entries} (h : orNull entries = orNull others) :
    entries = others := by
  cases entries <;> cases others <;> cases h <;> rfl

/-- The digests of the evidence of two notes are equal only if the evidence is. -/
def DigestsDecide (note other : Note) : Prop :=
  ∀ s t, note.evidence = .ok s → other.evidence = .ok t →
    Sha256.hexDigest (utf8 s) = Sha256.hexDigest (utf8 t) → s = t

theorem DigestsDecide.refl (note : Note) : DigestsDecide note note :=
  fun _ _ hs ht _ => Except.ok.inj (hs.symm.trans ht)

theorem digestsDecide_of_ne {note other : Note} (h : note.checksum ≠ other.checksum) :
    DigestsDecide note other := by
  intro s t hs ht hdigest
  rw [checksum, checksum, hs, ht] at h
  exact absurd (congrArg Except.ok hdigest) h

/-- The texts of the headers and of the data of the project files tell them apart. -/
def Faithful (note other : Note) : Prop :=
  Json.Faithful (orNull note.header) (orNull other.header) ∧
    Json.Faithful (orNull note.file) (orNull other.file)

theorem Faithful.context {note other : Note} (h : Faithful note other) :
    Json.Faithful note.context other.context := by
  refine .list fun n v w hv hw => ?_
  rcases n with _ | _ | n
  · cases hv
    cases hw
    exact h.1
  · cases hv
    cases hw
    exact h.2
  · cases hv

/-- Notes with one checksum have the same content, and data that are written the same. -/
theorem same_of_checksum {note other : Note} (hdigest : DigestsDecide note other) {checksum : Text}
    (h : note.checksum = .ok checksum) (h' : other.checksum = .ok checksum) :
    note.content = other.content ∧ ∃ line,
      Json.writeAt Value.display .canonical 0 note.context = .ok line ∧
      Json.writeAt Value.display .canonical 0 other.context = .ok line := by
  obtain ⟨s, hs, rfl⟩ := Result.map_eq_ok.1 h
  obtain ⟨t, ht, hsum⟩ := Result.map_eq_ok.1 h'
  obtain rfl := hdigest s t hs ht hsum.symm
  obtain ⟨line, hline, rfl⟩ := evidence_eq_ok hs
  obtain ⟨line', hline', heq⟩ := evidence_eq_ok ht
  obtain ⟨hcontent, rfl⟩ :=
    append_line_inj (Json.notMem_writeAt hline) (Json.notMem_writeAt hline') heq
  exact ⟨hcontent, line, hline, hline'⟩

/-- Notes at one place with one checksum are the same note. -/
theorem eq_of_checksum {note other : Note} (hpath : note.path = other.path)
    (hdigest : DigestsDecide note other)
    (hfaithful : Faithful note other) {checksum : Text} (h : note.checksum = .ok checksum)
    (h' : other.checksum = .ok checksum) :
    note = other := by
  obtain ⟨hcontent, line, hline, hline'⟩ := same_of_checksum hdigest h h'
  have hcontext := hfaithful.context.eq_of_writeAt hline hline'
  simp only [context, Value.list.injEq, List.cons.injEq, and_true] at hcontext
  cases note
  cases other
  rw [Note.mk.injEq]
  exact ⟨hpath, hcontent, orNull_inj hcontext.1, orNull_inj hcontext.2⟩

end Checklist.Note
