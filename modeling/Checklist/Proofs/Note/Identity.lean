import Checklist.Proofs.Note.Completion
import Checklist.Proofs.Text

/-! # The identity of tasks

A task is known by the path of its note and by the number of its line. Main statements: the two are
read back from an id (`idOf_inj`), also where a path itself ends like an id, and the tasks of a note
are labelled with its path and with line numbers that ascend (`labelled_tasks`). -/

namespace Checklist
set_option autoImplicit false
open Text

/-! ## Ids -/

namespace Text

theorem append_digits_inj {s t d e : Text} {c : Char} (hc : c.isDigit = false)
    (hd : ∀ x ∈ d, x.isDigit = true)
    (he : ∀ x ∈ e, x.isDigit = true) (h : s ++ c :: d = t ++ c :: e) : s = t ∧ d = e := by
  have hrev := congrArg List.reverse h
  simp only [List.reverse_append, List.reverse_cons, List.append_assoc, List.singleton_append] at hrev
  have hdigits : d.reverse = e.reverse := by
    have htake := congrArg (List.takeWhile Char.isDigit) hrev
    rw [List.takeWhile_append_of_pos (by simpa using hd),
      List.takeWhile_append_of_pos (by simpa using he)] at htake
    simpa [hc] using htake
  rw [hdigits] at hrev
  have hrest := List.append_cancel_left hrev
  exact ⟨by simpa using hrest, by simpa using hdigits⟩

end Text

namespace Task

theorem idOf_ofNat (path : Text) (line : Nat) :
    idOf path line = (path ++ ['-']) ++ 'L' :: ofNat line := by
  simp [idOf, ofInt]

/-- An id names one path and one line, whatever the path looks like. -/
theorem idOf_inj {path other : Text} {line number : Nat} (h : idOf path line = idOf other number) :
    path = other ∧ line = number := by
  rw [idOf_ofNat, idOf_ofNat] at h
  obtain ⟨hpath, hline⟩ :=
    append_digits_inj (by decide) (fun _ => isDigit_of_mem_ofNat) (fun _ => isDigit_of_mem_ofNat) h
  exact ⟨List.append_cancel_right hpath, ofNat_inj hline⟩

/-- The task is labelled with a path, a line of it, and the id that the two make up. -/
structure IsLabelled (path : Text) (number : Nat) (task : Task) : Prop where
  path_eq : task.path = path
  line_eq : task.line = number
  id_eq : task.id = idOf path number

end Task

namespace Note

/-! ## Line numbers ascend -/

theorem pairwise_snd_zipIdx {α : Type} (xs : List α) (start : Nat) :
    (xs.zipIdx start).Pairwise fun a b => a.2 < b.2 := by
  induction xs generalizing start with
  | nil => simp
  | cons x xs ih =>
    rw [List.zipIdx_cons, List.pairwise_cons]
    exact ⟨fun entry hentry => (List.mem_zipIdx hentry).1, ih (start + 1)⟩

theorem sublist_find (settings : Settings) (reading : Reading) (lines : List (Text × Nat)) :
    ((find settings reading lines).map fun found => (found.line, found.number)).Sublist lines := by
  induction lines generalizing reading with
  | nil => simp [find]
  | cons entry rest ih =>
    obtain ⟨line, number⟩ := entry
    unfold find
    split
    · exact (ih _).cons _
    · simp
    · dsimp only
      split
      · exact (ih _).cons _
      · split
        · exact (ih _).cons _
        · split
          · exact (ih _).cons _
          · exact (ih _).cons _
          · exact (ih _).cons_cons _

theorem pairwise_number_taskLines (settings : Settings) (start : Nat) (s : Text) :
    (taskLines settings start s).Pairwise fun a b => a.number < b.number := by
  have hlines := (pairwise_snd_zipIdx (lines s) 0).sublist (List.drop_sublist start _)
  have hfound := hlines.sublist (sublist_find settings ⟨none, false, settings.lineLimit, 0⟩ _)
  rw [List.pairwise_map] at hfound
  exact hfound

/-! ## The tasks of a note -/

theorem forall₂_isLabelled_tasks {settings : Settings} {today : Date}
    {note : Note} {tasks : List Task} (h : note.tasks settings today = .ok tasks) :
    List.Forall₂ (fun found (task : Task) => task.IsLabelled note.path found.number)
      (note.found settings) tasks := by
  rw [← map_found_places, List.forall₂_map_left_iff]
  exact (forall₂_isPlaced_tasks h).imp fun _ _ hplace =>
    ⟨hplace.path_eq, hplace.line_eq, hplace.id_eq⟩

/-- Tasks labelled with one path and with ascending lines. -/
structure Labelled (path : Text) (tasks : List Task) : Prop where
  labels : ∀ task ∈ tasks, ∃ number : Nat, task.IsLabelled path number
  ascending : tasks.Pairwise fun a b => a.line < b.line

theorem labelled_tasks {settings : Settings} {today : Date} {note : Note} {tasks : List Task}
    (h : note.tasks settings today = .ok tasks) : Labelled note.path tasks := by
  have hall := forall₂_isLabelled_tasks h
  have hnumbers : (note.found settings).Pairwise fun a b => a.number < b.number :=
    pairwise_number_taskLines _ _ _
  clear h
  generalize note.found settings = found at hall hnumbers
  induction hall with
  | nil => exact ⟨by simp, .nil⟩
  | @cons found task founds tasks hlabel hrest ih =>
    rw [List.pairwise_cons] at hnumbers
    obtain ⟨hlabels, hascending⟩ := ih hnumbers.2
    refine ⟨?_, List.pairwise_cons.2 ⟨?_, hascending⟩⟩
    · intro other hother
      rcases List.mem_cons.1 hother with rfl | hother
      · exact ⟨_, hlabel⟩
      · exact hlabels other hother
    · intro other hother
      obtain ⟨later, hlater, hlaterLabel⟩ := Result.exists_left_of_mem hrest hother
      have hlt := hnumbers.1 later hlater
      rw [hlabel.line_eq, hlaterLabel.line_eq]
      exact_mod_cast hlt

theorem Labelled.nodup_ids {path : Text} {tasks : List Task} (h : Labelled path tasks) :
    (tasks.map Task.id).Nodup := by
  rw [List.nodup_iff_pairwise_ne, List.pairwise_map]
  refine h.ascending.imp_of_mem fun {a b} ha hb hlt hid => ?_
  obtain ⟨m, hm⟩ := h.labels a ha
  obtain ⟨n, hn⟩ := h.labels b hb
  rw [hm.id_eq, hn.id_eq] at hid
  rw [hm.line_eq, hn.line_eq, (Task.idOf_inj hid).2] at hlt
  exact Int.lt_irrefl _ hlt

end Note
end Checklist
