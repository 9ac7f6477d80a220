import Checklist.Folder
import Checklist.Proofs.Text
import Mathlib.Data.List.Nodup
import Mathlib.Data.List.Pairwise

/-! # Edits of a folder

Files are written and deleted under their paths. Main statements: routes that come of paths have
texts of their own (`Route.text_inj`), the files of a folder are some of those that were written
(`Folder.Traced.after`), and the notes of a directory have paths of their own
(`Folder.IsDirectory.nodup_texts`). -/

namespace Checklist
set_option autoImplicit false
open Text

/-! ## Routes -/

namespace Route

/-- The names of a route are not empty and hold no slash. -/
def IsPlain (route : Route) : Prop :=
  ∀ name ∈ route, name ≠ [] ∧ '/' ∉ name

theorem IsPlain.go {route : Route} (h : route.IsPlain) {name : Text} (hname : '/' ∉ name) :
    (route.go name).IsPlain := by
  unfold Route.go
  split
  · exact h
  · split
    · exact fun other hother => h other ((List.dropLast_sublist _).mem hother)
    · rename_i hne _
      intro other hother
      rcases List.mem_append.1 hother with hother | hother
      · exact h other hother
      · rw [List.mem_singleton.1 hother]
        exact ⟨by rintro rfl; simp at hne, hname⟩

theorem isPlain_ofText (path : Text) : (ofText path).IsPlain := by
  have hgo : ∀ (names : List Text) (route : Route), route.IsPlain → (∀ name ∈ names, '/' ∉ name) →
      (names.foldl Route.go route).IsPlain := by
    intro names
    induction names with
    | nil => exact fun route h _ => h
    | cons name names ih =>
      exact fun route h hnames =>
        ih (route.go name) (h.go (hnames name List.mem_cons_self)) fun other hother =>
          hnames other (List.mem_cons_of_mem _ hother)
  exact hgo _ [] (fun _ hname => absurd hname List.not_mem_nil) fun name hname =>
    notMem_of_mem_splitAt hname

theorem splitAt_text {route : Route} (hne : route ≠ []) (h : route.IsPlain) :
    splitAt '/' route.text = route := by
  induction route with
  | nil => exact absurd rfl hne
  | cons name rest ih =>
    have hname := (h name List.mem_cons_self).2
    cases rest with
    | nil => exact splitAt_of_notMem hname
    | cons next others =>
      have htext : text (name :: next :: others) =
          name ++ '/' :: text (next :: others) := by simp [text, join]
      rw [htext, splitAt, splitWhere_append_cons (by decide), ← splitAt, ← splitAt,
        splitAt_of_notMem hname,
        ih (by simp) fun other hother => h other (List.mem_cons_of_mem _ hother)]
      rfl

theorem text_ne_nil {route : Route} (hne : route ≠ []) (h : route.IsPlain) : route.text ≠ [] := by
  intro htext
  have hsplit := splitAt_text hne h
  rw [htext] at hsplit
  have hroute : route = [[]] := hsplit.symm
  exact (h [] (by simp [hroute])).1 rfl

/-- Routes with plain names are told apart by their texts. -/
theorem text_inj {route other : Route} (h : route.IsPlain) (h' : other.IsPlain)
    (htext : route.text = other.text) : route = other := by
  by_cases hne : route = []
  · subst hne
    by_contra hother
    exact text_ne_nil (Ne.symm hother) h' htext.symm
  · by_cases hne' : other = []
    · subst hne'
      exact absurd htext (text_ne_nil hne h)
    · rw [← splitAt_text hne h, htext, splitAt_text hne' h']

end Route

/-! ## Directories -/

namespace Folder

/-- Files as they lie in a directory: what is on the way to them are names, and no two lie
at one place. -/
structure IsDirectory (folder : Folder) : Prop where
  plain : ∀ entry ∈ folder, entry.1.IsPlain
  nodup : (folder.map Prod.fst).Nodup

theorem mem_below {folder : Folder} {route : Route} {entry : Route × StoredFile} :
    entry ∈ folder.below route ↔ entry.1 ≠ [] ∧ (route ++ entry.1, entry.2) ∈ folder := by
  obtain ⟨rest, file⟩ := entry
  simp only [below, List.mem_filterMap, Bool.and_eq_true, List.isPrefixOf_iff_prefix, decide_eq_true_eq]
  constructor
  · rintro ⟨⟨found, other⟩, hmem, hfound⟩
    split at hfound
    · next hbelow =>
      obtain ⟨⟨later, rfl⟩, hlt⟩ := hbelow
      rw [List.drop_left] at hfound
      cases hfound
      exact ⟨by rintro rfl; simp at hlt, hmem⟩
    · cases hfound
  · rintro ⟨hne, hmem⟩
    refine ⟨_, hmem, ?_⟩
    rw [if_pos ⟨List.prefix_append _ _, by simpa [List.length_pos_iff] using hne⟩, List.drop_left]

theorem IsDirectory.below {folder : Folder} (h : folder.IsDirectory) (route : Route) :
    (folder.below route).IsDirectory where
  plain entry hentry name hname :=
    h.plain _ (mem_below.1 hentry).2 name (List.mem_append_right _ hname)
  nodup := by
    rw [List.Nodup, List.pairwise_map, Folder.below, List.pairwise_filterMap]
    refine (List.pairwise_map.1 h.nodup).imp
      fun {entry other} hne below hbelow below' hbelow' heq => hne ?_
    split at hbelow <;> split at hbelow' <;> cases hbelow <;> cases hbelow'
    rename_i hprefix hprefix'
    simp only [Bool.and_eq_true, List.isPrefixOf_iff_prefix] at hprefix hprefix'
    exact (List.prefix_iff_eq_append.1 hprefix.1).symm.trans
      ((congrArg _ heq).trans (List.prefix_iff_eq_append.1 hprefix'.1))

/-- The notes of a directory have paths of their own. -/
theorem IsDirectory.nodup_texts {folder : Folder} (h : folder.IsDirectory) :
    (folder.notes.map fun entry => Route.text entry.1).Nodup := by
  have hperm : folder.notes.Perm (folder.filter fun entry => isNote entry.1) :=
    List.mergeSort_perm _ _
  have hroutes : (folder.notes.map Prod.fst).Nodup :=
    (hperm.map Prod.fst).nodup_iff.2 (h.nodup.sublist (List.filter_sublist.map _))
  have hmap : (folder.notes.map fun entry => Route.text entry.1) =
      (folder.notes.map Prod.fst).map Route.text := by
    rw [List.map_map]
    rfl
  rw [hmap]
  refine List.Nodup.map_on (fun route hroute other hother htext => ?_) hroutes
  have hplain : ∀ route ∈ folder.notes.map Prod.fst, route.IsPlain := by
    intro route hroute
    obtain ⟨entry, hentry, rfl⟩ := List.mem_map.1 hroute
    exact h.plain entry (mem_notes.1 hentry).1
  exact Route.text_inj (hplain route hroute) (hplain other hother) htext

end Folder

/-! ## Edits -/

/-- A change to one file of a folder. -/
inductive Edit where
  | write (path : Text) (file : StoredFile)
  | delete (path : Text)

namespace Edit

def apply (folder : Folder) : Edit → Folder
  | .write path file => folder.write (Route.ofText path) file
  | .delete path => folder.erase (Route.ofText path)

/-- The file that is written, with its route. -/
def written? : Edit → Option (Route × StoredFile)
  | .write path file => some (Route.ofText path, file)
  | .delete _ => none

end Edit

/-- The files that are written, in order. -/
def writes (edits : List Edit) : List (Route × StoredFile) :=
  edits.filterMap Edit.written?

/-- No two writes of one file have one time. -/
def DistinctTimes (edits : List Edit) : Prop :=
  (writes edits).Pairwise fun first second => first.1 = second.1 →
    first.2.modified ≠ second.2.modified

theorem DistinctTimes.eq {edits : List Edit} (h : DistinctTimes edits) {route : Route}
    {file other : StoredFile}
    (hfile : (route, file) ∈ writes edits) (hother : (route, other) ∈ writes edits)
    (htime : file.modified = other.modified) : file = other := by
  have hsymm : Std.Symm fun first second : Route × StoredFile => first.1 = second.1 →
      first.2.modified ≠ second.2.modified :=
    ⟨fun _ _ hdiffer hroute htime => hdiffer hroute.symm htime.symm⟩
  by_contra hne
  exact List.Pairwise.forall h hfile hother (fun heq => hne (Prod.mk.inj heq).2) rfl htime

theorem isPlain_of_mem_writes {edits : List Edit} {entry : Route × StoredFile}
    (h : entry ∈ writes edits) : entry.1.IsPlain := by
  obtain ⟨edit, -, hedit⟩ := List.mem_filterMap.1 h
  cases edit with
  | write path file =>
    cases hedit
    exact Route.isPlain_ofText path
  | delete path => cases hedit

namespace Folder

/-- A folder after changes to it. -/
def after (folder : Folder) (edits : List Edit) : Folder :=
  edits.foldl Edit.apply folder

theorem after_append (folder : Folder) (edits more : List Edit) :
    folder.after (edits ++ more) = (folder.after edits).after more :=
  List.foldl_append

/-- The files of a folder were written by some of the edits, each under its route, and no route is
there twice. -/
structure Traced (edits : List Edit) (folder : Folder) : Prop where
  written : folder ⊆ writes edits
  nodup : (folder.map Prod.fst).Nodup

theorem traced_empty (edits : List Edit) : Traced edits [] :=
  ⟨List.nil_subset _, List.nodup_nil⟩

theorem nodup_erase {folder : Folder} (h : (folder.map Prod.fst).Nodup) (route : Route) :
    ((folder.erase route).map Prod.fst).Nodup ∧ route ∉ (folder.erase route).map Prod.fst := by
  refine ⟨h.sublist (List.filter_sublist.map _), fun hmem => ?_⟩
  obtain ⟨entry, hentry, rfl⟩ := List.mem_map.1 hmem
  simp [erase] at hentry

theorem Traced.apply {edits : List Edit} {folder : Folder} (h : Traced edits folder) {edit : Edit}
    (hedit : edit ∈ edits) :
    Traced edits (edit.apply folder) := by
  have herase : ∀ route, folder.erase route ⊆ writes edits := fun route entry hentry =>
    h.written (List.mem_of_mem_filter hentry)
  cases edit with
  | write path file =>
    obtain ⟨hnodup, hnew⟩ := nodup_erase h.nodup (Route.ofText path)
    exact ⟨List.cons_subset.2 ⟨List.mem_filterMap.2 ⟨_, hedit, rfl⟩, herase _⟩,
      List.nodup_cons.2 ⟨hnew, hnodup⟩⟩
  | delete path => exact ⟨herase _, (nodup_erase h.nodup _).1⟩

theorem Traced.after {edits : List Edit} {folder : Folder} (h : Traced edits folder)
    {more : List Edit} (hmore : more ⊆ edits) :
    Traced edits (folder.after more) := by
  induction more generalizing folder with
  | nil => exact h
  | cons edit more ih =>
    obtain ⟨hedit, hmore⟩ := List.cons_subset.1 hmore
    exact ih (h.apply hedit) hmore

theorem Traced.isDirectory {edits : List Edit} {folder : Folder} (h : Traced edits folder) :
    folder.IsDirectory :=
  ⟨fun _ hentry => isPlain_of_mem_writes (h.written hentry), h.nodup⟩

/-- The notes of a traced folder have paths of their own. -/
theorem Traced.nodup_texts {edits : List Edit} {folder : Folder} (h : Traced edits folder) :
    (folder.notes.map fun entry => Route.text entry.1).Nodup :=
  h.isDirectory.nodup_texts

end Folder
end Checklist
