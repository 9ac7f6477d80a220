import Checklist.Proofs.Folder
import Mathlib.Data.List.Dedup
import Mathlib.Data.List.Pairwise

/-! # A walk through a directory

The notes of a folder are found folder by folder: those in the folder itself by name, then those in
each of its folders, by name too. Main statements: the order of notes is that of this walk
(`IsDirectory.notes_eq_walk`), and the walk comes to the files with the name of a note that no
hidden name leads to, and to no others (`mem_notes_iff`). -/

namespace Checklist
set_option autoImplicit false
open Text

/-! ## Names of notes -/

namespace Text

theorem suffix_lowerAfter_append (before stem s : Text) :
    lowerAfter (stem.reverse ++ before) s <:+ lowerAfter before (stem ++ s) := by
  induction stem generalizing before with
  | nil => exact List.suffix_rfl
  | cons c stem ih =>
    have h := ih (c :: before)
    rw [List.cons_append, lowerAfter, List.reverse_cons, List.append_assoc]
    exact h.trans (List.suffix_append _ _)

/-- An ending of a text in lower case is that of an ending of the text, letter by letter. -/
theorem suffix_lowerAfter_iff {before s ending : Text} (h : ∀ c ∈ ending, isForeign c = false) :
    ending <:+ lowerAfter before s ↔ ∃ stem last, s = stem ++ last ∧
      last.map lowerChar = ending := by
  constructor
  · intro hsuffix
    induction s generalizing before with
    | nil =>
      obtain rfl := List.suffix_nil.1 hsuffix
      exact ⟨[], [], rfl, rfl⟩
    | cons c s ih =>
      by_cases hall : ending = lowerAfter before (c :: s)
      · subst hall
        exact ⟨[], c :: s, rfl, (lowerAfter_eq_map h).symm⟩
      · -- the ending does not begin within what becomes of one letter
        have hlater : ending <:+ lowerAfter (c :: before) s := by
          rw [lowerAfter] at hsuffix hall
          split at hsuffix
          · next hdotted =>
            rw [if_pos hdotted] at hall
            rcases List.suffix_cons_iff.1
              ((List.suffix_cons_iff.1 hsuffix).resolve_left hall) with rfl | hlater
            · cases h '\u0307' List.mem_cons_self
            · exact hlater
          · next hdotted =>
            rw [if_neg hdotted] at hall
            split at hsuffix
            · next hsigma =>
              rw [if_pos hsigma] at hall
              exact (List.suffix_cons_iff.1 hsuffix).resolve_left hall
            · next hsigma =>
              rw [if_neg hsigma] at hall
              exact (List.suffix_cons_iff.1 hsuffix).resolve_left hall
        obtain ⟨stem, last, rfl, hlast⟩ := ih hlater
        exact ⟨c :: stem, last, rfl, hlast⟩
  · rintro ⟨stem, last, rfl, rfl⟩
    rw [← @lowerAfter_of_map (stem.reverse ++ before) _ h]
    exact suffix_lowerAfter_append before stem last

end Text

namespace Folder

/-- The name is that of a note: it ends as names of notes do, in capital letters or in
small ones. -/
def IsNoteName (name : Text) : Prop :=
  ∃ stem last, name = stem ++ last ∧
    (last.map lowerChar = ".md".toList ∨ last.map lowerChar = ".markdown".toList)

theorem any_noteEndings_iff {name : Text} :
    (noteEndings.any fun ending => ending.isSuffixOf (lower name)) = true ↔ IsNoteName name := by
  have hends : ∀ ending ∈ noteEndings, ∀ c ∈ ending, isForeign c = false := by decide
  have hone : ∀ ending ∈ noteEndings, ending.isSuffixOf (lower name) = true ↔
      ∃ stem last, name = stem ++ last ∧ last.map lowerChar = ending :=
    fun ending hending =>
      List.isSuffixOf_iff_suffix.trans (suffix_lowerAfter_iff (hends ending hending))
  rw [List.any_eq_true]
  constructor
  · rintro ⟨ending, hending, hsuffix⟩
    obtain ⟨stem, last, hname, hlast⟩ := (hone ending hending).1 hsuffix
    exact ⟨stem, last, hname, by simpa [noteEndings, ← hlast] using hending⟩
  · rintro ⟨stem, last, hname, hlast⟩
    have hending : last.map lowerChar ∈ noteEndings := by simpa [noteEndings] using hlast
    exact ⟨_, hending, (hone _ hending).2 ⟨stem, last, hname, rfl⟩⟩

/-- No name on the way is hidden. -/
def IsShown (route : Route) : Prop :=
  ∀ name ∈ route, ¬['.'] <+: name

theorem isNote_iff {route : Route} : isNote route = true ↔
    IsShown route ∧ IsNoteName (route.getLastD []) := by
  rw [isNote, Bool.and_eq_true, any_noteEndings_iff, List.all_eq_true]
  refine and_congr_left fun _ => forall₂_congr fun name _ => ?_
  rw [Bool.not_eq_true', ← Bool.not_eq_true, List.isPrefixOf_iff_prefix]

/-- The walk comes to the files with the name of a note to which no hidden name leads. -/
theorem mem_notes_iff {folder : Folder} {entry : Route × StoredFile} :
    entry ∈ folder.notes ↔ entry ∈ folder ∧ IsShown entry.1 ∧ IsNoteName (entry.1.getLastD []) := by
  rw [mem_notes, isNote_iff]

/-! ## The order of notes -/

theorem comesBefore_of_eq (a : Text) {route other : Route} (h : route ≠ []) (h' : other ≠ []) :
    comesBefore (a :: route) (a :: other) = comesBefore route other := by
  obtain ⟨c, rest, rfl⟩ := List.exists_cons_of_ne_nil h
  obtain ⟨d, rest', rfl⟩ := List.exists_cons_of_ne_nil h'
  exact if_pos (beq_self_eq_true a)

theorem comesBefore_of_ne {a b : Text} (hne : a ≠ b) {route other : Route}
    (h : route ≠ []) (h' : other ≠ []) :
    comesBefore (a :: route) (b :: other) = le a b := by
  obtain ⟨c, rest, rfl⟩ := List.exists_cons_of_ne_nil h
  obtain ⟨d, rest', rfl⟩ := List.exists_cons_of_ne_nil h'
  exact if_neg (by simpa using hne)

theorem comesBefore_total (route other : Route) :
    (comesBefore route other || comesBefore other route) = true := by
  induction route generalizing other with
  | nil => rfl
  | cons a route ih =>
    rcases other with _ | ⟨b, other⟩
    · rfl
    · rcases route with _ | ⟨c, route⟩ <;> rcases other with _ | ⟨d, other⟩
      · exact le_total a b
      · rfl
      · rfl
      · have hroute := List.cons_ne_nil c route
        have hother := List.cons_ne_nil d other
        by_cases heq : a = b
        · subst heq
          rw [comesBefore_of_eq a hroute hother, comesBefore_of_eq a hother hroute]
          exact ih (d :: other)
        · rw [comesBefore_of_ne heq hroute hother, comesBefore_of_ne (Ne.symm heq) hother hroute]
          exact le_total a b

theorem comesBefore_antisymm {route other : Route} (h : comesBefore route other = true)
    (h' : comesBefore other route = true) : route = other := by
  induction route generalizing other with
  | nil =>
    cases other with
    | nil => rfl
    | cons b other => cases h'
  | cons a route ih =>
    rcases other with _ | ⟨b, other⟩
    · cases h
    · rcases route with _ | ⟨c, route⟩ <;> rcases other with _ | ⟨d, other⟩
      · exact congrArg (fun name => [name]) (le_antisymm h h')
      · cases h'
      · cases h
      · have hroute := List.cons_ne_nil c route
        have hother := List.cons_ne_nil d other
        by_cases heq : a = b
        · subst heq
          rw [comesBefore_of_eq a hroute hother] at h
          rw [comesBefore_of_eq a hother hroute] at h'
          rw [ih h h']
        · rw [comesBefore_of_ne heq hroute hother] at h
          rw [comesBefore_of_ne (Ne.symm heq) hother hroute] at h'
          exact absurd (le_antisymm h h') heq

theorem comesBefore_trans {first second third : Route} (h : comesBefore first second = true)
    (h' : comesBefore second third = true) :
    comesBefore first third = true := by
  induction first generalizing second third with
  | nil => rfl
  | cons a first ih =>
    rcases second with _ | ⟨b, second⟩
    · cases h
    rcases third with _ | ⟨c, third⟩
    · cases h'
    rcases first with _ | ⟨a', first⟩ <;> rcases second with _ |
      ⟨b', second⟩ <;> rcases third with _ | ⟨c', third⟩
    · exact le_trans h h'
    · rfl
    · cases h'
    · rfl
    · cases h
    · cases h
    · cases h'
    · have hfirst := List.cons_ne_nil a' first
      have hsecond := List.cons_ne_nil b' second
      have hthird := List.cons_ne_nil c' third
      by_cases hab : a = b
      · subst hab
        rw [comesBefore_of_eq a hfirst hsecond] at h
        by_cases hac : a = c
        · subst hac
          rw [comesBefore_of_eq a hsecond hthird] at h'
          rw [comesBefore_of_eq a hfirst hthird]
          exact ih h h'
        · rw [comesBefore_of_ne hac hsecond hthird] at h'
          rwa [comesBefore_of_ne hac hfirst hthird]
      · rw [comesBefore_of_ne hab hfirst hsecond] at h
        by_cases hbc : b = c
        · subst hbc
          rwa [comesBefore_of_ne hab hfirst hthird]
        · rw [comesBefore_of_ne hbc hsecond hthird] at h'
          have hac : a ≠ c := by
            rintro rfl
            exact hab (le_antisymm h h')
          rw [comesBefore_of_ne hac hfirst hthird]
          exact le_trans h h'

/-- Files come in order, and none of them twice. -/
abbrev InOrder (folder : Folder) : Prop :=
  folder.Pairwise fun a b => comesBefore a.1 b.1 = true ∧ a.1 ≠ b.1

theorem InOrder.nodup {folder : Folder} (h : InOrder folder) : folder.Nodup :=
  h.imp fun hlt heq => hlt.2 (congrArg Prod.fst heq)

theorem InOrder.eq_of_perm {folder other : Folder} (h : InOrder folder) (h' : InOrder other)
    (hperm : folder.Perm other) : folder = other := by
  refine List.Perm.eq_of_pairwise (fun a b _ _ hab hba => ?_) h h' hperm
  exact absurd (comesBefore_antisymm hab.1 hba.1) hab.2

theorem IsDirectory.inOrder {folder : Folder} (h : folder.IsDirectory)
    (has : Route × StoredFile → Bool) :
    InOrder ((folder.filter has).mergeSort fun a b => comesBefore a.1 b.1) := by
  have hsorted := @List.pairwise_mergeSort _ (fun a b : Route × StoredFile => comesBefore a.1 b.1)
    (fun _ _ _ => comesBefore_trans) (fun a b => comesBefore_total a.1 b.1) (folder.filter has)
  have hperm := List.mergeSort_perm (folder.filter has) fun a b => comesBefore a.1 b.1
  have hnodup := (hperm.map Prod.fst).nodup_iff.2 (h.nodup.sublist (List.filter_sublist.map _))
  exact hsorted.and (List.pairwise_map.1 hnodup)

/-! ## Folder by folder -/

/-- The notes that lie in a folder itself, by name. -/
def ownNotes (folder : Folder) : Folder :=
  (folder.filter fun entry => entry.1.length == 1 && isNote entry.1).mergeSort fun a b =>
    comesBefore a.1 b.1

/-- The names of the folders in a folder that are not hidden, in order. -/
def shownFolders (folder : Folder) : List Text :=
  sort ((folder.filterMap fun entry => if 1 < entry.1.length then entry.1.head? else
    none).dedup.filter fun name => !(List.isPrefixOf ['.'] name))

/-- What lies in a folder with a name, as seen from above. -/
def under (name : Text) (folder : Folder) : Folder :=
  folder.map fun entry => (name :: entry.1, entry.2)

theorem mem_under {name : Text} {folder : Folder} {entry : Route × StoredFile} :
    entry ∈ under name folder ↔ ∃ route, entry.1 = name :: route ∧ (route, entry.2) ∈ folder := by
  rw [under, List.mem_map]
  constructor
  · rintro ⟨⟨route, file⟩, hmem, rfl⟩
    exact ⟨route, rfl, hmem⟩
  · obtain ⟨_, file⟩ := entry
    rintro ⟨route, rfl, hmem⟩
    exact ⟨(route, file), hmem, rfl⟩

theorem mem_shownFolders {folder : Folder} {name : Text} :
    name ∈ folder.shownFolders ↔ ¬['.'] <+: name ∧ ∃ entry, entry ∈ folder.below [name] := by
  have hname : ∀ entry : Route × StoredFile, (if 1 < entry.1.length then entry.1.head? else none) =
      some name ↔ ∃ route, route ≠ [] ∧ entry.1 = name :: route := by
    rintro ⟨_ | ⟨a, _ | ⟨b, route⟩⟩, file⟩ <;> simp
  simp only [shownFolders, mem_sort, List.mem_filter, List.mem_dedup, List.mem_filterMap, hname,
    Bool.not_eq_true', ← Bool.not_eq_true, List.isPrefixOf_iff_prefix]
  rw [and_comm]
  refine and_congr_right fun _ => ⟨?_, ?_⟩
  · rintro ⟨⟨_, file⟩, hmem, route, hne, rfl⟩
    exact ⟨(route, file), mem_below.2 ⟨hne, hmem⟩⟩
  · rintro ⟨⟨route, file⟩, hmem⟩
    exact ⟨_, (mem_below.1 hmem).2, route, (mem_below.1 hmem).1, rfl⟩

theorem nodup_shownFolders (folder : Folder) : folder.shownFolders.Nodup :=
  (List.mergeSort_perm _ _).nodup_iff.2 ((List.nodup_dedup _).filter _)

theorem isNote_cons {name : Text} {route : Route} (h : route ≠ []) : isNote (name :: route) = true ↔
    ¬['.'] <+: name ∧ isNote route = true := by
  obtain ⟨next, rest, rfl⟩ := List.exists_cons_of_ne_nil h
  rw [isNote_iff, isNote_iff, show (name :: next :: rest).getLastD [] =
    (next :: rest).getLastD [] from rfl, ← and_assoc]
  exact and_congr_left fun _ => List.forall_mem_cons

theorem mem_ownNotes {folder : Folder} {entry : Route × StoredFile} :
    entry ∈ folder.ownNotes ↔ entry ∈ folder ∧ entry.1.length = 1 ∧ isNote entry.1 = true := by
  simp [ownNotes]

theorem mem_under_notes {name : Text} {folder : Folder} {entry : Route × StoredFile} :
    entry ∈ under name (folder.below [name]).notes ↔
    entry ∈ folder ∧ ∃ route, entry.1 = name :: route ∧ route ≠ [] ∧ isNote route = true := by
  simp only [mem_under, mem_notes, mem_below, List.singleton_append]
  constructor
  · rintro ⟨route, heq, ⟨hne, hmem⟩, hnote⟩
    exact ⟨by rwa [← heq] at hmem, route, heq, hne, hnote⟩
  · rintro ⟨hmem, route, heq, hne, hnote⟩
    exact ⟨route, heq, ⟨hne, by rwa [← heq]⟩, hnote⟩

/-- The notes that lie in a folder, and then those of its folders that are not hidden, one folder
after the other. -/
def walk (folder : Folder) : Folder :=
  folder.ownNotes ++ folder.shownFolders.flatMap fun name => under name (folder.below [name]).notes

theorem mem_walk {folder : Folder} {entry : Route × StoredFile} : entry ∈ folder.walk ↔
    entry ∈ folder ∧ isNote entry.1 = true := by
  rw [walk, List.mem_append, List.mem_flatMap, mem_ownNotes]
  constructor
  · rintro (⟨hmem, -, hnote⟩ | ⟨name, hname, hunder⟩)
    · exact ⟨hmem, hnote⟩
    · obtain ⟨hmem, route, heq, hne, hnote⟩ := mem_under_notes.1 hunder
      exact ⟨hmem, heq ▸ (isNote_cons hne).2 ⟨(mem_shownFolders.1 hname).1, hnote⟩⟩
  · rintro ⟨hmem, hnote⟩
    rcases hroute : entry.1 with _ | ⟨name, _ | ⟨next, rest⟩⟩
    · rw [hroute] at hnote
      exact absurd hnote (by decide +kernel)
    · exact .inl ⟨hmem, rfl, hroute ▸ hnote⟩
    · have hne := List.cons_ne_nil next rest
      rw [hroute] at hnote
      obtain ⟨hshown, hnote⟩ := (isNote_cons hne).1 hnote
      have hbelow : (next :: rest, entry.2) ∈ folder.below [name] :=
        mem_below.2 ⟨hne, by rwa [List.singleton_append, ← hroute]⟩
      exact .inr ⟨name, mem_shownFolders.2 ⟨hshown, _, hbelow⟩,
        mem_under_notes.2 ⟨hmem, _, hroute, hne, hnote⟩⟩

theorem IsDirectory.inOrder_under {folder : Folder} (h : folder.IsDirectory) (name : Text) :
    InOrder (under name (folder.below [name]).notes) := by
  rw [InOrder, under, List.pairwise_map]
  refine ((h.below [name]).inOrder fun entry => isNote entry.1).imp_of_mem fun ha hb hab => ?_
  have hne : ∀ {entry}, entry ∈ (folder.below [name]).notes → entry.1 ≠ [] :=
    fun hentry => (mem_below.1 (mem_notes.1 hentry).1).1
  refine ⟨?_, fun heq => hab.2 (List.cons.inj heq).2⟩
  rw [comesBefore_of_eq name (hne ha) (hne hb)]
  exact hab.1

theorem IsDirectory.inOrder_walk {folder : Folder} (h : folder.IsDirectory) :
    InOrder folder.walk := by
  refine List.pairwise_append.2 ⟨h.inOrder _,
    List.pairwise_flatMap.2 ⟨fun name _ => h.inOrder_under name, ?_⟩, fun a ha b hb => ?_⟩
  · refine ((pairwise_sort _).and folder.nodup_shownFolders).imp fun {first second} hlt a ha b hb =>
      ?_
    obtain ⟨-, route, heq, hne, -⟩ := mem_under_notes.1 ha
    obtain ⟨-, route', heq', hne', -⟩ := mem_under_notes.1 hb
    rw [heq, heq', comesBefore_of_ne hlt.2 hne hne']
    exact ⟨hlt.1, fun hsame => hlt.2 (List.cons.inj hsame).1⟩
  · obtain ⟨-, hlength, -⟩ := mem_ownNotes.1 ha
    obtain ⟨name, -, hunder⟩ := List.mem_flatMap.1 hb
    obtain ⟨-, route, heq, hne, -⟩ := mem_under_notes.1 hunder
    obtain ⟨own, hown⟩ := List.length_eq_one_iff.1 hlength
    obtain ⟨next, rest, rfl⟩ := List.exists_cons_of_ne_nil hne
    rw [hown, heq]
    exact ⟨rfl, by simp⟩

/-- The notes of a directory are found folder by folder. -/
theorem IsDirectory.notes_eq_walk {folder : Folder} (h : folder.IsDirectory) :
    folder.notes = folder.walk := by
  have hnotes := h.inOrder fun entry => isNote entry.1
  refine hnotes.eq_of_perm h.inOrder_walk
    ((List.perm_ext_iff_of_nodup hnotes.nodup h.inOrder_walk.nodup).2 fun entry => ?_)
  rw [mem_walk]
  exact mem_notes

end Folder
end Checklist
