import Checklist.Text.Lower
import Checklist.Text.Basic
import Checklist.Text.Utf8

/-! # Folders of files

A folder holds files under routes, which are lists of names. There are no permissions: what is
listed can be read. Main statements: a file that is written is read back (`file?_write`), no other
file changes (`file?_write_of_ne`), and a file that is removed is gone (`file?_erase`). -/

namespace Checklist
set_option autoImplicit false
open Text

/-- The names on the way to a place in a folder; the folder itself has none. -/
abbrev Route := List Text

/-- What a file holds, and when it was written. -/
structure StoredFile where
  octets : List UInt8
  modified : Int
  deriving DecidableEq, Repr

/-- The files of a folder under their routes, as they are listed: a folder in it that cannot be
listed has none. -/
abbrev Folder := List (Route × StoredFile)

namespace Route

/-- Goes from a place to a name, which may stand for the place itself or the folder above it. -/
def go (route : Route) (name : Text) : Route :=
  if name.isEmpty || name == ['.'] then route
  else if name == "..".toList then route.dropLast
  else route ++ [name]

def follow (route : Route) (path : Text) : Route :=
  (splitAt '/' path).foldl go route

def ofText (path : Text) : Route :=
  follow [] path

def text (route : Route) : Text :=
  join ['/'] route

/-- A folder and those above it, the nearest first. -/
def upward (route : Route) : List Route :=
  (List.range (route.length + 1)).reverse.map fun count => route.take count

/-- A folder and those above it, up to a last one if it is among them. -/
def upwardTo (last : Route) (route : Route) : List Route :=
  go route.upward
where
  /-- The routes up to the last one. -/
  go : List Route → List Route
    | [] => []
    | route :: rest => if route == last then [route] else route :: go rest

end Route

/-- A path as it is shown: without empty names and those that stand for the place itself. -/
def tidyPath (path : Text) : Text :=
  let names := (splitAt '/' path).filter fun name => !name.isEmpty && name != ['.']
  let root := if ['/'].isPrefixOf path then ['/'] else []
  if names.isEmpty && root.isEmpty then ['.'] else root ++ join ['/'] names

/-- The text of a file, every line end as LF; none if it is no text. -/
def StoredFile.text? (file : StoredFile) : Option Text :=
  (ofUtf8? file.octets).map unifyNewlines

namespace Folder

def file? (folder : Folder) (route : Route) : Option StoredFile :=
  folder.lookup route

def hasFolder (folder : Folder) (route : Route) : Bool :=
  route.isEmpty || folder.any fun entry => route.isPrefixOf entry.1 && route.length < entry.1.length

def erase (folder : Folder) (route : Route) : Folder :=
  folder.filter fun entry => entry.1 != route

def write (folder : Folder) (route : Route) (file : StoredFile) : Folder :=
  (route, file) :: folder.erase route

def below (folder : Folder) (route : Route) : Folder :=
  folder.filterMap fun entry =>
    if route.isPrefixOf entry.1 && route.length < entry.1.length then
      some (entry.1.drop route.length, entry.2) else none

/-! ## Notes in a folder -/

def noteEndings : List Text :=
  [".md".toList, ".markdown".toList]

/-- The place of a note: no name on the way to it is hidden, and the last one has the
ending of notes. -/
def isNote (route : Route) : Bool :=
  route.all (fun name => !(List.isPrefixOf ['.'] name)) && noteEndings.any fun ending =>
    ending.isSuffixOf (lower (route.getLastD []))

/-- The order in which notes are found: the files of a folder by name, then those of the folders in
it by name. -/
def comesBefore : Route → Route → Bool
  | [], _ => true
  | _ :: _, [] => false
  | [a], [b] => le a b
  | [_], _ :: _ :: _ => true
  | _ :: _ :: _, [_] => false
  | a :: c :: r, b :: d :: s => if a == b then comesBefore (c :: r) (d :: s) else le a b

/-- The notes of a folder, in the order in which they are found. -/
def notes (folder : Folder) : Folder :=
  (folder.filter fun entry => isNote entry.1).mergeSort fun a b => comesBefore a.1 b.1

/-! ## Laws -/

theorem file?_write (folder : Folder) (route : Route) (file : StoredFile) :
    (folder.write route file).file? route = some file := by
  simp [write, file?]

theorem file?_erase (folder : Folder) (route : Route) :
    (folder.erase route).file? route = none := by
  refine List.lookup_eq_none_iff.2 fun entry hentry => ?_
  have hne := (List.mem_filter.1 hentry).2
  rw [bne_iff_ne] at hne ⊢
  exact hne.symm

theorem file?_erase_of_ne (folder : Folder) {route other : Route} (h : other ≠ route) :
    (folder.erase route).file? other = folder.file? other := by
  induction folder with
  | nil => rfl
  | cons entry rest ih =>
    obtain ⟨r, file⟩ := entry
    have ih : List.lookup other (List.filter (fun entry => entry.1 != route) rest) =
        List.lookup other rest := ih
    by_cases hr : r = route
    · have hne : (other == r) = false := by simp [hr, h]
      simp [erase, file?, hr ▸ hne, hr, List.lookup_cons, ih]
    · by_cases ho : other == r
      · simp [erase, file?, hr, List.lookup_cons, ho]
      · simp [erase, file?, hr, List.lookup_cons, ho, ih]

theorem file?_write_of_ne (folder : Folder) {route other : Route}
    (h : other ≠ route) (file : StoredFile) :
    (folder.write route file).file? other = folder.file? other := by
  have hne : (other == route) = false := by simp [h]
  have herase := file?_erase_of_ne folder h
  simpa [write, file?, List.lookup_cons, hne] using herase

theorem mem_notes {folder : Folder} {entry : Route × StoredFile} : entry ∈ folder.notes ↔
    entry ∈ folder ∧ isNote entry.1 = true := by
  simp [notes]

example : Route.ofText "a//./b/../c.md".toList = ["a".toList, "c.md".toList] := by decide
example : (Route.upwardTo ["a".toList] ["a".toList, "b".toList, "c".toList]).map Route.text =
    ["a/b/c".toList, "a/b".toList, "a".toList] := by
  decide

end Folder
end Checklist
