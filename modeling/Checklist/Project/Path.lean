import Checklist.Project.Glob
import Checklist.Text.Lower

/-! # Paths of notes

Paths are compared with slashes, without `./` before them and without slashes around them. A pattern
is a folder or a note, or a glob for the note or a folder above it. -/

namespace Checklist.ProjectPath
set_option autoImplicit false
open Text

/-- Drops `./` from the start as often as it stands there. -/
def dropHere : Text → Text
  | '.' :: '/' :: rest => dropHere rest
  | s => s

def normalize (path : Text) : Text :=
  trimWhere (· == '/') (dropHere (replaceChar '\\' '/' path))

/-- The folders above a path, outermost first. -/
def folders (path : Text) : List Text :=
  let parts := splitAt '/' path
  ((List.range parts.length).drop 1).map fun count => join ['/'] (parts.take count)

def isGlob (pattern : Text) : Bool :=
  pattern.contains '*' || pattern.contains '?'

/-- The path falls under the pattern; a glob is matched in any case. -/
def isUnder (path pattern : Text) : Bool :=
  let path := normalize path
  let pattern := normalize pattern
  if pattern.isEmpty then false
  else if isGlob pattern then
    let glob := Glob.ofText (lower pattern)
    (lower path :: folders (lower path)).any glob.covers
  else path == pattern || (pattern ++ ['/']).isPrefixOf path

/-- The name of the note at a path, without what follows its last dot if that is asked for. -/
def fileName (stripsExtension : Bool) (path : Text) : Text :=
  let name := (cutLast '/' path).2
  match stripsExtension, (cutLast '.' name).1 with
  | true, some stem => stem
  | _, _ => name

def folderName (path : Text) : Text :=
  match (splitAt '/' path).reverse with
  | _ :: folder :: _ => folder
  | _ => []

end Checklist.ProjectPath
