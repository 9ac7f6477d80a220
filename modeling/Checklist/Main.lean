import Checklist.Command.Run
import Checklist.Calendar.Moment
import Std.Time.DateTime.Timestamp

/-! # The command line

Reads the working folder, the settings file of the user and the day, runs the command, and prints
what it says. Folders outside the working folder are not read, and count as empty. -/

namespace Checklist.Command
set_option autoImplicit false

/-- The files below a place, down to a depth; what cannot be read counts as absent. -/
def filesBelow : Nat → Route → IO.FS.DirEntry → IO Folder
  | 0, _, _ => return []
  | depth + 1, route, entry => do
    let place := route ++ [entry.fileName.toList]
    try
      if ← entry.path.isDir then
        return (← (← entry.path.readDir).toList.mapM (filesBelow depth place)).flatten
      else return [(place, ⟨(← IO.FS.readBinFile entry.path).toList, 0⟩)]
    catch _ => return []

/-- The place of the working folder, and the files below it. -/
def workingFolder : IO (Route × Folder) := do
  let here ← IO.currentDir
  let place := Route.ofText here.toString.toList
  return (place, (← (← here.readDir).toList.mapM (filesBelow 64 place)).flatten)

def settingsPath : IO String := do
  match ← IO.getEnv "TASKMARK_HOME" with
  | some home => return home ++ "/config.json"
  | none => return ((← IO.getEnv "HOME").getD ".") ++ "/.taskmark/config.json"

/-- A file, if it can be read. -/
def storedFile? (path : String) : IO (Option StoredFile) := do
  try return some ⟨(← IO.FS.readBinFile path).toList, 0⟩
  catch _ => return none

def currentDay : IO Date := do
  let now ← Std.Time.Timestamp.now
  let first : Date := ⟨1970, 1, 1, by decide⟩
  return ((Moment.ofSeconds? now.toSecondsSinceUnixEpoch.val).map Moment.date).getD first

end Checklist.Command

def main (arguments : List String) : IO UInt32 := do
  let path ← Checklist.Command.settingsPath
  let (here, files) ← Checklist.Command.workingFolder
  let around : Checklist.Command.Surroundings := {
    files := files
    here := here
    settingsPath := path.toList
    settingsFile := ← Checklist.Command.storedFile? path
    today := ← Checklist.Command.currentDay }
  let output := Checklist.Command.runArguments around (arguments.map String.toList)
  IO.print (String.ofList output.text)
  if output.exit == 2 then IO.eprintln "Usage: COMMAND [FLAGS] [WORDS], or --help"
  if output.crash.isSome then IO.eprintln "The command failed"
  return UInt32.ofNat output.exit
