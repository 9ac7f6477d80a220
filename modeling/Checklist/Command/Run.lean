import Checklist.Command.Basic
import Checklist.Command.Show
import Checklist.Index.Folder
import Checklist.Task.Render
import Checklist.Workflow.Data
import Checklist.Workflow.Marker

/-! # Running commands

A command reads files of the working folder and answers with text and an exit code: 0 if all went
well, 1 for a refusal or a crash, and 2 if the arguments are wrong. Main statement: a refusal ends
with code 1 and says why, or crashes over the styles in its words (`ofStop_refused`). -/

namespace Checklist.Command
set_option autoImplicit false
open Text

/-! ## Outcomes -/

/-- What a command works on: all files, the place of the working folder among them, the settings
file of the user, and the current day. -/
structure Surroundings where
  files : Folder
  here : Route := []
  settingsPath : Text
  settingsFile : Option StoredFile
  today : Date

/-- Why a command refuses, in words of its own. -/
inductive Refusal where
  | settings (cause : Settings.Error)
  | noSettings (path : Text)
  | unreadable (kind path : Text)
  | noObject (path : Text)
  | invalidTree
  | invalidView
  | note (path : Text) (cause : Note.FileError)
  | unknownStyle (style : Text)
  | workflow (cause : Workflow.Error)
  | noNextStage

/-- Why a command ends without a word. -/
inductive Crash where
  | file (cause : Note.FileError)
  | index (cause : Index.Error)
  | failure (cause : Failure)
  | workflow (cause : Workflow.Error)
  | notText
  | hugeNumber
  | noMapping
  | openStyle
  | unknownLevel

/-- Why a command stops. -/
inductive Stop where
  | misuse
  | refused (cause : Refusal)
  | crashed (cause : Crash)

/-- What a command leaves behind. -/
structure Output where
  exit : Nat := 0
  text : Text := []
  crash : Option Crash := none

def Refusal.message : Refusal → Text
  | .settings cause => coloured "red" ("Invalid configuration: ".toList ++ cause.message)
  | .noSettings path => coloured "red" ("Invalid configuration: no such file: ".toList ++ path)
  | .unreadable kind path =>
    coloured "red" ("Could not read ".toList ++ kind ++ " file ".toList ++ path)
  | .noObject path =>
    coloured "red" ("Filter file ".toList ++ path ++ " must contain a JSON object".toList)
  | .invalidTree => coloured "red" Filter.invalidMessage
  | .invalidView => coloured "red" "Invalid view config".toList
  | .note path cause =>
    coloured "red" ("Error reading ".toList ++ path ++ ": ".toList ++ cause.message)
  | .unknownStyle style => coloured "red" ("Unknown markdown style: ".toList ++ style)
  | .workflow cause => coloured "red" ("Invalid workflow: ".toList ++ cause.message)
  | .noNextStage => coloured "yellow" "No next stage".toList

def Output.ofStop : Stop → Output
  | .misuse => { exit := 2 }
  | .crashed cause => { exit := 1, crash := some cause }
  | .refused cause => match say? cause.message with
    | some text => { exit := 1, text := text }
    | none => { exit := 1, crash := some .openStyle }

/-- What is left behind where a command has text to show or stops. -/
def Output.ofText : Except Stop Text → Output
  | .ok text => { text := text }
  | .error stop => .ofStop stop

theorem Output.ofStop_refused (cause : Refusal) :
    (Output.ofStop (.refused cause)).exit = 1 ∧
      (some (Output.ofStop (.refused cause)).text = say? cause.message ∨
        (Output.ofStop (.refused cause)).crash = some .openStyle) := by
  cases h : say? cause.message <;> simp [Output.ofStop, h]

/-! ## Files -/

/-- The folder is there: it has files below it, or the working folder lies in it. -/
def Surroundings.hasFolder (around : Surroundings) (route : Route) : Bool :=
  route.isPrefixOf around.here || around.files.hasFolder route

/-- Walks along names; the place before each of them must be a folder. -/
def Surroundings.walk? (around : Surroundings) : Route → List Text → Option Route
  | route, [] => some route
  | route, name :: rest =>
    if around.hasFolder route then around.walk? (route.go name) rest else none

/-- The place that a path leads to, if there is one: from the working folder or, if the path is
absolute, from the top. -/
def Surroundings.find? (around : Surroundings) (path : Text) : Option Route :=
  if path.isEmpty then none
  else
    (around.walk? (if ['/'].isPrefixOf path then [] else around.here) (splitAt '/' path)).filter
      fun route => (around.files.file? route).isSome || around.hasFolder route

/-- The file at a path, and its place. -/
def fileAt? (around : Surroundings) (path : Text) : Option (Route × StoredFile) :=
  (around.find? path).bind fun route => (around.files.file? route).map fun file => (route, file)

def fileNamed (around : Surroundings) (path : Text) : Except Stop (Route × StoredFile) :=
  match fileAt? around path with
  | some found => .ok found
  | none => .error .misuse

/-- The text of a file, or a crash. -/
def textOf (file : StoredFile) : Except Stop Text :=
  match file.text? with
  | some s => .ok s
  | none => .error (.crashed .notText)

def jsonAt (around : Surroundings) (kind : String) (path : Text) : Except Stop Value :=
  match fileAt? around path with
  | none => .error (.refused (.unreadable kind.toList (tidyPath path)))
  | some (_, file) => do
    match Json.read (← textOf file) with
    | .ok data => return data
    | .error .malformed => throw (.refused (.unreadable kind.toList (tidyPath path)))
    | .error .hugeNumber => throw (.crashed .hugeNumber)

def settingsIn (path : Text) (file : StoredFile) : Except Stop Settings := do
  match Settings.loadText path (← textOf file) with
  | .ok settings => return settings
  | .error .hugeNumber => throw (.crashed .hugeNumber)
  | .error cause => throw (.refused (.settings cause))

/-- The settings in the file that was named, or in the user's own one, or the defaults. -/
def settingsFor (around : Surroundings) (path : Option Text) : Except Stop Settings :=
  match path, around.settingsFile with
  | some path, _ => match fileAt? around path with
    | some (_, file) => settingsIn (tidyPath path) file
    | none => .error (.refused (.noSettings (tidyPath path)))
  | none, some file => settingsIn around.settingsPath file
  | none, none => .ok {}

/-! ## Notes -/

/-- Where project files are looked for, up to a folder. -/
def projectFiles (around : Surroundings) (settings : Settings) (root : Route) :
    Option Index.ProjectFiles :=
  settings.projects.map fun rules => ⟨rules.file, around.files, root⟩

/-- The tasks of a note, whose project file is looked for where its path leads from the
working folder. -/
def parseIn (around : Surroundings) (settings : Settings) (root : Route) : Index.Parse :=
  fun note => do
  let (data, _) ← Index.projectData Header.standardLoader (projectFiles around settings root)
    [] (around.here.follow note.path)
  Index.parseWith settings around.today { note with file := data }

def crashIndex {α : Type} (result : Except Index.Error α) : Except Stop α :=
  result.mapError fun
    | .file cause => .crashed (.file cause)
    | cause => .crashed (.index cause)

def crashFailure {α : Type} (result : Except Failure α) : Except Stop α :=
  result.mapError fun cause => .crashed (.failure cause)

def tasksAt (around : Surroundings) (path : Text) (settings : Option Text) :
    Except Stop (List Task) := do
  let (route, file) ← fileNamed around path
  let settings ← settingsFor around settings
  match Note.ofFile Header.standardLoader (tidyPath path) (tidyPath path) file with
  | .error cause =>
    throw (if cause.isReported then .refused (.note (tidyPath path) cause) else
      .crashed (.file cause))
  | .ok note =>
    let files := projectFiles around settings route.dropLast
    let (data, _) ← crashIndex (Index.projectData Header.standardLoader files [] route)
    crashIndex (Index.parseWith settings around.today { note with file := data })

/-- Tasks as lines, up to the first that cannot be written. -/
def renderAll (style : Task.Style) : List Task → Output
  | [] => {}
  | task :: rest => match task.render style with
    | .error cause => { exit := 1, crash := some (.failure cause) }
    | .ok line =>
      let more := renderAll style rest
      { more with text := line ++ '\n' :: more.text }

def styles : List (Text × Task.Style) :=
  [("emoji".toList, .emoji), ("dataview".toList, .dataview)]

def runParse (around : Surroundings) (path : Text) (form : Form)
    (settings : Option Text) : Output :=
  match tasksAt around path settings with
  | .error stop => .ofStop stop
  | .ok tasks => match form with
    | .data => .ofText (crashFailure (dataText (.list (tasks.map Task.toValue))))
    | .table =>
      .ofText (.ok (taskTable ("Tasks in ".toList ++ (cutLast '/' (tidyPath path)).2) false tasks))
    | .lines style => match styles.lookup style with
      | some style => renderAll style tasks
      | none => .ofStop (.refused (.unknownStyle style))

/-! ## Folders -/

def shownIn (path : Text) (name : Text) : Text :=
  if tidyPath path == ['.'] then name else tidyPath path ++ '/' :: name

/-- How the notes of a folder at a path are read. -/
def readerIn (path : Text) : Index.Reader :=
  { shown := shownIn path }

def indexAt (around : Surroundings) (settings : Settings) (path : Text) (route : Route) :
    Except Stop Index := do
  match around.files.file? route with
  | some file =>
    let parse := parseIn around settings route.dropLast
    let (result, state) := Index.indexFile parse none { shown := fun _ => tidyPath path } {}
      ([route.getLastD []], file)
    let _ ← crashIndex result
    return state.index
  | none =>
    let (_, state) ← crashIndex (Index.indexFolder (parseIn around settings route)
      none (readerIn path) (around.files.below route) {})
    return state.index

def treeFor (around : Surroundings) : Option Text → Except Stop (Option Filter.Tree)
  | none => .ok none
  | some path => do
    match ← jsonAt around "filter" path with
    | .map entries => match Filter.Tree.schema (.map entries) with
      | .ok tree => return some tree
      | .issues _ _ => throw (.refused .invalidTree)
    | _ => throw (.refused (.noObject (tidyPath path)))

/-- The view in the file that was named, changed if tasks that are done are to be hidden. -/
def viewFor (around : Surroundings) (path : Option Text) (hidesDone : Bool) : Except Stop View := do
  let data ← match path with
    | none => pure (.map [])
    | some path => jsonAt around "view" path
  let data ← match hidesDone, data with
    | false, data => pure data
    | true, .map entries =>
      pure (.map (Entries.set entries (.str "hideCompletedAndAbandonedTasks".toList) (.bool true)))
    | true, _ => throw (.crashed .noMapping)
  match View.schema data with
  | .ok view => return view
  | .issues _ _ => throw (.refused .invalidView)

def runFilter (around : Surroundings) (path : Text) (selection : Selection) (asData : Bool)
    (settings : Option Text) : Except Stop Text := do
  let some route := around.find? path | throw .misuse
  let tree ← treeFor around selection.tree
  let view ← viewFor around selection.view selection.hidesDone
  let settings ← settingsFor around settings
  let index ← indexAt around settings path route
  let tasks ← crashFailure (index.query around.today view tree (selection.query.getD []))
  if asData then crashFailure (dataText (.list (tasks.map Task.toValue)))
  else return taskTable (ofNat tasks.length ++ " matching tasks".toList) true tasks

/-- What a report says, as data. -/
def reportValue (report : Index.Report) (tasks : List Task) : Value :=
  .map [(.str "files".toList, .int report.total),
    (.str "failed".toList, .map (report.failed.map fun (path, message) => (.str path, .str message))),
    (.str "tasks".toList, .int report.taskCount),
    (.str "completed".toList, .int (tasks.countP Task.completed))]

/-- What a report says, as lines. -/
def reportText (report : Index.Report) (tasks : List Task) : Text :=
  let title :=
    ofNat report.taskCount ++ " tasks in ".toList ++ ofNat report.total ++ " files".toList
  unlines (title :: (projectCounts tasks).map (fun (name, count) => name ++ ' ' :: ofNat count)
    ++ report.failed.map fun (path, message) => "✗ ".toList ++ path ++ ": ".toList ++ message)

def runIndex (around : Surroundings) (path : Text) (asData : Bool) (settings : Option Text) :
    Except Stop Text := do
  let some route := (around.find? path).filter around.hasFolder | throw .misuse
  let settings ← settingsFor around settings
  let (report, state) ← crashIndex
    (Index.indexFolder (parseIn around settings route)
      none (readerIn path) (around.files.below route) {})
  if asData then crashFailure (dataText (reportValue report state.index.toList))
  else return reportText report state.index.toList

/-! ## Workflows -/

/-- The file holds JSON, by its name. -/
def isJson (route : Route) : Bool :=
  let name := route.getLastD []
  ".json".toList.isSuffixOf name && 5 < name.length

def workflowAt (around : Surroundings) (path : Text) : Except Stop Workflow := do
  let (route, file) ← fileNamed around path
  match Workflow.loadText (isJson route) (tidyPath path) (← textOf file) with
  | .ok workflow => return workflow
  | .error .hugeNumber => throw (.crashed .hugeNumber)
  | .error (.misfit cause) => throw (.crashed (.workflow (.misfit cause)))
  | .error cause => throw (.refused (.workflow cause))

def runValidate (around : Surroundings) (path : Text) : Except Stop Text := do
  match workflowText? (← workflowAt around path) with
  | some text => return text
  | none => throw (.crashed .openStyle)

def runNext (around : Surroundings) (path stage : Text) (subStage : Option Text) :
    Except Stop Text := do
  match (← workflowAt around path).next? ⟨stage, subStage⟩ with
  | some place => return Workflow.marker place ++ ['\n']
  | none => throw (.refused .noNextStage)

/-! ## Everything -/

def versionText : Text := "taskmark version: 0.4.0\n".toList

def helpText : Text :=
  unlines ["Commands: parse FILE, filter PATH, index FOLDER, workflow validate FILE, workflow next FILE STAGE".toList]

def run (around : Surroundings) : Command → Output
  | .help => { text := helpText }
  | .version => { text := versionText }
  | .parse file form settings => runParse around file form settings
  | .filter path selection asData settings =>
    .ofText (runFilter around path selection asData settings)
  | .index folder asData settings => .ofText (runIndex around folder asData settings)
  | .validate file => .ofText (runValidate around file)
  | .next file stage subStage => .ofText (runNext around file stage subStage)

def runArguments (around : Surroundings) (arguments : List Text) : Output :=
  match ofArguments arguments with
  | .ok command => run around command
  | .error .arguments => .ofStop .misuse
  | .error .unknownLevel => .ofStop (.crashed .unknownLevel)

end Checklist.Command
