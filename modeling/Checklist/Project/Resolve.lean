import Checklist.Project.Path
import Checklist.Task.Basic
import Checklist.Value.Meaning

/-! # The project of a task

A project written on the line counts. Otherwise one is inferred from the first source that names
one: the parent task, a path mapping, the header of the note, a project file, and the path of the
note itself. -/

namespace Checklist
set_option autoImplicit false
open Text

/-- How a project was found. -/
inductive Resolution where
  | written
  | path
  | header
  | file
  | naming
  | parent
  | disabled
  | nothing
  deriving DecidableEq, Repr

/-- The project of a task and how it was found. -/
structure ResolvedProject where
  written : Option Text
  inferred : Option InferredProject
  how : Resolution
  deriving DecidableEq, Repr

/-- What the rules are applied to. -/
structure ProjectContext where
  path : Text
  header : Entries
  file : Option Entries
  deriving Repr

namespace Resolution

def name : Resolution → Text
  | .written => "EXPLICIT".toList
  | .path => "PATH".toList
  | .header => "METADATA".toList
  | .file => "CONFIG".toList
  | .naming => "DEFAULT".toList
  | .parent => "PARENT".toList
  | .disabled | .nothing => "NONE".toList

def ofSource : ProjectSource → Resolution
  | .path => .path
  | .metadata => .header
  | .config => .file
  | .default => .naming

end Resolution

namespace ResolvedProject

def name (project : ResolvedProject) : Option Text :=
  (project.written.filter (!·.isEmpty)).or (project.inferred.map InferredProject.name)

/-- How the project was found, in words. -/
def reason (project : ResolvedProject) : Text :=
  let written := project.written.getD []
  let inferred := (project.inferred.map InferredProject.name).getD []
  let source := (project.inferred.map InferredProject.source).getD []
  match project.how with
  | .written => "Explicit project: ".toList ++ written
  | .path => "Path mapping: ".toList ++ source
  | .header => "Frontmatter key: ".toList ++ source
  | .file => "Config file: ".toList ++ source
  | .naming => "Default naming: ".toList ++ source
  | .parent => "Parent task project: ".toList ++ inferred
  | .disabled => "Project inference disabled".toList
  | .nothing => "No project source matched".toList

/-- No project, for a reason. -/
def none (how : Resolution) : ResolvedProject :=
  ⟨.none, .none, how⟩

def ofInferred (project : InferredProject) (how : Resolution) : ResolvedProject :=
  ⟨.none, some project, how⟩

end ResolvedProject

/-- The project that a value names; truth values name none. -/
def projectName? : Value → Option Text
  | .null | .bool _ => none
  | value => value.text?

namespace ProjectRules

/-- The enabled path mapping that a path falls under, the longest if there are several. -/
def mapping? (rules : ProjectRules) (path : Text) : Option PathMapping :=
  (rules.paths.filter fun mapping => mapping.enabled && ProjectPath.isUnder path mapping.pattern).foldl
    (fun best mapping => match best with
      | none => some mapping
      | some other =>
        if (ProjectPath.normalize other.pattern).length <
            (ProjectPath.normalize mapping.pattern).length
        then some mapping else some other)
    none

def readsHeader (rules : ProjectRules) (isSubtask : Bool) : Bool :=
  rules.header.enabled && rules.header.inherits && (!isSubtask || rules.header.subtasksInherit)

/-- The name that the path of a note, or a key of its header, gives to a project. -/
def defaultName? (rules : ProjectRules) (context : ProjectContext) : Option Text :=
  let path := ProjectPath.normalize context.path
  match rules.naming.source with
  | .fileName =>
    some (ProjectPath.fileName rules.naming.stripsExtension path) |>.filter (!·.isEmpty)
  | .folderName => some (ProjectPath.folderName path) |>.filter (!·.isEmpty)
  | .header => match rules.naming.headerKey with
    | none => none
    | some key => if key.isEmpty then none else (context.header.getText? key).bind projectName?

def namingWord : NamingSource → Text
  | .fileName => "filename".toList
  | .folderName => "foldername".toList
  | .header => "metadata".toList

def fromSource (rules : ProjectRules) (context : ProjectContext) (isSubtask : Bool) :
    ProjectSource → Option InferredProject
  | .path =>
    (rules.mapping? context.path).map fun mapping => ⟨.path, mapping.project, mapping.pattern⟩
  | .metadata =>
    if rules.readsHeader isSubtask then
      ((context.header.getText? rules.header.projectKey).bind projectName?).map fun name =>
        ⟨.metadata, name, rules.header.projectKey⟩
    else none
  | .config =>
    ((context.file.getD []).getText? "project".toList |>.bind projectName?).map fun name =>
      ⟨.config, name, rules.file.fileName⟩
  | .default =>
    if rules.naming.enabled then
      (rules.defaultName? context).map fun name => ⟨.default, name, namingWord rules.naming.source⟩
    else none

def sources : List ProjectSource :=
  [.path, .metadata, .config, .default]

/-- The project that a subtask takes over from its parent; one from a header is looked up anew. -/
def takenOver (parent : Option ResolvedProject) : Option InferredProject :=
  (parent.bind ResolvedProject.inferred).filter fun project => project.kind != .metadata

def infer (rules : ProjectRules) (context : ProjectContext) (isSubtask : Bool)
    (parent : Option ResolvedProject) : ResolvedProject :=
  match takenOver parent, sources.findSome? (rules.fromSource context isSubtask) with
  | some project, _ => .ofInferred project .parent
  | none, some project => .ofInferred project (.ofSource project.kind)
  | none, none => .none .nothing

end ProjectRules

/-- The rules under which projects are inferred, if they are. -/
def inferring (rules : Option ProjectRules) : Option ProjectRules :=
  rules.filter ProjectRules.infers

/-- The project of a task: the one on its line, or else an inferred one. -/
def resolveProject (rules : Option ProjectRules) (context : ProjectContext)
    (written : Option Text) (isSubtask : Bool)
    (parent : Option ResolvedProject) : ResolvedProject :=
  match (written.map trim).filter (!·.isEmpty), inferring rules with
  | some name, _ => ⟨some name, none, .written⟩
  | none, none => .none .disabled
  | none, some rules => rules.infer context isSubtask parent

/-- The value that a source names a project after, if it is one of the data of the note. -/
def ProjectRules.namingValue? (rules : ProjectRules) (context : ProjectContext) :
    ProjectSource → Option Value
  | .path => none
  | .metadata => context.header.getText? rules.header.projectKey
  | .config => (context.file.getD []).getText? "project".toList
  | .default => match rules.naming.source with
    | .header => rules.naming.headerKey.bind context.header.getText?
    | .fileName | .folderName => none

/-- The value that a project is named after, if it is one of the data of the note. -/
def ResolvedProject.namingValue? (rules : Option ProjectRules) (context : ProjectContext)
    (project : ResolvedProject) : Option Value :=
  (inferring rules).bind fun rules => project.inferred.bind fun inferred =>
    rules.namingValue? context inferred.kind

/-- The project, unless it is named after a value that cannot be written. -/
def ResolvedProject.named (rules : Option ProjectRules) (context : ProjectContext)
    (project : ResolvedProject) :
    Except Failure ResolvedProject :=
  match project.namingValue? rules context with
  | .some value => value.written.map fun _ => project
  | .none => .ok project

end Checklist
