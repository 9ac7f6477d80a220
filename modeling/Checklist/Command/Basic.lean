import Checklist.Command.Arguments

/-! # Commands

What the program can be asked to do: show the tasks of a note, filter or count those of a folder,
and check or follow a workflow. Flags may stand before the name of a command; those behind it belong
to the command. -/

namespace Checklist
set_option autoImplicit false
open Text

namespace Command

/-- How the tasks of a note are shown. -/
inductive Form where
  | table
  | data
  | lines (style : Text)
  deriving DecidableEq, Repr

/-- Files that narrow down which tasks are shown, and a text to look for. -/
structure Selection where
  tree : Option Text
  view : Option Text
  query : Option Text
  hidesDone : Bool
  deriving DecidableEq, Repr

end Command

/-- What the program is asked to do; paths are as they were given. -/
inductive Command where
  | help
  | version
  | parse (file : Text) (form : Command.Form) (settings : Option Text)
  | filter (path : Text) (selection : Command.Selection) (asData : Bool) (settings : Option Text)
  | index (folder : Text) (asData : Bool) (settings : Option Text)
  | validate (file : Text)
  | next (file stage : Text) (subStage : Option Text)
  deriving DecidableEq, Repr

namespace Command

/-- Why arguments are no command. -/
inductive Misuse where
  | arguments
  | unknownLevel
  deriving DecidableEq, Repr

/-! ## What each command knows -/

def helpFlag : Flag := { name := "help".toList }

def dataFlag : Flag := { name := "json".toList }

def settingsFlag : Flag := { name := "config".toList, letter := some 'c', takesValue := true }

def mainGrammar : Grammar where
  flags := [helpFlag, { name := "version".toList, letter := some 'v' },
    { name := "log-level".toList, takesValue := true }]
  mixes := false

def workflowGrammar : Grammar where
  flags := [helpFlag]
  mixes := false

def parseGrammar : Grammar where
  flags := [helpFlag, dataFlag, settingsFlag, { name := "markdown".toList, takesValue := true }]

def filterGrammar : Grammar where
  flags := [helpFlag, dataFlag, settingsFlag,
    { name := "filter".toList, letter := some 'f', takesValue := true },
    { name := "view".toList, takesValue := true },
    { name := "query".toList, letter := some 'q', takesValue := true },
    { name := "hide-done".toList }]

def indexGrammar : Grammar where
  flags := [helpFlag, dataFlag, settingsFlag,
    { name := "workers".toList, letter := some 'w', takesValue := true }]

def validateGrammar : Grammar where
  flags := [helpFlag]

def nextGrammar : Grammar where
  flags := [helpFlag, { name := "sub-stage".toList, letter := some 's', takesValue := true }]

def levels : List Text :=
  ["TRACE".toList, "DEBUG".toList, "INFO".toList, "SUCCESS".toList, "WARNING".toList,
   "ERROR".toList, "CRITICAL".toList]

/-! ## Reading -/

/-- How tasks are to be shown; data come before lines. -/
def formOf (arguments : Arguments) : Form :=
  if arguments.has "json" then .data
  else match (arguments.value? "markdown").filter (!·.isEmpty) with
    | some style => .lines style
    | none => .table

/-- The command in arguments that are read; none if the words do not fit it. -/
abbrev Reader := Arguments → Option Command

def readParse : Reader := fun arguments => match arguments.words with
  | [file] => some (.parse file (formOf arguments) (arguments.value? "config"))
  | _ => none

def readFilter : Reader := fun arguments => match arguments.words with
  | [path] =>
    let selection : Selection :=
      ⟨arguments.value? "filter", arguments.value? "view", arguments.value? "query",
        arguments.has "hide-done"⟩
    some (.filter path selection (arguments.has "json") (arguments.value? "config"))
  | _ => none

/-- The number of workers is one or more, if it is given. -/
def hasWorkers (arguments : Arguments) : Bool :=
  match arguments.value? "workers" with
  | none => true
  | some s => (readInt? s).any fun count => 1 ≤ count

def readIndex : Reader := fun arguments => match arguments.words with
  | [folder] => if hasWorkers arguments then
      some (.index folder (arguments.has "json") (arguments.value? "config")) else none
  | _ => none

def readValidate : Reader := fun arguments => match arguments.words with
  | [file] => some (.validate file)
  | _ => none

def readNext : Reader := fun arguments => match arguments.words with
  | [file, stage] => some (.next file stage (arguments.value? "sub-stage"))
  | _ => none

/-- Reads the arguments of one command; help is asked for instead of it. -/
def readOne (grammar : Grammar) (reader : Reader) (arguments : List Text) : Option Command :=
  (grammar.read arguments).bind fun arguments =>
    if arguments.has "help" then some .help else reader arguments

def plainCommands : List (Text × Grammar × Reader) :=
  [("parse".toList, parseGrammar, readParse), ("filter".toList, filterGrammar, readFilter),
   ("index".toList, indexGrammar, readIndex)]

def workflowCommands : List (Text × Grammar × Reader) :=
  [("validate".toList, validateGrammar, readValidate), ("next".toList, nextGrammar, readNext)]

def readNamed (commands : List (Text × Grammar × Reader)) (name : Text) (arguments : List Text) :
    Option Command :=
  (commands.lookup name).bind fun (grammar, reader) => readOne grammar reader arguments

def readWorkflow (arguments : List Text) : Option Command :=
  (workflowGrammar.read arguments).bind fun arguments =>
    if arguments.has "help" then some .help
    else match arguments.words with
      | [] => none
      | name :: rest => readNamed workflowCommands name rest

/-- The level of messages is known, if one is given. -/
def hasLevel (arguments : Arguments) : Bool :=
  match (arguments.value? "log-level").filter (!·.isEmpty) with
  | none => true
  | some level => levels.contains (level.map Char.toUpper)

def ofArguments (arguments : List Text) : Except Misuse Command :=
  match mainGrammar.read arguments with
  | none => .error .arguments
  | some arguments =>
    match (arguments.flags.map (·.1)).find? fun name =>
        name == "version".toList || name == "help".toList with
    | some name => .ok (if name == "version".toList then .version else .help)
    | none => match arguments.words with
      | [] => .error .arguments
      | name :: rest =>
        let isWorkflow := name == "workflow".toList
        if !isWorkflow && (plainCommands.lookup name).isNone then .error .arguments
        else if !hasLevel arguments then .error .unknownLevel
        else match if isWorkflow then readWorkflow rest else readNamed plainCommands name rest with
          | some command => .ok command
          | none => .error .arguments

example : (ofArguments ["index".toList, "v".toList, "--json".toList, "-w2".toList]).toOption =
    some (.index "v".toList true none) := by
  decide +kernel

end Command
end Checklist
