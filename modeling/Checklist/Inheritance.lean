import Checklist.Task.Basic
import Checklist.Value.Meaning

/-! # Inheritance

Tasks inherit from the header of their note and from the project file: where a task has no value of
its own it takes the one filed there. A key that stands for a field is read as that field; any other
key is kept as it is. What describes a task itself is never inherited. -/

namespace Checklist.Inheritance
set_option autoImplicit false
open Text

/-- The keys that describe a task itself or its place, in lower case. -/
def ownKeys : List Text :=
  ["id", "content", "status", "rawstatus", "completed", "line", "linenumber", "originalmarkdown",
   "filepath", "heading", "parent", "parentid", "children", "tags", "comment", "indentlevel",
   "actualindent", "listmarker", "tgproject", "project", "aliases", "cssclasses"].map String.toList

def headerRules (rules : Option ProjectRules) : HeaderRules :=
  match rules with
  | some rules => rules.header
  | none => {}

def isOwn (rules : Option ProjectRules) (key : Text) : Bool :=
  (lower (headerRules rules).projectKey :: ownKeys).contains (lower key)

def reaches (rules : Option ProjectRules) (isSubtask : Bool) : Bool :=
  (headerRules rules).inherits && (!isSubtask || (headerRules rules).subtasksInherit)

/-- Files the values of mapped keys under further keys. -/
def mapKeys (mappings : List KeyMapping) (source : Entries) : Entries :=
  mappings.foldl (fun mapped mapping =>
    match mapping.enabled, source.getText? mapping.source with
    | true, some value => mapped.set (.str mapping.target) value
    | _, _ => mapped) source

/-- What tasks inherit from: the project file, then the header, then the mapped keys. -/
def source (rules : Option ProjectRules) (header : Entries) (file : Option Entries) : Entries :=
  mapKeys ((rules.map ProjectRules.keys).getD []) (Entries.update (file.getD []) header)

/-- The metadata with a field set to what a value means for it, if it means anything. -/
def fill? (today : Date) (metadata : Metadata) (field : Field) (value : Value) :
    Except Failure (Option Metadata) :=
  match field with
  | .date kind => do
    return (← value.timestamp? today).map fun timestamp =>
      { metadata with dates := metadata.dates.set (some timestamp) kind }
  | .priority =>
    do return (← value.level?).map fun level => { metadata with priority := some (level : Int) }
  | .recurrence =>
    do return (← value.recurrence?).map fun recurrence =>
      { metadata with recurrence := some recurrence }
  | .project =>
    do return (← value.writtenText?).map fun name => { metadata with project := some name }
  | .context =>
    do return (← value.writtenText?).map fun name => { metadata with context := some name }
  | .area => do return (← value.writtenText?).map fun name => { metadata with area := some name }
  | .tags => .ok none

/-- Takes over a value under a key that stands for a field; a value that means nothing for it is
written to the log. -/
def inheritField (today : Date) (metadata : Metadata) (field : Field) (value : Value) :
    Except Failure Metadata := do
  match ← fill? today metadata field value with
  | some filled => return filled.markInherited (.str field.name)
  | none => value.written.map fun _ => metadata

def inherit (rules : Option ProjectRules) (today : Date) (metadata : Metadata) (key value : Value) :
    Except Failure Metadata :=
  if value.isNull then .ok metadata
  else do
    let word ← key.written
    if isOwn rules word then return metadata
    match Field.ofKey? word with
    | none =>
      if metadata.custom.has key then return metadata
      else return { metadata with custom := metadata.custom.set key value }.markInherited key
    | some field =>
      if metadata.has field then return metadata else inheritField today metadata field value

def apply (rules : Option ProjectRules) (today : Date) (source : Entries) (isSubtask : Bool)
    (metadata : Metadata) :
    Except Failure Metadata :=
  if reaches rules isSubtask then
    source.foldlM (fun metadata entry => inherit rules today metadata entry.1 entry.2) metadata
  else .ok metadata

end Checklist.Inheritance
