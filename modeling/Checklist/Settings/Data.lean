import Checklist.Settings.Basic
import Checklist.Schema
import Checklist.Value.Json

/-! # Settings as data

Settings are read from data by schema and written as data again. Of all that is wrong with the data
the first issue is reported. -/

namespace Checklist
set_option autoImplicit false
open Text Schema

/-! ## Reading -/

def Grammars.names : List (Text × Grammars) :=
  [("EmojiOnly".toList, .emojiOnly), ("DataviewOnly".toList, .dataviewOnly), ("Both".toList, .both)]

def StatusCategory.names : List (Text × StatusCategory) :=
  [("notStarted".toList, .notStarted), ("inProgress".toList, .inProgress),
   ("abandoned".toList, .abandoned), ("planned".toList, .planned), ("completed".toList, .completed)]

def pathDateNames : List (Text × DateField) :=
  [("due".toList, .due), ("start".toList, .start), ("scheduled".toList, .scheduled)]

def NamingSource.names : List (Text × NamingSource) :=
  [("filename".toList, .fileName), ("foldername".toList, .folderName), ("metadata".toList, .header)]

def nameOf {α : Type} [DecidableEq α] (names : List (Text × α)) (a : α) : Text :=
  ((names.find? fun entry => entry.2 = a).map (·.1)).getD []

def symbolField? (s : Text) : Option Field :=
  (Field.ofName? s).filter fun
    | .date _ | .recurrence | .priority => true
    | _ => false

/-- The table of symbols, all of whose fields must be known. -/
def readSymbols (pairs : List (Text × Text)) : Except Text (Table Field) :=
  let unknown := (pairs.map (·.2)).filter fun field => (symbolField? field).isNone
  if unknown.isEmpty then
    .ok (Table.ofList (pairs.filterMap fun (symbol, field) => (symbolField? field).map fun field =>
      (symbol, field)))
  else
    .error ("emoji_mapping targets unknown fields: ".toList ++
      join ", ".toList (sort unknown.eraseDups))

/-- The table of tag keys, in lower case and without the empty one. -/
def readTagKeys (pairs : List (Text × Text)) : Table Text :=
  Table.ofList ((pairs.filter fun pair => !pair.1.isEmpty).map fun pair => (lower pair.1, pair.2))

namespace StatusMarks

def schema : Schema StatusMarks :=
  record "StatusMapping" fun entries =>
    let d : StatusMarks := {}
    StatusMarks.mk
      <$> optional ["completed"] d.completed text entries
      <*> optional ["in_progress"] d.inProgress text entries
      <*> optional ["abandoned"] d.abandoned text entries
      <*> optional ["planned"] d.planned text entries
      <*> optional ["not_started"] d.notStarted text entries
      <*> optional ["count_other_statuses_as"] d.others (oneOf StatusCategory.names) entries

def toValue (marks : StatusMarks) : Value :=
  .map [(.str "completed".toList, .str marks.completed),
    (.str "in_progress".toList, .str marks.inProgress),
    (.str "abandoned".toList, .str marks.abandoned), (.str "planned".toList, .str marks.planned),
    (.str "not_started".toList, .str marks.notStarted),
    (.str "count_other_statuses_as".toList, .str (nameOf StatusCategory.names marks.others))]

end StatusMarks

def PathMapping.schema : Schema PathMapping :=
  record "PathMapping" fun entries =>
    PathMapping.mk
      <$> required ["path_pattern"] text entries
      <*> required ["project_name"] text entries
      <*> optional ["enabled"] true truth entries

def PathMapping.toValue (mapping : PathMapping) : Value :=
  .map [(.str "path_pattern".toList, .str mapping.pattern),
    (.str "project_name".toList, .str mapping.project),
    (.str "enabled".toList, .bool mapping.enabled)]

def HeaderRules.schema : Schema HeaderRules :=
  record "MetadataConfig" fun entries =>
    let d : HeaderRules := {}
    HeaderRules.mk
      <$> optional ["metadata_key"] d.projectKey text entries
      <*> optional ["inherit_from_frontmatter"] d.inherits truth entries
      <*> optional ["inherit_from_frontmatter_for_subtasks"] d.subtasksInherit truth entries
      <*> optional ["enabled"] d.enabled truth entries

def HeaderRules.toValue (rules : HeaderRules) : Value :=
  .map [(.str "metadata_key".toList, .str rules.projectKey),
    (.str "inherit_from_frontmatter".toList, .bool rules.inherits),
    (.str "inherit_from_frontmatter_for_subtasks".toList, .bool rules.subtasksInherit),
    (.str "enabled".toList, .bool rules.enabled)]

def ProjectFileRules.schema : Schema ProjectFileRules :=
  record "ConfigFileSettings" fun entries =>
    let d : ProjectFileRules := {}
    ProjectFileRules.mk
      <$> optional ["file_name"] d.fileName text entries
      <*> optional ["search_recursively"] d.climbs truth entries
      <*> optional ["enabled"] d.enabled truth entries

def ProjectFileRules.toValue (rules : ProjectFileRules) : Value :=
  .map [(.str "file_name".toList, .str rules.fileName),
    (.str "search_recursively".toList, .bool rules.climbs),
    (.str "enabled".toList, .bool rules.enabled)]

def KeyMapping.schema : Schema KeyMapping :=
  record "MetadataMapping" fun entries =>
    KeyMapping.mk
      <$> required ["source_key"] text entries
      <*> required ["target_key"] text entries
      <*> optional ["enabled"] true truth entries

def KeyMapping.toValue (mapping : KeyMapping) : Value :=
  .map [(.str "source_key".toList, .str mapping.source),
    (.str "target_key".toList, .str mapping.target),
    (.str "enabled".toList, .bool mapping.enabled)]

def NamingRules.schema : Schema NamingRules :=
  record "ProjectNamingStrategy" fun entries =>
    let d : NamingRules := {}
    NamingRules.mk
      <$> optional ["strategy"] d.source (literal NamingSource.names) entries
      <*> optional ["metadata_key"] d.headerKey (nullable text) entries
      <*> optional ["strip_extension"] d.stripsExtension truth entries
      <*> optional ["enabled"] d.enabled truth entries

def textOrNull : Option Text → Value
  | some s => .str s
  | none => .null

def NamingRules.toValue (rules : NamingRules) : Value :=
  .map [(.str "strategy".toList, .str (nameOf NamingSource.names rules.source)),
    (.str "metadata_key".toList, textOrNull rules.headerKey),
    (.str "strip_extension".toList, .bool rules.stripsExtension),
    (.str "enabled".toList, .bool rules.enabled)]

namespace ProjectRules

def schema : Schema ProjectRules :=
  record "ProjectConfig" fun entries =>
    let d : ProjectRules := {}
    ProjectRules.mk
      <$> optional ["enable_enhanced_project"] d.infers truth entries
      <*> optional ["path_mappings"] d.paths (listOf PathMapping.schema) entries
      <*> optional ["metadata_config"] d.header HeaderRules.schema entries
      <*> optional ["config_file"] d.file ProjectFileRules.schema entries
      <*> optional ["metadata_mappings"] d.keys (listOf KeyMapping.schema) entries
      <*> optional ["default_project_naming"] d.naming NamingRules.schema entries

def toValue (rules : ProjectRules) : Value :=
  .map [(.str "enable_enhanced_project".toList, .bool rules.infers),
    (.str "path_mappings".toList, .list (rules.paths.map PathMapping.toValue)),
    (.str "metadata_config".toList, rules.header.toValue),
    (.str "config_file".toList, rules.file.toValue),
    (.str "metadata_mappings".toList, .list (rules.keys.map KeyMapping.toValue)),
    (.str "default_project_naming".toList, rules.naming.toValue)]

end ProjectRules

namespace Settings

def schema : Schema Settings :=
  record "ParserConfig" fun entries =>
    let d : Settings := {}
    Settings.mk
      <$> optional ["parse_comments"] d.readsComments truth entries
      <*> optional ["parse_metadata"] d.readsMetadata truth entries
      <*> optional ["parse_tags"] d.readsTags truth entries
      <*> optional ["parse_headings"] d.readsHeadings truth entries
      <*> optional ["metadata_parse_mode"] d.grammars (oneOf Grammars.names) entries
      <*> optional ["max_parse_iterations"] d.lineLimit (atLeast 1) entries
      <*> optional ["max_metadata_iterations"] d.metadataLimit (atLeast 1) entries
      <*> optional ["tab_size"] d.tabSize (atLeast 1) entries
      <*> optional ["emoji_mapping"] d.symbols (check texts readSymbols) entries
      <*> optional ["special_tag_prefixes"] d.tagKeys
        (check texts fun pairs => .ok (readTagKeys pairs)) entries
      <*> optional ["status_mapping"] d.marks StatusMarks.schema entries
      <*> optional ["project_config"] d.projects (nullable ProjectRules.schema) entries
      <*> optional ["use_daily_note_path_as_date"] d.datesFromPaths truth entries
      <*> optional ["daily_note_format"] d.pathFormat text entries
      <*> optional ["daily_note_path"] d.pathFolder text entries
      <*> optional ["use_as_date_type"] d.pathDate (oneOf pathDateNames) entries

def toValue (settings : Settings) : Value :=
  .map [(.str "parse_comments".toList, .bool settings.readsComments),
    (.str "parse_metadata".toList, .bool settings.readsMetadata),
    (.str "parse_tags".toList, .bool settings.readsTags),
    (.str "parse_headings".toList, .bool settings.readsHeadings),
    (.str "metadata_parse_mode".toList, .str (nameOf Grammars.names settings.grammars)),
    (.str "max_parse_iterations".toList, .int settings.lineLimit),
    (.str "max_metadata_iterations".toList, .int settings.metadataLimit),
    (.str "tab_size".toList, .int settings.tabSize),
    (.str "emoji_mapping".toList,
    .map (settings.symbols.map fun (symbol, field) => (.str symbol, .str field.name))),
    (.str "special_tag_prefixes".toList,
    .map (settings.tagKeys.map fun (key, name) => (.str key, .str name))),
    (.str "status_mapping".toList, settings.marks.toValue),
    (.str "project_config".toList, match settings.projects with
      | some rules => rules.toValue
      | none => .null),
    (.str "use_daily_note_path_as_date".toList, .bool settings.datesFromPaths),
    (.str "daily_note_format".toList, .str settings.pathFormat),
    (.str "daily_note_path".toList, .str settings.pathFolder),
    (.str "use_as_date_type".toList, .str (nameOf pathDateNames settings.pathDate))]

/-! ## Loading -/

/-- Why there are no settings. -/
inductive Error where
  | invalid (issue : Issue)
  | notJson (path : Text)
  | hugeNumber
  | notSettings (kind : Text)
  deriving DecidableEq, Repr

def Error.message : Error → Text
  | .invalid issue =>
    issue.cause.message ++
      (if issue.place.isEmpty then [] else " (field: ".toList ++ issue.place ++ [')'])
  | .notJson path => "Invalid JSON in ".toList ++ path
  | .hugeNumber => []
  | .notSettings kind => "Expected ParserConfig, got ".toList ++ kind

def load (data : Value) : Except Error Settings :=
  (schema data).toExcept.mapError .invalid

/-- The settings for a metadata format, changed by data. -/
def loadFor (format : Text) (data : Entries) : Except Error Settings :=
  let grammars : Grammars := if format == "dataview".toList then .dataviewOnly else .both
  load (.map (Entries.update
    [(.str "metadata_parse_mode".toList, .str (nameOf Grammars.names grammars))] data))

def kindName : Value → Text
  | .null => "NoneType".toList
  | .bool _ => "bool".toList
  | .int _ => "int".toList
  | .float _ => "float".toList
  | .str _ => "str".toList
  | .bytes _ => "bytes".toList
  | .date _ => "date".toList
  | .moment _ _ => "datetime".toList
  | .list _ => "list".toList
  | .set _ => "set".toList
  | .map _ => "dict".toList
  | .ring isMapping => (if isMapping then "dict" else "list").toList

/-- The settings that a mapping describes; other data are not even tried. -/
def ofData (data : Value) : Except Error Settings :=
  match data with
  | .map _ => load data
  | _ => .error (.notSettings (kindName data))

def loadText (path s : Text) : Except Error Settings :=
  match Json.read s with
  | .ok data => load data
  | .error .malformed => .error (.notJson path)
  | .error .hugeNumber => .error .hugeNumber

def saveText (settings : Settings) : Text :=
  ((Json.writeAt Value.display Json.Style.report 0 settings.toValue).toOption).getD []

end Settings
end Checklist
