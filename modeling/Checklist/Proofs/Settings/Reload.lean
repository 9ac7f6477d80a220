import Checklist.Proofs.LowerCase
import Checklist.Proofs.Schema
import Checklist.Proofs.Table
import Checklist.Proofs.Value.JsonReading
import Checklist.Settings.Data

/-! # Settings that are saved and loaded again

Settings that were loaded from any data come back as they are when they are written as data, or as
the text of a settings file, and loaded again. Main statements: what loading establishes
(`isValid_of_load`) is what settings need to be loaded from their own data (`load_toValue_iff`), and
the two together with the text (`load_saved`). -/

namespace Checklist
set_option autoImplicit false
open Text Schema

variable {data : Value} {settings : Settings}

/-! ## Valid settings -/

theorem lookup_nameOf {α : Type} [DecidableEq α] {names : List (Text × α)}
    (hnodup : (names.map (·.1)).Nodup) {a : α} (h : a ∈ names.map (·.2)) :
    names.lookup (nameOf names a) = some a := by
  obtain ⟨entry, hfind⟩ : ∃ entry, names.find? (fun entry => entry.2 = a) = some entry := by
    rw [← Option.isSome_iff_exists, List.find?_isSome]
    simpa using h
  have ha : entry.2 = a := by simpa using List.find?_some hfind
  rw [nameOf, hfind, ← ha]
  exact Table.lookup_of_mem hnodup (List.mem_of_find?_eq_some hfind)

theorem oneOf_nameOf {α : Type} [DecidableEq α] {names : List (Text × α)}
    (hnodup : (names.map (·.1)).Nodup) {a : α} (h : a ∈ names.map (·.2)) :
    oneOf names (.str (nameOf names a)) = .ok a := by
  simp [oneOf, named, Value.str?, lookup_nameOf hnodup h]

namespace Settings

/-- The limits are positive, symbols stand for fields that markup may set, tag keys are in lower
case, and none is filed twice. -/
structure IsValid (settings : Settings) : Prop where
  lineLimit : 1 ≤ settings.lineLimit
  metadataLimit : 1 ≤ settings.metadataLimit
  tabSize : 1 ≤ settings.tabSize
  symbols : (Table.keys settings.symbols).Nodup
  fields : ∀ entry ∈ settings.symbols, symbolField? entry.2.name = some entry.2
  tagKeys : (Table.keys settings.tagKeys).Nodup
  lower : ∀ entry ∈ settings.tagKeys, entry.1 ≠ [] ∧ lower entry.1 = entry.1
  pathDate : settings.pathDate ∈ pathDateNames.map (·.2)

end Settings

theorem name_of_symbolField? {s : Text} {field : Field} (h : symbolField? s = some field) :
    field.name = s :=
  (Field.ofName?_eq_some_iff.1 (Option.filter_eq_some_iff.1 h).1).symm

theorem isValid_readSymbols {pairs : List (Text × Text)} {table : Table Field}
    (h : readSymbols pairs = .ok table) :
    (Table.keys table).Nodup ∧ ∀ entry ∈ table, symbolField? entry.2.name = some entry.2 := by
  unfold readSymbols at h
  dsimp only at h
  split at h <;> cases h
  refine ⟨Table.nodup_keys_ofList _, fun entry hentry => ?_⟩
  obtain ⟨pair, -, hpair⟩ := List.mem_filterMap.1 (Table.mem_of_mem_ofList hentry)
  obtain ⟨field, hfield, rfl⟩ := Option.map_eq_some_iff.1 hpair
  rw [name_of_symbolField? hfield, hfield]

theorem isValid_readTagKeys (pairs : List (Text × Text)) :
    (Table.keys (readTagKeys pairs)).Nodup ∧ ∀ entry ∈ readTagKeys pairs, entry.1 ≠ [] ∧
      lower entry.1 = entry.1 := by
  refine ⟨Table.nodup_keys_ofList _, fun entry hentry => ?_⟩
  obtain ⟨pair, hpair, rfl⟩ := List.mem_map.1 (Table.mem_of_mem_ofList hentry)
  have hne : pair.1 ≠ [] := by simpa using (List.mem_filter.1 hpair).2
  exact ⟨lower_ne_nil hne, lower_lower pair.1⟩

namespace Settings

theorem isValid_default : IsValid {} where
  lineLimit := by decide
  metadataLimit := by decide
  tabSize := by decide
  symbols := by decide
  fields := by decide
  tagKeys := by decide
  lower := by decide +kernel
  pathDate := by decide

theorem load_eq_ok : load data = .ok settings ↔ schema data = .ok settings := by
  rw [load, Result.mapError_eq_ok, Checked.toExcept_eq_ok]

theorem isValid_of_load (h : load data = .ok settings) : settings.IsValid := by
  rw [load_eq_ok] at h
  simp only [schema, record_eq_ok_iff, Checked.seq_eq_ok, Checked.fmap_eq_ok] at h
  -- the fields from the last to the first
  obtain ⟨entries, -, _, pathDate,
    ⟨_, _, ⟨_, _,
      ⟨_, _, ⟨_, _, ⟨_, _, ⟨_, tagKeys, hfirst, htagKeys, rfl⟩, -, rfl⟩, -, rfl⟩, -, rfl⟩, -,
      rfl⟩, -, rfl⟩,
    hpathDate, rfl⟩ := h
  obtain ⟨_, symbols,
    ⟨_, tabSize, ⟨_, metadataLimit, ⟨_, lineLimit, hfirst, hlineLimit, rfl⟩, hmetadataLimit, rfl⟩,
      htabSize, rfl⟩,
    hsymbols, rfl⟩ := hfirst
  obtain ⟨_, _, ⟨_, _, ⟨_, _, ⟨_, _, ⟨_, -, rfl⟩, -, rfl⟩, -, rfl⟩, -, rfl⟩, -, rfl⟩ := hfirst
  have hd := isValid_default
  have hpositive : ∀ {names : List String} {default limit : Nat}, 1 ≤ default →
      optional names default (atLeast 1) entries = .ok limit → 1 ≤ limit := by
    intro names default limit hdefault hlimit
    rcases eq_or_exists_of_optional hlimit with rfl | ⟨value, hvalue⟩
    · exact hdefault
    · exact le_of_atLeast hvalue
  have hsymbolsValid : (Table.keys symbols).Nodup ∧ ∀ entry ∈ symbols,
      symbolField? entry.2.name = some entry.2 := by
    rcases eq_or_exists_of_optional hsymbols with rfl | ⟨value, hvalue⟩
    · exact ⟨hd.symbols, hd.fields⟩
    · obtain ⟨pairs, -, hpairs⟩ := check_eq_ok_iff.1 hvalue
      exact isValid_readSymbols hpairs
  have htagKeysValid : (Table.keys tagKeys).Nodup ∧ ∀ entry ∈ tagKeys, entry.1 ≠ [] ∧
      lower entry.1 = entry.1 := by
    rcases eq_or_exists_of_optional htagKeys with rfl | ⟨value, hvalue⟩
    · exact ⟨hd.tagKeys, hd.lower⟩
    · obtain ⟨pairs, -, hpairs⟩ := check_eq_ok_iff.1 hvalue
      obtain rfl := Except.ok.inj hpairs
      exact isValid_readTagKeys pairs
  have hpathDateValid : pathDate ∈ pathDateNames.map (·.2) := by
    rcases eq_or_exists_of_optional hpathDate with rfl | ⟨value, hvalue⟩
    · exact hd.pathDate
    · exact mem_of_named hvalue
  exact ⟨hpositive hd.lineLimit hlineLimit, hpositive hd.metadataLimit hmetadataLimit,
    hpositive hd.tabSize htabSize, hsymbolsValid.1,
    hsymbolsValid.2, htagKeysValid.1, htagKeysValid.2, hpathDateValid⟩

/-! ## Settings as data -/

end Settings

theorem StatusMarks.schema_toValue (marks : StatusMarks) :
    StatusMarks.schema marks.toValue = .ok marks := by
  obtain ⟨completed, inProgress, abandoned, planned, notStarted, others⟩ := marks
  cases others <;> rfl

theorem PathMapping.schema_toValue (mapping : PathMapping) :
    PathMapping.schema mapping.toValue = .ok mapping :=
  rfl

theorem KeyMapping.schema_toValue (mapping : KeyMapping) :
    KeyMapping.schema mapping.toValue = .ok mapping :=
  rfl

theorem NamingRules.schema_toValue (rules : NamingRules) :
    NamingRules.schema rules.toValue = .ok rules := by
  obtain ⟨source, headerKey, stripsExtension, enabled⟩ := rules
  cases source <;> cases headerKey <;> rfl

theorem ProjectRules.schema_toValue (rules : ProjectRules) :
    ProjectRules.schema rules.toValue = .ok rules := by
  have hpaths := listOf_map_eq_ok PathMapping.schema_toValue rules.paths
  have hkeys := listOf_map_eq_ok KeyMapping.schema_toValue rules.keys
  have hnaming := rules.naming.schema_toValue
  rw [schema, record_eq_ok_iff]
  refine ⟨_, rfl, ?_⟩
  simp only [Checked.seq_eq_ok, Checked.fmap_eq_ok]
  exact ⟨_, _,
    ⟨_, _, ⟨_, _, ⟨_, _, ⟨_, _, ⟨_, rfl, rfl⟩, Checked.under_eq_ok.2 hpaths, rfl⟩, rfl, rfl⟩, rfl,
      rfl⟩, Checked.under_eq_ok.2 hkeys, rfl⟩,
    Checked.under_eq_ok.2 hnaming, rfl⟩

namespace Settings

theorem readSymbols_toValue (h : settings.IsValid) :
    check texts readSymbols
      (.map (settings.symbols.map fun (symbol, field) => (.str symbol, .str field.name))) =
        .ok settings.symbols := by
  have htexts := texts_map (settings.symbols.map fun entry => (entry.1, entry.2.name))
  rw [List.map_map] at htexts
  refine check_eq_ok_iff.2 ⟨_, htexts, ?_⟩
  have hunknown : ((settings.symbols.map fun entry => (entry.1, entry.2.name)).map (·.2)).filter
      (fun field => (symbolField? field).isNone) = [] := by
    rw [List.filter_eq_nil_iff]
    simp only [List.map_map, List.mem_map]
    rintro _ ⟨entry, hentry, rfl⟩
    simp [h.fields entry hentry]
  have hread : ∀ read : Text × Field → Option (Text × Field),
      (∀ entry ∈ settings.symbols, read entry = some entry) →
      settings.symbols.filterMap read = settings.symbols :=
    fun _ hread => (List.filterMap_congr hread).trans List.filterMap_some
  rw [readSymbols, hunknown, List.filterMap_map,
    hread _ fun entry hentry => by simp [h.fields entry hentry], Table.ofList_of_nodup h.symbols]
  rfl

theorem readTagKeys_toValue (h : settings.IsValid) :
    check texts (fun pairs => .ok (readTagKeys pairs))
      (.map (settings.tagKeys.map fun (key, name) => (.str key, .str name))) =
      .ok settings.tagKeys := by
  refine check_eq_ok_iff.2 ⟨_, texts_map settings.tagKeys, congrArg Except.ok ?_⟩
  have hkept : settings.tagKeys.filter (fun pair => !pair.1.isEmpty) = settings.tagKeys :=
    List.filter_eq_self.2 fun entry hentry => by simp [(h.lower entry hentry).1]
  have hlower : settings.tagKeys.map (fun pair => (lower pair.1, pair.2)) = settings.tagKeys :=
    (List.map_congr_left fun entry hentry => by rw [(h.lower entry hentry).2, id]).trans (List.map_id _)
  rw [readTagKeys, hkept, hlower, Table.ofList_of_nodup h.tagKeys]

theorem atLeast_toValue {bound n : Nat} (h : bound ≤ n) : atLeast bound (.int n) = .ok n := by
  have hnot : ¬(n : Int) < bound := by omega
  simp only [atLeast, integer, Checked.andThen, hnot, if_false, Int.toNat_natCast]

theorem nullable_toValue (projects : Option ProjectRules) :
    nullable ProjectRules.schema
      (match projects with | some rules => rules.toValue | none => .null) = .ok projects := by
  cases projects with
  | none => rfl
  | some rules => exact Checked.map_eq_ok.2 ⟨rules, rules.schema_toValue, rfl⟩

theorem schema_toValue (h : settings.IsValid) : schema settings.toValue = .ok settings := by
  have hgrammars : oneOf Grammars.names (.str (nameOf Grammars.names settings.grammars)) =
      .ok settings.grammars :=
    oneOf_nameOf (by decide) (by cases settings.grammars <;> decide)
  have hpathDate : oneOf pathDateNames (.str (nameOf pathDateNames settings.pathDate)) =
      .ok settings.pathDate :=
    oneOf_nameOf (by decide) h.pathDate
  rw [schema, record_eq_ok_iff]
  refine ⟨_, rfl, ?_⟩
  simp only [Checked.seq_eq_ok, Checked.fmap_eq_ok]
  refine ⟨_, _,
    ⟨_, _, ⟨_, _,
      ⟨_, _, ⟨_, _,
        ⟨_, _, ⟨_, _,
          ⟨_, _, ⟨_, _,
            ⟨_, _, ⟨_, _,
              ⟨_, _, ⟨_, _, ⟨_, _, ⟨_, _, ⟨_, rfl, rfl⟩, rfl, rfl⟩, rfl, rfl⟩, rfl, rfl⟩,
    Checked.under_eq_ok.2 hgrammars, rfl⟩,
    Checked.under_eq_ok.2 (atLeast_toValue h.lineLimit), rfl⟩,
    Checked.under_eq_ok.2 (atLeast_toValue h.metadataLimit), rfl⟩,
    Checked.under_eq_ok.2 (atLeast_toValue h.tabSize), rfl⟩,
    Checked.under_eq_ok.2 (readSymbols_toValue h), rfl⟩, Checked.under_eq_ok.2
    (readTagKeys_toValue h), rfl⟩,
    Checked.under_eq_ok.2 settings.marks.schema_toValue, rfl⟩, Checked.under_eq_ok.2
    (nullable_toValue settings.projects), rfl⟩, rfl, rfl⟩, rfl, rfl⟩, rfl, rfl⟩,
    Checked.under_eq_ok.2 hpathDate, rfl⟩

theorem load_toValue_iff : load settings.toValue = .ok settings ↔ settings.IsValid :=
  ⟨isValid_of_load, fun h => load_eq_ok.2 (schema_toValue h)⟩

/-! ## The text of a settings file -/

end Settings

namespace Json

theorem isPlain_table {α : Type} {table : Table α} (hnodup : (Table.keys table).Nodup)
    {write : α → Value} (h : ∀ a, IsPlain (write a)) :
    IsPlain (.map (table.map fun (key, a) => (.str key, write a))) := by
  refine .map ⟨fun entry hentry => ?_, ?_⟩ fun entry hentry => ?_
  · obtain ⟨⟨key, a⟩, -, rfl⟩ := List.mem_map.1 hentry
    exact ⟨key, rfl⟩
  · have hkeys := hnodup.map (f := Value.str) fun _ _ heq => Value.str.inj heq
    rw [List.map_map]
    rwa [Table.keys, List.map_map] at hkeys
  · obtain ⟨⟨key, a⟩, -, rfl⟩ := List.mem_map.1 hentry
    exact h a

theorem isPlain_record {entries : Entries}
    (hkeys : entries.map Prod.fst = (entries.filterMap (·.1.str?)).map Value.str)
    (hnodup : decide (entries.filterMap (·.1.str?)).Nodup = true)
    (h : ∀ entry ∈ entries, IsPlain entry.2) : IsPlain (.map entries) := by
  refine .map ⟨fun entry hentry => ?_, ?_⟩ h
  · have hkey := List.mem_map_of_mem (f := Prod.fst) hentry
    rw [hkeys] at hkey
    obtain ⟨key, -, hkey⟩ := List.mem_map.1 hkey
    exact ⟨key, hkey.symm⟩
  · rw [hkeys]
    exact (of_decide_eq_true hnodup).map fun _ _ heq => Value.str.inj heq

end Json

open Json

theorem StatusMarks.isPlain_toValue (marks : StatusMarks) : IsPlain marks.toValue :=
  isPlain_record rfl rfl (by simp [IsPlain.str])

theorem PathMapping.isPlain_toValue (mapping : PathMapping) : IsPlain mapping.toValue :=
  isPlain_record rfl rfl (by simp [IsPlain.str, IsPlain.bool])

theorem KeyMapping.isPlain_toValue (mapping : KeyMapping) : IsPlain mapping.toValue :=
  isPlain_record rfl rfl (by simp [IsPlain.str, IsPlain.bool])

theorem HeaderRules.isPlain_toValue (rules : HeaderRules) : IsPlain rules.toValue :=
  isPlain_record rfl rfl (by simp [IsPlain.str, IsPlain.bool])

theorem ProjectFileRules.isPlain_toValue (rules : ProjectFileRules) : IsPlain rules.toValue :=
  isPlain_record rfl rfl (by simp [IsPlain.str, IsPlain.bool])

theorem NamingRules.isPlain_toValue (rules : NamingRules) : IsPlain rules.toValue := by
  have hkey : IsPlain (textOrNull rules.headerKey) := by
    cases rules.headerKey with
    | none => exact .null
    | some key => exact .str key
  exact isPlain_record rfl rfl (by simp [IsPlain.str, IsPlain.bool, hkey])

theorem isPlain_map {α : Type} {write : α → Value} (h : ∀ a, IsPlain (write a)) (items : List α) :
    IsPlain (.list (items.map write)) := by
  refine .list fun item hitem => ?_
  obtain ⟨a, -, rfl⟩ := List.mem_map.1 hitem
  exact h a

theorem ProjectRules.isPlain_toValue (rules : ProjectRules) : IsPlain rules.toValue :=
  isPlain_record rfl rfl (by simp [IsPlain.bool, isPlain_map PathMapping.isPlain_toValue,
    isPlain_map KeyMapping.isPlain_toValue,
    HeaderRules.isPlain_toValue, ProjectFileRules.isPlain_toValue, NamingRules.isPlain_toValue])

namespace Settings

/-- The limits have no more digits than can be written. -/
def HasWritableLimits (settings : Settings) : Prop :=
  ∀ limit ∈ [settings.lineLimit, settings.metadataLimit, settings.tabSize],
    (ofNat limit).length ≤ digitLimit

theorem isPlain_projects (projects : Option ProjectRules) :
    IsPlain (match projects with | some rules => rules.toValue | none => .null) := by
  cases projects with
  | none => exact .null
  | some rules => exact rules.isPlain_toValue

theorem isPlain_toValue (h : settings.IsValid) (hlimits : settings.HasWritableLimits) :
    IsPlain settings.toValue := by
  have hlimit : ∀ limit ∈ [settings.lineLimit, settings.metadataLimit, settings.tabSize],
      IsPlain (.int limit) :=
    fun limit hmem => .int (by simpa [Value.isWritable] using hlimits limit hmem)
  have hsymbols :
      IsPlain (.map (settings.symbols.map fun (symbol, field) => (.str symbol, .str field.name))) :=
    isPlain_table h.symbols fun field => .str field.name
  have htagKeys : IsPlain (.map (settings.tagKeys.map fun (key, name) => (.str key, .str name))) :=
    isPlain_table h.tagKeys IsPlain.str
  simp only [List.forall_mem_cons] at hlimit
  refine isPlain_record rfl rfl ?_
  simp only [List.forall_mem_cons, IsPlain.str, IsPlain.bool, hlimit, hsymbols, htagKeys,
    settings.marks.isPlain_toValue, true_and]
  exact ⟨isPlain_projects settings.projects, by simp⟩

/-- Settings that were loaded from any data are loaded from their own data as they are, and so they
are from the text that is saved. -/
theorem load_saved (h : load data = .ok settings) :
    load settings.toValue = .ok settings ∧
    (settings.HasWritableLimits →
      writeAt Value.display Style.report 0 settings.toValue = .ok settings.saveText ∧
      ∀ path, loadText path settings.saveText = .ok settings) := by
  have hload := load_toValue_iff.2 (isValid_of_load h)
  refine ⟨hload, fun hlimits => ?_⟩
  have hplain := isPlain_toValue (isValid_of_load h) hlimits
  obtain ⟨s, hs⟩ := @exists_writeAt Style.report Value.display rfl _ hplain 0
  have hsave : settings.saveText = s := by rw [saveText, hs]; rfl
  have hread := read_writeAt rfl hplain hs
  rw [hsave]
  exact ⟨hs, fun path => by rw [loadText, hread]; exact hload⟩

/-- Numerals and words for numbers and truth values, a grammar, tag keys that are one in lower case,
no rules for projects, and a key that is none of the settings. -/
def rough : Value :=
  .map [(.str "tab_size".toList, .str " 8 ".toList), (.str "parse_headings".toList, .str "Yes".toList),
    (.str "metadata_parse_mode".toList, .str "DataviewOnly".toList),
    (.str "special_tag_prefixes".toList,
    .map [(.str "ΑΣ".toList, .str "area".toList), (.str [], .str "none".toList),
      (.str "ας".toList, .str "place".toList)]),
    (.str "emoji_mapping".toList, .map [(.str "⌛".toList, .str "dueDate".toList)]),
    (.str "project_config".toList, .null), (.str "colour".toList, .str "red".toList)]

def smooth : Settings :=
  { readsHeadings := true, grammars := .dataviewOnly, tabSize := 8,
    symbols := [("⌛".toList, .date .due)],
    tagKeys := [("ας".toList, "place".toList)], projects := none }

theorem load_rough : load rough = .ok smooth := by
  decide +kernel

theorem load_saved_rough : load rough = .ok smooth ∧ smooth.HasWritableLimits ∧
    load smooth.toValue = .ok smooth ∧
    ∀ path, loadText path smooth.saveText = .ok smooth := by
  have hlimits : smooth.HasWritableLimits := by
    unfold HasWritableLimits
    decide +kernel
  have hsaved := load_saved load_rough
  exact ⟨load_rough, hlimits, hsaved.1, (hsaved.2 hlimits).2⟩

end Settings
end Checklist
