import Checklist.Markup.Token
import Checklist.Settings.Basic
import Checklist.Calendar.DateText
import Checklist.Priority
import Checklist.Text.Word

/-! # The four grammars

Inline fields in brackets, emoji with a value after them, tags, and contexts. A mark whose value
makes no sense for its field is no token and stays in the text. -/

namespace Checklist.Markup
set_option autoImplicit false
open Text

/-! ## Inline fields -/

def isInner (c : Char) : Bool :=
  c != '[' && c != ']'

/-- The key and the value of the inline field at the start of a text. -/
def inlineField? (s : Text) : Option (Text × Text) :=
  match s with
  | '[' :: rest =>
    let isKey := fun c => isInner c && c != ':'
    match rest.takeWhile isKey, rest.dropWhile isKey with
    | key@(_ :: _), ':' :: ':' :: after =>
      if (after.dropWhile isInner).head? == some ']' then
        some (key, after.takeWhile isInner) else none
    | _, _ => none
  | _ => none

/-- The length of the inline field at the start of a text. -/
def inlineLength? : MarkLength := fun _ s =>
  (inlineField? s).map fun (key, value) => key.length + value.length + 4

def inlineSlot (settings : Settings) (key : Text) : Slot :=
  match Field.ofKey? key, settings.tagKeys.lookup (lower key) with
  | some field, _ => .field field
  | none, some name => Slot.ofName name
  | none, none => Slot.ofName key

/-- The value makes sense for the slot: a date is one, and a priority is a level. -/
def makesSense (today : Date) (slot : Slot) (value : Text) : Except Failure Bool :=
  match slot with
  | .field (.date _) => (DateText.resolve today value).map Option.isSome
  | .field .priority => (Priority.resolve value).map Option.isSome
  | _ => .ok true

/-- Inline fields such as `[due:: 2024-01-15]`. -/
def dataview (settings : Settings) (today : Date) : Grammar where
  length? := inlineLength?
  judge _ site := match inlineField? site.mark with
    | none => .ok none
    | some (key, value) => do
      let key := trim key
      let value := trim value
      let slot := inlineSlot settings key
      if key.isEmpty || value.isEmpty then return none
      if ← makesSense today slot value then
        return some ⟨⟨.dataview, slot, value, site.mark⟩, false, site.after⟩
      else return none

/-! ## Tags and contexts -/

/-- A tag or a context does not start after one of these. -/
def isGlue (c : Char) : Bool :=
  c.isAlphanum || "#@$%^&*".toList.contains c

/-- The text of the tag or context that starts with a sign. -/
def signed? (sign : Char) (isBody : Char → Bool) (previous : Option Char) (s : Text) :
    Option Text :=
  match s with
  | c :: rest =>
    if c == sign && !previous.any isGlue && !(rest.takeWhile isBody).isEmpty then
      some (rest.takeWhile isBody) else none
  | [] => none

def tagText? (previous : Option Char) (s : Text) : Option Text :=
  signed? '#' (fun c => isWord c || c == '/' || c == '-') previous s

def contextText? (previous : Option Char) (s : Text) : Option Text :=
  signed? '@' (fun c => isWord c || c == '-') previous s

/-- A number after a hash sign refers to something else, and slashes alone name nothing. -/
def isTagName (tag : Text) : Bool :=
  !tag.all isDigit && !tag.all (· == '/')

def tagLength? : MarkLength := fun previous s =>
  ((tagText? previous s).filter isTagName).map fun tag => tag.length + 1

def contextLength? : MarkLength := fun previous s =>
  (contextText? previous s).map fun context => context.length + 1

/-- The slot and the value of a tag, and whether it is a plain one. -/
def tagMeaning (settings : Settings) (tag : Text) : Slot × Text × Bool :=
  match cut '/' tag with
  | (key, some value) => match settings.tagKeys.lookup (lower key) with
    | some name => if name.isEmpty || value.isEmpty then (.field .tags, tag, true) else
        (Slot.ofName name, value, false)
    | none => (.field .tags, tag, true)
  | (_, none) => (.field .tags, tag, true)

/-- Tags such as `#home`, and tags such as `#project/garden` that fill a slot. -/
def tags (settings : Settings) : Grammar where
  length? := tagLength?
  judge _ site :=
    let (slot, value, repeats) := tagMeaning settings (site.mark.drop 1)
    .ok (some ⟨⟨.tag, slot, value, site.mark⟩, repeats, site.after⟩)

def contexts : Grammar where
  length? := contextLength?
  judge _ site :=
    .ok (some ⟨⟨.context, .field .context, site.mark.drop 1, site.mark⟩, false, site.after⟩)

/-! ## Emoji -/

/-- The symbols of the settings without variation selectors. -/
def plainSymbols (settings : Settings) : Table Field :=
  Table.ofList (settings.symbols.map fun (symbol, field) => (Priority.plain symbol, field))

/-- The longer one of two symbols at the start of a text, if the second one stands there; of
equals the first. -/
def longerSymbol (s : Text) (best : Option Text) (symbol : Text) : Option Text :=
  if symbol.isPrefixOf s && best.all (·.length < symbol.length) then some symbol else best

/-- The symbol at the start of a text, the longest if there are several. -/
def symbol? (symbols : Table Field) (s : Text) : Option Text :=
  (symbols.map (·.1)).foldl (longerSymbol s) none

/-- The length of the symbol at the start of a text, with a variation selector after it. -/
def symbolLength? (symbols : Table Field) : MarkLength := fun _ s =>
  (symbol? symbols s).map fun symbol =>
    symbol.length + (if (s.drop symbol.length).head? == some Priority.variationSelector then 1 else 0)

def atBoundary (s : Text) : Bool :=
  s.head?.all isBlank

/-- The word for a level after a symbol, and the text after it. -/
def levelWord? (s : Text) : Option (Text × Text) :=
  let rest := trimStart s
  let word := rest.takeWhile Char.isAlpha
  let after := rest.dropWhile Char.isAlpha
  if !word.isEmpty && atBoundary after && Priority.isWord word then some (word, after) else none

/-- The text after a literal of a day and a time with one space between them. -/
def afterMoment? (s : Text) : Option Text := do
  let (_, rest) ← Date.scan? s
  let (_, after) ← DateText.time? (← Date.mark? ' ' rest)
  if atBoundary after then some after else none

def afterKeyword? (s : Text) : Option Text :=
  let first := s.takeWhile (!isBlank ·)
  let rest := trimStart (s.dropWhile (!isBlank ·))
  let second := rest.takeWhile (!isBlank ·)
  if ["next".toList, "last".toList].contains (lower first) &&
      ["week".toList, "month".toList].contains (lower second) then
    some (rest.dropWhile (!isBlank ·))
  else none

/-- The date after a symbol, and the text after it: a moment or a keyword in two words, or
else one word. -/
def dateWord (s : Text) : Text × Text :=
  let rest := trimStart s
  match (afterMoment? rest).or (afterKeyword? rest) with
  | some after => (rest.take (rest.length - after.length), after)
  | none => (rest.takeWhile (!isBlank ·), rest.dropWhile (!isBlank ·))

def anyLength? (symbols : Table Field) : MarkLength := fun previous s =>
  (symbolLength? symbols previous s).or <| (inlineLength? previous s).or <|
    ((tagText? previous s).map List.length).or ((contextText? previous s).map List.length)

/-- The phrase after a symbol up to the next mark, and the text from that mark on. -/
def phrase (symbols : Table Field) (previous : Option Char) (s : Text) : Text × Text :=
  match locate? (anyLength? symbols) previous s with
  | some site => (site.before, site.mark ++ site.after)
  | none => (s, [])

/-- The value that stands for the field after a symbol, and the text after it. -/
def symbolValue (symbols : Table Field) (field : Field) (symbol : Text) (previous : Option Char)
    (after : Text) : Text × Text :=
  match field with
  | .priority => (levelWord? after).getD (symbol, after)
  | .recurrence =>
    let (value, rest) := phrase symbols previous after
    (trim value, rest)
  | _ => dateWord after

def isUndated (today : Date) (field : Field) (value : Text) : Except Failure Bool :=
  match field with
  | .date _ => (DateText.resolve today value).map Option.isNone
  | _ => .ok false

/-- Emoji with a value such as `📅 2024-01-15`, a symbol for a level, or `🔁` and a phrase. -/
def emoji (settings : Settings) (today : Date) : Grammar where
  length? := symbolLength? (plainSymbols settings)
  judge previous site :=
    let symbols := plainSymbols settings
    match symbol? symbols site.mark with
    | none => .ok none
    | some symbol => match symbols.lookup symbol with
      | none => .ok none
      | some field => do
        let (value, after) :=
          symbolValue symbols field symbol (lastOr previous site.mark) site.after
        if value.isEmpty && field != .priority then return none
        if ← isUndated today field value then return none
        let raw := site.mark ++ site.after.take (site.after.length - after.length)
        return some ⟨⟨.emoji, .field field, value, raw⟩, false, after⟩

end Checklist.Markup
