import Checklist.Yaml.Data
import Checklist.Table

/-! # Headers of notes

A note may begin with a header: a line of three dashes, data in YAML, and another such line. A
project file may also hold plain lines of a key and a value below it. What reads the data is a
loader, of which `standardLoader` is one. Main statement: a note with a header is its lines up to
the end of the header and its body (`join_body`). -/

namespace Checklist.Header
set_option autoImplicit false
open Text

/-- Why a header cannot be read. -/
inductive Error where
  /-- It is no YAML; a key may lack the space after its colon. -/
  | malformed (lacksColon : Bool)
  /-- It is no mapping with text keys other than the reserved ones, or holds a value that
  does not exist. -/
  | noMapping
  /-- A value under a tag that it does not fit, or one that the loader gives up on. -/
  | unreadable (cause : Yaml.Error)
  deriving DecidableEq, Repr

def Error.message : Error → Text
  | .malformed lacksColon =>
    "Invalid YAML in frontmatter".toList ++ (if lacksColon then " (suggestion)".toList else [])
  | .noMapping => "Frontmatter must be a YAML dictionary".toList
  | .unreadable _ => []

/-! ## The lines of a header -/

def withoutMark (s : Text) : Text :=
  s.dropWhile (· == '\ufeff')

def noteLines (s : Text) : List Text :=
  splitAt '\n' (withoutMark s)

/-- The line that begins and ends a header. -/
def isRule (line : Text) : Bool :=
  trimEnd line == "---".toList

/-- The number of the line that ends the header of a note. -/
def endLine? (s : Text) : Option Nat :=
  match noteLines s with
  | [] => none
  | first :: rest => if isRule first then (rest.findIdx? isRule).map (· + 1) else none

def has (s : Text) : Bool :=
  (endLine? s).isSome

def body (s : Text) : Text :=
  match endLine? s with
  | none => s
  | some last => join ['\n'] ((noteLines s).drop (last + 1))

/-! ## The data of a header -/

/-- Three dashes or more and blanks bound the data, wherever they come first. -/
def isBound (line : Text) : Bool :=
  "---".toList.isPrefixOf line && isBlankText (line.dropWhile (· == '-'))

/-- The text of the data, from its first line that is not blank. -/
def data? (s : Text) : Option Text :=
  let all := splitAt '\n' (trim (join ['\n'] (lines (withoutMark s))))
  match all.dropWhile (!isBound ·) with
  | [] => none
  | _ :: rest =>
    if rest.any isBound then
      some (((rest.takeWhile (!isBound ·)).dropWhile isBlankText).flatMap fun line => line ++ ['\n'])
    else none

def reservedKeys : List Text :=
  ["content".toList, "handler".toList, "self".toList]

def isAllowedKey (key : Value) : Bool :=
  key.str?.any fun s => !reservedKeys.contains s

def Error.ofYaml : Yaml.Error → Error
  | .malformed | .unsupported => .malformed false
  | .missingColon => .malformed true
  | .noSuchValue => .noMapping
  | cause => .unreadable cause

/-- The loader for headers, where tabs may separate words. It is the one that commands use; what is
said of reading notes and folders holds of other loaders as well. -/
def standardLoader : Yaml.Loader :=
  Yaml.load .lenient

/-- The data of a note's header; a header that is no mapping holds none. -/
def read (load : Yaml.Loader) (s : Text) : Except Error Entries :=
  if has s then
    match data? s with
    | none => .ok []
    | some text => match load text with
      | .error cause => .error (Error.ofYaml cause)
      | .ok (.map entries) => if entries.all fun entry => isAllowedKey entry.1 then
          .ok entries else .error .noMapping
      | .ok _ => .ok []
  else .ok []

/-! ## Plain lines of a key and a value -/

/-- The key and the value on a line; lines that start with a hash sign or two slashes
are comments. -/
def pair? (line : Text) : Option (Text × Text) :=
  let line := trim line
  if ['#'].isPrefixOf line || "//".toList.isPrefixOf line then none
  else match cut ':' line with
    | (key, some value) =>
      if (trim key).isEmpty || (trim value).isEmpty then none
      else some (trim key, trimWhere (fun c => c == '"' || c == '\'') (trim value))
    | (_, none) => none

def pairs (s : Text) : Table Text :=
  Table.ofList ((splitAt '\n' s).filterMap pair?)

/-! ## Nothing is lost -/

theorem join_body {s : Text} {last : Nat} (h : endLine? s = some last)
    (hbody : (noteLines s).drop (last + 1) ≠ []) :
    join ['\n'] ((noteLines s).take (last + 1)) ++ ['\n'] ++ body s = withoutMark s := by
  have hnote : noteLines s ≠ [] := splitWhere_ne_nil _ _
  have htake : (noteLines s).take (last + 1) ≠ [] := by
    intro hnil
    rcases List.take_eq_nil_iff.1 hnil with h0 | h0
    · omega
    · exact hnote h0
  rw [body, h]
  simp only
  rw [← join_append _ _ _ htake hbody, List.take_append_drop, noteLines, join_splitAt]

end Checklist.Header
