import Checklist.Text.Utf8
import Checklist.Value.Display

/-! # Schemas

A schema reads a value of user data into a typed one, or lists everything that is wrong with it:
each issue has a path into the data and a cause. Scalars are read leniently: a numeral counts as an
integer, a word such as `yes` as a truth value. Main statement: a record is read iff all its parts
are, and otherwise the issues of all parts are kept in order (`issues_seq`). -/

namespace Checklist
set_option autoImplicit false
open Text

namespace Schema

/-! ## Issues -/

/-- What is wrong with a value. -/
inductive Cause where
  | missing
  | notText
  | notUnicode
  | notTruthValue
  | unclearTruthValue
  | notInteger
  | unreadableInteger
  | hugeInteger
  | fractionalInteger
  | notFinite
  | below (bound : Int)
  | notList
  | notMapping
  | notRecord (name : Text)
  | notOption (options : List Text)
  | notLiteral (options : List Text)
  | untagged (tag : Text)
  | unknownTag (tag value : Text) (options : List Text)
  | notTaggable
  | rejected (message : Text)
  deriving DecidableEq, Repr

/-- Options in single quotes, with a word before the last one. -/
def optionsText (options : List Text) : Text :=
  let quoted := options.map fun option => ['\''] ++ option ++ ['\'']
  match quoted.reverse with
  | [] => []
  | [option] => option
  | last :: others => join ", ".toList others.reverse ++ " or ".toList ++ last

def Cause.message : Cause → Text
  | .missing => "Field required".toList
  | .notText => "Input should be a valid string".toList
  | .notUnicode =>
    "Input should be a valid string, unable to parse raw data as a unicode string".toList
  | .notTruthValue => "Input should be a valid boolean".toList
  | .unclearTruthValue => "Input should be a valid boolean, unable to interpret input".toList
  | .notInteger => "Input should be a valid integer".toList
  | .unreadableInteger =>
    "Input should be a valid integer, unable to parse string as an integer".toList
  | .hugeInteger => "Unable to parse input string as an integer, exceeded maximum size".toList
  | .fractionalInteger =>
    "Input should be a valid integer, got a number with a fractional part".toList
  | .notFinite => "Input should be a finite number".toList
  | .below bound => "Input should be greater than or equal to ".toList ++ ofInt bound
  | .notList => "Input should be a valid list".toList
  | .notMapping => "Input should be a valid dictionary".toList
  | .notRecord name => "Input should be a valid dictionary or instance of ".toList ++ name
  | .notOption options => "Input should be ".toList ++ optionsText options
  | .notLiteral options => "Input should be ".toList ++ optionsText options
  | .untagged tag => "Unable to extract tag using discriminator ".toList ++ ['\''] ++ tag ++ ['\'']
  | .unknownTag tag value options =>
    "Input tag '".toList ++ value ++ "' found using '".toList ++ tag ++
      "' does not match any of the expected tags: ".toList
      ++ join ", ".toList (options.map fun option => ['\''] ++ option ++ ['\''])
  | .notTaggable => "Input should be a valid dictionary or object to extract fields from".toList
  | .rejected message => "Value error, ".toList ++ message

def Cause.code : Cause → Text
  | .missing => "missing".toList
  | .notText => "string_type".toList
  | .notUnicode => "string_unicode".toList
  | .notTruthValue => "bool_type".toList
  | .unclearTruthValue => "bool_parsing".toList
  | .notInteger => "int_type".toList
  | .unreadableInteger => "int_parsing".toList
  | .hugeInteger => "int_parsing_size".toList
  | .fractionalInteger => "int_from_float".toList
  | .notFinite => "finite_number".toList
  | .below _ => "greater_than_equal".toList
  | .notList => "list_type".toList
  | .notMapping => "dict_type".toList
  | .notRecord _ => "model_type".toList
  | .notOption _ => "enum".toList
  | .notLiteral _ => "literal_error".toList
  | .untagged _ => "union_tag_not_found".toList
  | .unknownTag _ _ _ => "union_tag_invalid".toList
  | .notTaggable => "model_attributes_type".toList
  | .rejected _ => "value_error".toList

/-- A cause at a place in the data. -/
structure Issue where
  path : List Text
  cause : Cause
  deriving DecidableEq, Repr

/-- The place of an issue, its steps separated by dots. -/
def Issue.place (issue : Issue) : Text :=
  join ['.'] issue.path

/-! ## Reading with issues -/

/-- A value that was read, or the issues that stand against it; there is at least one. -/
inductive Checked (α : Type) where
  | ok (a : α)
  | issues (first : Issue) (rest : List Issue)
  deriving Repr

namespace Checked

variable {α β : Type}

/-- The issues, none if the value was read. -/
def toIssues : Checked α → List Issue
  | .ok _ => []
  | .issues first rest => first :: rest

def fail (cause : Cause) : Checked α :=
  .issues ⟨[], cause⟩ []

def map (f : α → β) : Checked α → Checked β
  | .ok a => .ok (f a)
  | .issues first rest => .issues first rest

def seq (f : Checked (α → β)) (a : Checked α) : Checked β :=
  match f, a with
  | .ok f, .ok a => .ok (f a)
  | .ok _, .issues first rest => .issues first rest
  | .issues first rest, a => .issues first (rest ++ a.toIssues)

instance : Applicative Checked where
  pure := .ok
  seq f a := seq f (a ())

def andThen (a : Checked α) (f : α → Checked β) : Checked β :=
  match a with
  | .ok a => f a
  | .issues first rest => .issues first rest

def under (step : Text) : Checked α → Checked α
  | .ok a => .ok a
  | .issues first rest =>
    .issues { first with path := step :: first.path }
      (rest.map fun issue => { issue with path := step :: issue.path })

theorem issues_seq (f : Checked (α → β)) (a : Checked α) :
    (seq f a).toIssues = f.toIssues ++ a.toIssues := by
  cases f <;> cases a <;> simp [seq, toIssues]

def all : List (Checked α) → Checked (List α)
  | [] => .ok []
  | a :: rest => seq (map List.cons a) (all rest)

end Checked

end Schema

/-- A way to read a value. -/
abbrev Schema (α : Type) := Value → Schema.Checked α

namespace Schema

variable {α β : Type}

/-! ## Scalars -/

/-- A text, or octets that encode one. -/
def text : Schema Text
  | .str s => .ok s
  | .bytes octets => match ofUtf8? octets with
    | some s => .ok s
    | none => .fail .notUnicode
  | _ => .fail .notText

/-- The words for a truth value, in any case. -/
def truthWords : List (Text × Bool) :=
  (["0", "off", "f", "false", "n", "no"].map fun word => (word.toList, false)) ++
    (["1", "on", "t", "true", "y", "yes"].map fun word => (word.toList, true))

/-- The integer that a floating-point number is, if it has a fraction of zero and fits 64 bits. -/
def whole (x : Binary64) : Checked Int :=
  match x.ratio?, x.toInt? with
  | none, _ => .fail .notFinite
  | some _, none => .fail .fractionalInteger
  | some _, some n => if -9223372036854775808 < n && n < 9223372036854775808 then
      .ok n else .fail .hugeInteger

/-- A truth value: also 0 and 1, and the words for it. -/
def truth : Schema Bool
  | .bool b => .ok b
  | .str s => match truthWords.lookup (s.map Char.toLower) with
    | some b => .ok b
    | none => .fail .unclearTruthValue
  | .int n => number n
  | .float x => match whole x with
    | .ok n => number n
    | .issues _ _ => .fail .notTruthValue
  | _ => .fail .notTruthValue
where
  /-- The truth value that a number stands for. -/
  number (n : Int) : Checked Bool :=
    if n == 0 then .ok false else if n == 1 then .ok true else .fail .unclearTruthValue

def withoutZeros (s : Text) : Text :=
  match cut '.' s with
  | (whole, some fraction) => if fraction.all (· == '0') then whole else s
  | (whole, none) => whole

/-- The integer that a numeral names: an ASCII numeral with single underscores between
its digits. -/
def numeral? (s : Text) : Option Int :=
  match trim s with
  | '-' :: rest => (magnitude (withoutZeros rest)).map fun n => -(n : Int)
  | '+' :: rest => (magnitude (withoutZeros rest)).map Int.ofNat
  | rest => (magnitude (withoutZeros rest)).map Int.ofNat
where
  /-- The digits with at most one underscore between two of them. -/
  magnitude (s : Text) : Option Nat :=
    let groups := splitAt '_' s
    if groups.all (fun group => !group.isEmpty && group.all Char.isDigit) then
      some (digitsValue groups.flatten) else none

/-- An integer: also a numeral, a whole floating-point number, and a truth value as 0 or 1. -/
def integer : Schema Int
  | .bool b => .ok (if b then 1 else 0)
  | .int n => .ok n
  | .str s =>
    if digitLimit < s.length then .fail .hugeInteger
    else match numeral? s with
      | some n => .ok n
      | none => .fail .unreadableInteger
  | .float x => whole x
  | _ => .fail .notInteger

def atLeast (bound : Nat) : Schema Nat := fun value =>
  (integer value).andThen fun n => if n < bound then .fail (.below bound) else .ok n.toNat

/-- One of the values that have names, by its name. -/
def named (cause : List Text → Cause) (options : List (Text × α)) : Schema α := fun value =>
  match value.str?.bind fun name => options.lookup name with
  | some a => .ok a
  | none => .fail (cause (options.map (·.1)))

/-- One of the options, by its name. -/
def oneOf (options : List (Text × α)) : Schema α :=
  named .notOption options

def literal (options : List (Text × α)) : Schema α :=
  named .notLiteral options

/-- A value, or null. -/
def nullable (schema : Schema α) : Schema (Option α)
  | .null => .ok none
  | value => (schema value).map some

/-! ## Lists and mappings -/

def listOf (schema : Schema α) : Schema (List α)
  | .list items | .set items =>
    Checked.all (items.mapIdx fun number item => (schema item).under (ofNat number))
  | _ => .fail .notList

/-- The step into a mapping that a key is: a text itself, and a truth value by its number. -/
def stepOf : Value → Text
  | .str s => s
  | .bool b => (if b then "1" else "0").toList
  | key => key.quoted

/-- A mapping from texts to texts; a bad key is placed under the key itself. -/
def texts : Schema (List (Text × Text))
  | .map entries => Checked.all (entries.map fun (key, value) =>
      .seq (((text key).under "[key]".toList).under (stepOf key) |>.map Prod.mk)
      ((text value).under (stepOf key)))
  | _ => .fail .notMapping

/-- A text, or a list of texts. -/
def textOrTexts : Schema (Text ⊕ List Text) := fun value =>
  match text value, listOf text value with
  | .ok s, _ => .ok (.inl s)
  | _, .ok items => .ok (.inr items)
  | s, items =>
    .seq ((s.under "str".toList).map fun _ items => .inr items) (items.under "list[str]".toList)

/-! ## Records -/

/-- A mapping read field by field; entries that are no field are ignored. -/
def record (name : String) (fields : Entries → Checked α) : Schema α
  | .map entries => fields entries
  | _ => .fail (.notRecord name.toList)

/-- The entry of a field that has one of several names; the first name that is present counts. -/
def entry? (names : List String) (entries : Entries) : Option (Text × Value) :=
  names.findSome? fun name => (entries.getText? name.toList).map fun value => (name.toList, value)

def required (names : List String) (schema : Schema α) (entries : Entries) : Checked α :=
  match entry? names entries with
  | some (name, value) => (schema value).under name
  | none => (Checked.fail .missing).under (names.headD "").toList

/-- A field with a value for the case that it is missing. -/
def optional (names : List String) (default : α) (schema : Schema α) (entries : Entries) :
    Checked α :=
  match entry? names entries with
  | some (name, value) => (schema value).under name
  | none => .ok default

/-- One of several kinds of record, told apart by the value of a field. -/
def tagged (tag : String) (options : List (Text × Schema α)) : Schema α
  | .map entries => match Entries.getText? entries tag.toList with
    | none => .fail (.untagged tag.toList)
    | some value => match value.str?.bind fun name => options.lookup name with
      | some schema => (schema (.map entries)).under value.display
      | none => .fail (.unknownTag tag.toList value.display (options.map (·.1)))
  | _ => .fail .notTaggable

/-- A further condition on what was read, with words for its failure. -/
def check (schema : Schema α) (condition : α → Except Text β) : Schema β := fun value =>
  (schema value).andThen fun a => match condition a with
    | .ok b => .ok b
    | .error message => .fail (.rejected message)

/-- The value that a schema reads, or the first issue. -/
def Checked.toExcept : Checked α → Except Issue α
  | .ok a => .ok a
  | .issues first _ => .error first

end Schema
end Checklist
