import Checklist.Text.Basic

/-! # Arguments

Arguments of a command are flags, some with a value, and positional words. Main statements: words
that are no flags are all positional (`read_words`), and after two hyphens everything is
(`read_hyphens`). -/

namespace Checklist.Command
set_option autoImplicit false
open Text

/-- A flag by its long name, perhaps with a letter for it. -/
structure Flag where
  name : Text
  letter : Option Char := none
  takesValue : Bool := false
  deriving DecidableEq, Repr

/-- The flags that a command knows, and whether they may follow positional words. -/
structure Grammar where
  flags : List Flag
  mixes : Bool := true
  deriving DecidableEq, Repr

/-- Flags with their values, in order, and positional words. -/
structure Arguments where
  flags : List (Text × Text) := []
  words : List Text := []
  deriving DecidableEq, Repr

namespace Arguments

def has (arguments : Arguments) (name : String) : Bool :=
  arguments.flags.any fun flag => flag.1 == name.toList

/-- The value of a flag; the last one counts. -/
def value? (arguments : Arguments) (name : String) : Option Text :=
  (arguments.flags.reverse.find? fun flag => flag.1 == name.toList).map (·.2)

end Arguments

/-- The flags in one argument, and the flag that still needs a value. -/
abbrev Given := List (Text × Text) × Option Text

namespace Grammar

/-- The flags that letters stand for; what follows a flag with a value is the value. -/
def letters (grammar : Grammar) : Text → Option Given
  | [] => some ([], none)
  | c :: rest => match grammar.flags.find? fun flag => flag.letter == some c with
    | none => none
    | some flag =>
      if flag.takesValue then
        some (if rest.isEmpty then ([], some flag.name) else ([(flag.name, rest)], none))
      else (grammar.letters rest).map fun (flags, wanting) => ((flag.name, []) :: flags, wanting)

/-- The flag that a long name stands for; a value may follow an equals sign. -/
def long (grammar : Grammar) (s : Text) : Option Given :=
  let (name, value) := cut '=' s
  match grammar.flags.find? fun flag => flag.name == name, value with
  | none, _ => none
  | some flag, none =>
    some (if flag.takesValue then ([], some flag.name) else ([(flag.name, [])], none))
  | some flag, some value => if flag.takesValue then some ([(flag.name, value)], none) else none

/-- Two hyphens: no flags follow. -/
def hyphens : Text := "--".toList

def isFlag (argument : Text) : Bool :=
  ['-'].isPrefixOf argument && 1 < argument.length

def given (grammar : Grammar) (argument : Text) : Option Given :=
  if hyphens.isPrefixOf argument then grammar.long (argument.drop 2)
  else grammar.letters (argument.drop 1)

/-- Reads arguments; none if a flag is not known or lacks its value. -/
def read (grammar : Grammar) : List Text → Option Arguments
  | [] => some {}
  | argument :: rest =>
    if argument == hyphens then some { words := rest }
    else if isFlag argument then
      match grammar.given argument, rest with
      | none, _ => none
      | some (flags, none), rest =>
        (read grammar rest).map fun more => { more with flags := flags ++ more.flags }
      | some (_, some _), [] => none
      | some (flags, some name), value :: rest =>
        (read grammar rest).map fun more =>
          { more with flags := flags ++ (name, value) :: more.flags }
    else if grammar.mixes then (read grammar rest).map fun more =>
      { more with words := argument :: more.words }
    else some { words := argument :: rest }

theorem read_words (grammar : Grammar) (words : List Text)
    (h : ∀ word ∈ words, isFlag word = false) :
    grammar.read words = some { words := words } := by
  induction words with
  | nil => simp [read]
  | cons word rest ih =>
    have hword := h word (List.mem_cons_self ..)
    have hhyphens : (word == hyphens) = false := by
      refine Bool.eq_false_iff.2 fun heq => ?_
      rw [beq_iff_eq.1 heq] at hword
      exact absurd hword (by decide)
    have hrest := ih fun other hother => h other (List.mem_cons_of_mem _ hother)
    rw [read.eq_def]
    cases hmixes : grammar.mixes <;> simp [hhyphens, hword, hrest]

theorem read_hyphens (grammar : Grammar) (words : List Text) :
    grammar.read (hyphens :: words) = some { words := words } := by
  rw [read.eq_def]
  simp

end Grammar
end Checklist.Command
