import Checklist.Field
import Checklist.Failure

/-! # Metadata tokens

A token is one piece of metadata markup in a line. A grammar says where its marks stand and which of
them are tokens; `Grammar.consume` takes the tokens out of a line from left to right, within a
budget. Main statement: locating a mark loses nothing of the text (`locate?_eq_some`). -/

namespace Checklist.Markup
set_option autoImplicit false

/-- The grammar that a token was written in. -/
inductive TokenKind where
  | dataview
  | emoji
  | tag
  | context
  deriving DecidableEq, Repr

def TokenKind.name : TokenKind → Text
  | .dataview => "dataview".toList
  | .emoji => "emoji".toList
  | .tag => "tag".toList
  | .context => "context".toList

/-- Of two tokens for one slot the one of higher rank counts. -/
def TokenKind.rank : TokenKind → Nat
  | .dataview => 2
  | .emoji => 1
  | .tag | .context => 0

/-- A piece of metadata: where it belongs, what it says, and how it was written. -/
structure Token where
  kind : TokenKind
  slot : Slot
  value : Text
  raw : Text
  deriving DecidableEq, Repr

/-- A mark in a text, with what stands before and after it. -/
structure Site where
  before : Text
  mark : Text
  after : Text
  deriving DecidableEq, Repr

/-- A mark that is a token, with the text after the token; a token that `repeats` does not shadow
later ones. -/
structure Verdict where
  token : Token
  repeats : Bool
  after : Text
  deriving DecidableEq, Repr

/-- The length of the mark at the start of a text, given the character before it. -/
abbrev MarkLength := Option Char → Text → Option Nat

def locate? (length? : MarkLength) (previous : Option Char) (s : Text) : Option Site :=
  match length? previous s with
  | some length => some ⟨[], s.take length, s.drop length⟩
  | none => match s with
    | [] => none
    | c :: rest =>
      (locate? length? (some c) rest).map fun site => { site with before := c :: site.before }

/-- A grammar: its marks, and which of them are tokens, given the character before a mark. -/
structure Grammar where
  length? : MarkLength
  judge : Option Char → Site → Except Failure (Option Verdict)

/-- What is left of a line, the tokens taken out of it, each with whether it repeats, and the
budget left. -/
structure Consumed where
  text : Text
  tokens : List (Token × Bool)
  left : Nat
  exhausted : Bool
  deriving DecidableEq, Repr

/-- The last character before the end of a text that another character stands before. -/
def lastOr (previous : Option Char) (s : Text) : Option Char :=
  s.getLast?.or previous

namespace Grammar

/-- Takes tokens out of a text, one space taking the place of each. Every mark counts against the
budget, and a mark that is no token stays. -/
def consume (grammar : Grammar) : Nat → Option Char → Text → Except Failure Consumed
  | budget, previous, s => match locate? grammar.length? previous s with
    | none => .ok ⟨s, [], budget, false⟩
    | some site => match budget with
      | 0 => .ok ⟨s, [], 0, true⟩
      | budget + 1 => do
        match ← grammar.judge (lastOr previous site.before) site with
        | some verdict => do
          let rest ← consume grammar budget (some ' ') verdict.after
          return { rest with
            text := site.before ++ ' ' :: rest.text,
            tokens := (verdict.token, verdict.repeats) :: rest.tokens }
        | none => do
          let rest ← consume grammar budget (lastOr previous (site.before ++ site.mark)) site.after
          return { rest with text := site.before ++ site.mark ++ rest.text }

end Grammar

/-- The tokens that count within a grammar: of several for one slot the first, and all
that repeat. -/
def firsts : List Slot → List (Token × Bool) → List Token
  | _, [] => []
  | seen, (token, repeats) :: rest =>
    if repeats then token :: firsts seen rest
    else if seen.contains token.slot then firsts seen rest
    else token :: firsts (token.slot :: seen) rest

/-! ## Nothing is lost -/

theorem locate?_eq_some {length? : MarkLength} {previous : Option Char} {s : Text} {site : Site}
    (h : locate? length? previous s = some site) : s = site.before ++ site.mark ++ site.after := by
  induction s generalizing previous site with
  | nil =>
    unfold locate? at h
    split at h <;> simp_all
    rw [← h]
    simp
  | cons c rest ih =>
    unfold locate? at h
    split at h
    · simp only [Option.some.injEq] at h
      rw [← h]
      simp
    · simp only [Option.map_eq_some_iff] at h
      obtain ⟨inner, hinner, rfl⟩ := h
      simp [ih hinner]

end Checklist.Markup
