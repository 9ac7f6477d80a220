import Checklist.Markup.Grammar
import Checklist.Markup.Span

/-! # Extraction

The content of a task line is read by the grammars one after the other: inline fields, emoji, tags,
contexts. What they leave is the text of the task. Of several tokens for one slot the one whose
grammar ranks highest counts, and of equals the first one. -/

namespace Checklist.Markup
set_option autoImplicit false
open Text

/-- What the content of a line says. -/
structure Extraction where
  content : Text
  fields : List (Field × Text)
  custom : Table Text
  tags : List Text
  tokens : List Token
  truncated : Bool
  deriving DecidableEq, Repr

/-! ## Tokens of a line -/

/-- The grammars that the settings allow, in the order in which they read. -/
def grammars (settings : Settings) (today : Date) : List Grammar :=
  (if settings.readsMetadata && settings.grammars.allowsDataview then [dataview settings today] else [])
    ++ (if settings.readsMetadata && settings.grammars.allowsEmoji then [emoji settings today] else [])
    ++ (if settings.readsTags then [tags settings, contexts] else [])

/-- Takes the tokens of one grammar after the other out of a text; they share one budget. -/
def consumeAll : List Grammar → Nat → Text → Except Failure Consumed
  | [], budget, s => .ok ⟨s, [], budget, false⟩
  | grammar :: rest, budget, s => do
    let first ← grammar.consume budget none s
    let others ← consumeAll rest first.left first.text
    return ⟨others.text, (firsts [] first.tokens).map (·, false) ++ others.tokens, others.left,
      first.exhausted || others.exhausted⟩

def Token.restore (store : List Text) (token : Token) : Except Failure Token := do
  return { token with value := ← Markup.restore store token.value, raw := ← Markup.restore store token.raw }

/-! ## The tokens that count -/

/-- Files a token under its slot, unless one is filed there whose grammar ranks as high. -/
def fileToken (winners : List Token) (token : Token) : List Token :=
  match winners.find? fun winner => winner.slot == token.slot with
  | none => winners ++ [token]
  | some winner =>
    if winner.kind.rank < token.kind.rank then
      winners.map fun other => if other.slot == token.slot then token else other
    else winners

/-- The tokens that count, in the order in which their slots came. -/
def winners (tokens : List Token) : List Token :=
  (tokens.filter fun token => token.slot != .field .tags).foldl fileToken []

/-- The tags among the tokens, each once. -/
def tagValues (tokens : List Token) : List Text :=
  ((tokens.filter fun token => token.slot == .field .tags).map Token.value).eraseDups

def fieldValues (tokens : List Token) : List (Field × Text) :=
  tokens.filterMap fun token => match token.slot with
    | .field field => some (field, token.value)
    | .custom _ => none

/-- The values of the tokens under keys of the author's own. -/
def customValues (tokens : List Token) : Table Text :=
  tokens.filterMap fun token => match token.slot with
    | .field _ => none
    | .custom key => some (key, token.value)

def extract (settings : Settings) (today : Date) (content : Text) : Except Failure Extraction := do
  let guarded := protect content
  let consumed ← consumeAll (grammars settings today) settings.metadataLimit guarded.text
  let text ← restore guarded.store (squeeze consumed.text)
  let tokens ← (consumed.tokens.map (·.1)).mapM (Token.restore guarded.store)
  return ⟨text, fieldValues (winners tokens), customValues (winners tokens), tagValues tokens,
    tokens, consumed.exhausted⟩

/-! ## One token a slot -/

theorem exists_mem_fileToken (winners : List Token) (token : Token) :
    ∃ winner ∈ fileToken winners token, winner.slot = token.slot ∧
      token.kind.rank ≤ winner.kind.rank := by
  unfold fileToken
  split
  · exact ⟨token, by simp, rfl, Nat.le_refl _⟩
  · rename_i winner hfind
    have hslot := List.find?_some hfind
    have hmem := List.mem_of_find?_eq_some hfind
    split
    · exact ⟨token, List.mem_map.2 ⟨winner, hmem, if_pos hslot⟩, rfl, Nat.le_refl _⟩
    · rename_i hrank
      exact ⟨winner, hmem, beq_iff_eq.1 hslot, Nat.le_of_not_lt hrank⟩

end Checklist.Markup
