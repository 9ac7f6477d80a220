import Checklist.Text.Basic
import Checklist.Failure

/-! # Spans kept as they are

Inline code, wiki links and markdown links are no place for metadata. Before a line is searched they
are taken out and a numbered placeholder stands in for each; afterwards they are put back. The
pieces of a text are the view in which both directions are stated: masking numbers the spans among
the pieces, and the store lists them. -/

namespace Checklist.Markup
set_option autoImplicit false
open Text

/-! ## Recognising a span -/

/-- Inline code at the start of a text, on one line. -/
def code? (s : Text) : Option Text :=
  match s with
  | '\x60' :: rest =>
    let isInner := fun c => c != '\x60' && c != '\n'
    if (rest.dropWhile isInner).head? == some '\x60' then
      some ('\x60' :: rest.takeWhile isInner ++ ['\x60']) else none
  | _ => none

/-- A wiki link at the start of a text, on one line. -/
def wikiLink? (s : Text) : Option Text :=
  match s with
  | '[' :: '[' :: rest =>
    let isInner := fun c => c != ']' && c != '\n'
    if "]]".toList.isPrefixOf (rest.dropWhile isInner) then
      some ("[[".toList ++ rest.takeWhile isInner ++ "]]".toList) else none
  | _ => none

/-- A markdown link at the start of a text: a label on one line, and a target without blanks and
parentheses. -/
def link? (s : Text) : Option Text :=
  match s with
  | '[' :: rest =>
    let isLabel := fun c => c != '[' && c != ']' && c != '\n'
    match rest.dropWhile isLabel with
    | ']' :: '(' :: after =>
      let isTarget := fun c => c != '(' && c != ')' && !isBlank c
      if (after.dropWhile isTarget).head? == some ')' then
        some ('[' :: rest.takeWhile isLabel ++ "](".toList ++ after.takeWhile isTarget ++ [')'])
      else none
    | _ => none
  | _ => none

/-- The span at the start of a text; an exclamation mark before a link belongs to it. -/
def span? (s : Text) : Option Text :=
  match s with
  | '!' :: rest => ((wikiLink? rest).or (link? rest)).map ('!' :: ·)
  | _ => (code? s).or ((wikiLink? s).or (link? s))

/-! ## Taking spans out -/

/-- A text in pieces: spans, and the characters between them. -/
inductive Piece where
  | plain (c : Char)
  | span (s : Text)
  deriving DecidableEq, Repr

def Piece.chars : Piece → Text
  | .plain c => [c]
  | .span s => s

/-- The pieces of a text after some characters that belong to a span already seen. -/
def piecesAfter : Nat → Text → List Piece
  | _, [] => []
  | skip + 1, _ :: rest => piecesAfter skip rest
  | 0, c :: rest => match span? (c :: rest) with
    | some span => .span span :: piecesAfter (span.length - 1) rest
    | none => .plain c :: piecesAfter 0 rest

/-- The pieces of a text; of two spans that overlap the first one counts. -/
def pieces (s : Text) : List Piece :=
  piecesAfter 0 s

def openMark : Char := '\ue000'

def closeMark : Char := '\ue001'

def placeholder (number : Nat) : Text :=
  openMark :: ofNat number ++ [closeMark]

/-- The text with placeholders, numbered from the given number on. -/
def mask : Nat → List Piece → Text
  | _, [] => []
  | number, .plain c :: rest => c :: mask number rest
  | number, .span _ :: rest => placeholder number ++ mask (number + 1) rest

/-- The spans among the pieces, in order. -/
def spans (parts : List Piece) : List Text :=
  parts.filterMap fun
    | .plain _ => none
    | .span s => some s

/-- A text without its spans, and the spans. -/
structure Protected where
  text : Text
  store : List Text
  deriving DecidableEq, Repr

def protect (s : Text) : Protected :=
  ⟨mask 0 (pieces s), spans (pieces s)⟩

/-! ## Putting spans back -/

/-- The digits of the placeholder at the start of a text. -/
def placeholderDigits? (s : Text) : Option Text :=
  match s with
  | c :: rest =>
    let digits := rest.takeWhile isDecimal
    if c == openMark && !digits.isEmpty && (rest.dropWhile isDecimal).head? == some closeMark then
      some digits else none
  | [] => none

/-- The span that a placeholder with the given digits stands for. -/
def storedSpan (store : List Text) (digits : Text) : Except Failure Text :=
  match readNat? digits with
  | none => .error .unreadableNumber
  | some number => match store[number]? with
    | some span => .ok span
    | none => .error .missingSpan

/-- Puts spans back after some characters that belong to a placeholder already seen. -/
def restoreAfter (store : List Text) : Nat → Text → Except Failure Text
  | _, [] => .ok []
  | skip + 1, _ :: rest => restoreAfter store skip rest
  | 0, c :: rest => match placeholderDigits? (c :: rest) with
    | some digits => do
      let span ← storedSpan store digits
      return span ++ (← restoreAfter store (digits.length + 1) rest)
    | none => do return c :: (← restoreAfter store 0 rest)

/-- Puts the stored spans in place of their placeholders; without stored spans no
placeholder is read. -/
def restore (store : List Text) (s : Text) : Except Failure Text :=
  if store.isEmpty then .ok s else restoreAfter store 0 s

example : protect "see [[A]] \x60b\x60".toList =
    ⟨"see ".toList ++ placeholder 0 ++ " ".toList ++ placeholder 1,
      ["[[A]]".toList, "\x60b\x60".toList]⟩ := by
  decide +kernel

end Checklist.Markup
