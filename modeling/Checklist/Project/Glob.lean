import Checklist.Text.Basic

/-! # Globs

In a glob, `*` stands for any text, `?` for any character, and brackets for one character of a
class. Main statements: a glob without wildcards matches exactly itself (`covers_ofPlain`), and `*`
matches every text (`covers_star`). -/

namespace Checklist
set_option autoImplicit false

/-- A part of a glob. A class holds the characters within its ranges, or all others if it
is negated. -/
inductive Glob.Part where
  | char (c : Char)
  | any
  | star
  | oneOf (negated : Bool) (ranges : List (Char × Char))
  deriving DecidableEq, Repr

/-- A pattern for texts. -/
abbrev Glob := List Glob.Part

namespace Glob

/-! ## Classes -/

/-- The text of a class between the hyphens that make ranges. -/
abbrev Chunks := List Text

/-- The chunks between hyphens that make ranges: before such a hyphen stands at least the given
number of characters, and two in every later chunk, the first of them being the end of a range. -/
def chunks : Nat → Nat → Text → Chunks
  | 0, _, s => [s]
  | fuel + 1, least, s =>
    match (s.drop least).dropWhile (· != '-') with
    | [] => [s]
    | _ :: after => (s.take least ++ (s.drop least).takeWhile (· != '-')) :: chunks fuel 2 after

/-- The chunks of a class; a hyphen at its start or its end stands for itself. -/
def classChunks (s : Text) : Chunks :=
  match (chunks s.length (if s.head? == some '!' then 2 else 1) s).reverse with
  | [] :: last :: others => ((last ++ ['-']) :: others).reverse
  | all => all.reverse

/-- Joins chunks whose range would be empty, leaving out its two ends; the last ones are
joined first. -/
def joinEmpty : Chunks → Chunks
  | [] => []
  | chunk :: rest =>
    match joinEmpty rest with
    | [] => [chunk]
    | next :: others =>
      match chunk.getLast?, next.head? with
      | some low, some high => if high < low then (chunk.dropLast ++ next.drop 1) :: others else
          chunk :: next :: others
      | _, _ => chunk :: next :: others

/-- The ranges of a chunk and the chunks after it; a character that is no end of a range is a range
of its own, and so is a hyphen that has nothing before it. -/
def rangesFrom (chunk : Text) : Chunks → List (Char × Char)
  | [] => chunk.map fun c => (c, c)
  | next :: rest =>
    match chunk.getLast?, next.head? with
    | some low, some high =>
      chunk.dropLast.map (fun c => (c, c)) ++ (low, high) :: rangesFrom (next.drop 1) rest
    | none, some _ => ('-', '-') :: rangesFrom next rest
    | _, none => chunk.map (fun c => (c, c)) ++ rangesFrom next rest

def rangesOf (chunks : Chunks) : List (Char × Char) :=
  match chunks with
  | [] => []
  | chunk :: rest => rangesFrom chunk rest

/-- The class between brackets. An exclamation mark at the start negates it, also one that comes to
stand there because an empty range before it is left out. -/
def classOf (s : Text) : Part :=
  match joinEmpty (classChunks s) with
  | ('!' :: chunk) :: rest => .oneOf true (rangesOf (chunk :: rest))
  | all => .oneOf false (rangesOf all)

/-- The text of the class whose opening bracket has been read: it holds at least one character. -/
def classText? (s : Text) : Option Text :=
  let negation := s.takeWhile (· == '!') |>.take 1
  let first := (s.drop negation.length).takeWhile (· == ']') |>.take 1
  let body := s.drop (negation.length + first.length)
  if body.contains ']' then some (negation ++ first ++ body.takeWhile (· != ']')) else none

/-! ## Reading -/

/-- The parts of a glob after some characters already read. -/
def partsAfter : Nat → Text → Glob
  | _, [] => []
  | skip + 1, _ :: rest => partsAfter skip rest
  | 0, '*' :: rest => .star :: partsAfter 0 rest
  | 0, '?' :: rest => .any :: partsAfter 0 rest
  | 0, '[' :: rest => match classText? rest with
    | some text => classOf text :: partsAfter (text.length + 1) rest
    | none => .char '[' :: partsAfter 0 rest
  | 0, c :: rest => .char c :: partsAfter 0 rest

def ofText (s : Text) : Glob :=
  partsAfter 0 s

/-! ## Matching -/

def Part.holds (part : Part) (c : Char) : Bool :=
  match part with
  | .char d => c == d
  | .any | .star => true
  | .oneOf negated ranges => (ranges.any fun range => range.1 ≤ c && c ≤ range.2) != negated

def someEnd (p : Text → Bool) : Text → Bool
  | [] => p []
  | c :: rest => p (c :: rest) || someEnd p rest

def covers : Glob → Text → Bool
  | [], s => s.isEmpty
  | .star :: rest, s => someEnd (covers rest) s
  | _ :: _, [] => false
  | part :: rest, c :: s => part.holds c && covers rest s

theorem someEnd_of_nil {p : Text → Bool} (h : p [] = true) (s : Text) : someEnd p s = true := by
  induction s with
  | nil => exact h
  | cons c rest ih => simp [someEnd, ih]

theorem covers_star (s : Text) : covers [.star] s = true :=
  someEnd_of_nil rfl s

theorem covers_ofPlain (pattern s : Text) : covers (pattern.map Part.char) s = true ↔
    s = pattern := by
  induction pattern generalizing s with
  | nil => simp [covers]
  | cons c rest ih =>
    cases s with
    | nil => simp [covers]
    | cons d s => simp [covers, Part.holds, ih]

example : covers (ofText "*/[a-c]?.md".toList) "x/b1.md".toList = true := by decide +kernel

example : covers (ofText "[b-a!c]".toList) "c".toList = false ∧
    covers (ofText "[!-c]".toList) "b".toList = true := by decide +kernel

example : covers (ofText "[b-a!-c]".toList) "-".toList = false ∧
    covers (ofText "[b-a!-c]".toList) "b".toList = true := by
  decide +kernel

example : covers (ofText "[!a-]".toList) "-".toList = false ∧
    covers (ofText "[z-a]".toList) "a".toList = false := by decide +kernel

end Glob
end Checklist
