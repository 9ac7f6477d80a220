import Checklist.Markup.Extraction
import Checklist.Proofs.Markup.Span
import Checklist.Proofs.Markup.Step

/-! # Reading a line piece by piece

A grammar reads a line from left to right, so a line can be read in parts. A content in which
it finds no token is passed over whatever stands behind it, and of metadata with blanks
between it takes its own and leaves the rest. Main statements: `consume_append` for the
content, `consume_spaced` for the metadata, and `Passes.consumeSome` for several grammars one
after the other. -/

namespace Checklist.Markup
set_option autoImplicit false
open Text

/-! ## One character, one mark -/

/-- A mark is not empty and lies in the text, and what stands before it does not count. -/
structure Grammar.IsLocal (grammar : Grammar) : Prop where
  length : ∀ {previous : Option Char} {s : Text} {n : Nat}, grammar.length? previous s = some n →
    0 < n ∧ n ≤ s.length
  judge : ∀ (previous : Option Char) (before mark after : Text),
    grammar.judge previous ⟨before, mark, after⟩ = grammar.judge previous ⟨[], mark, after⟩

/-- What is left of a text behind a text that was passed over. -/
def Consumed.prepend (s : Text) (consumed : Consumed) : Consumed :=
  { consumed with text := s ++ consumed.text }

def Consumed.push (verdict : Verdict) (consumed : Consumed) : Consumed :=
  { consumed with text := ' ' :: consumed.text, tokens := (verdict.token, verdict.repeats) ::
    consumed.tokens }

theorem lastOr_nil (previous : Option Char) : lastOr previous [] = previous :=
  rfl

theorem lastOr_append (previous : Option Char) (s t : Text) :
    lastOr previous (s ++ t) = lastOr (lastOr previous s) t := by
  simp only [lastOr, List.getLast?_append, Option.or_assoc]

theorem lastOr_cons (previous : Option Char) (c : Char) (s : Text) :
    lastOr previous (c :: s) = lastOr (some c) s :=
  lastOr_append previous [c] s

variable {grammar : Grammar} {budget : Nat} {previous : Option Char}

theorem Grammar.IsLocal.length_nil (hlocal : grammar.IsLocal) :
    grammar.length? previous [] = none := by
  rw [Option.eq_none_iff_forall_ne_some]
  intro n hn
  have hle := hlocal.length hn
  simp only [List.length_nil] at hle
  omega

theorem consume_nil (hlocal : grammar.IsLocal) :
    grammar.consume budget previous [] = .ok ⟨[], [], budget, false⟩ := by
  have hnone : locate? grammar.length? previous [] = none := by
    rw [locate?, hlocal.length_nil]
  exact consume_of_no_mark hnone

theorem consume_cons (hlocal : grammar.IsLocal) {c : Char} {rest : Text}
    (h : grammar.length? previous (c :: rest) = none) :
    grammar.consume budget previous (c :: rest) =
      (grammar.consume budget (some c) rest).map (Consumed.prepend [c]) := by
  have hlocate : locate? grammar.length? previous (c :: rest) =
      (locate? grammar.length? (some c) rest).map fun site =>
          { site with before := c :: site.before } := by
    rw [locate?, h]
  unfold Grammar.consume
  rw [hlocate]
  cases hsite : locate? grammar.length? (some c) rest with
  | none => rfl
  | some site =>
    cases budget with
    | zero => rfl
    | succ budget =>
      simp only [Option.map_some]
      rw [lastOr_cons, hlocal.judge, ← hlocal.judge _ site.before]
      cases grammar.judge (lastOr (some c) site.before) ⟨site.before, site.mark, site.after⟩ with
      | error failure => rfl
      | ok verdict? => cases verdict? with
        | none =>
          simp only [bind, Except.bind]
          rw [List.cons_append, lastOr_cons]
          cases grammar.consume budget (lastOr (some c) (site.before ++ site.mark)) site.after <;> rfl
        | some verdict =>
          simp only [bind, Except.bind]
          cases grammar.consume budget (some ' ') verdict.after <;> rfl

theorem locate?_of_mark {length? : MarkLength} {s : Text} {n : Nat}
    (h : length? previous s = some n) :
    locate? length? previous s = some ⟨[], s.take n, s.drop n⟩ := by
  unfold locate?
  rw [h]

theorem length?_of_locate?_eq_none {length? : MarkLength} {before after : Text} {c : Char}
    (h : locate? length? previous (before ++ c :: after) = none) :
    length? (lastOr previous before) (c :: after) = none := by
  induction before generalizing previous with
  | nil =>
    cases hmark : length? previous (c :: after) with
    | none => exact hmark
    | some n =>
      rw [List.nil_append, locate?_of_mark hmark] at h
      cases h
  | cons d before ih =>
    rw [lastOr_cons]
    refine ih ?_
    rw [List.cons_append, locate?] at h
    split at h
    · cases h
    · exact Option.map_eq_none_iff.1 h

/-- A mark stands at the site, and none starts before it. -/
structure IsFirst (length? : MarkLength) (previous : Option Char) (site : Site) : Prop where
  mark : ∃ n, length? (lastOr previous site.before) (site.mark ++ site.after) = some n ∧
    site.mark = (site.mark ++ site.after).take n
  before : ∀ before c after, site.before = before ++ c :: after →
    length? (lastOr previous before) (c :: after ++ (site.mark ++ site.after)) = none

theorem isFirst_of_locate? {length? : MarkLength} {s : Text} {site : Site}
    (h : locate? length? previous s = some site) :
    IsFirst length? previous site := by
  induction s generalizing previous site with
  | nil =>
    unfold locate? at h
    split at h
    · rename_i n hn
      cases h
      exact ⟨⟨n, by simpa [lastOr] using hn, by simp⟩, by simp⟩
    · cases h
  | cons c rest ih =>
    unfold locate? at h
    split at h
    · rename_i n hn
      cases h
      exact ⟨⟨n, by simpa [lastOr] using hn, by simp⟩, by simp⟩
    · rename_i hnone
      obtain ⟨inner, hinner, rfl⟩ := Option.map_eq_some_iff.1 h
      obtain ⟨hmark, hbefore⟩ := ih hinner
      refine ⟨by rwa [lastOr_cons], fun before d after hsplit => ?_⟩
      cases before with
      | nil =>
        obtain ⟨rfl, rfl⟩ := List.cons.inj hsplit
        rw [locate?_eq_some hinner, List.append_assoc] at hnone
        exact hnone
      | cons e before =>
        obtain ⟨rfl, hinside⟩ := List.cons.inj hsplit
        rw [lastOr_cons]
        exact hbefore before d after hinside

def Grammar.Marks (grammar : Grammar) (site : Site) : Prop :=
  ∃ previous n, grammar.length? previous (site.mark ++ site.after) = some n ∧
    site.mark = (site.mark ++ site.after).take n

theorem Grammar.marks_of_locate? {s : Text} {site : Site}
    (h : locate? grammar.length? previous s = some site) : grammar.Marks site :=
  ⟨_, (isFirst_of_locate? h).mark⟩

theorem consume_zero {s : Text} {n : Nat} (h : grammar.length? previous s = some n) :
    grammar.consume 0 previous s = .ok ⟨s, [], 0, true⟩ :=
  consume_zero_of_mark (locate?_of_mark h)

theorem consume_mark {s : Text} {n : Nat} (h : grammar.length? previous s = some n) :
    grammar.consume (budget + 1) previous s = grammar.judge previous ⟨[], s.take n, s.drop n⟩ >>=
      fun verdict? => match verdict? with
      | some verdict =>
        (grammar.consume budget (some ' ') verdict.after).map (Consumed.push verdict)
      | none => (grammar.consume budget (lastOr previous (s.take n))
          (s.drop n)).map (Consumed.prepend (s.take n)) := by
  conv_lhs => unfold Grammar.consume
  rw [locate?_of_mark h]
  rfl

/-- What a grammar leaves of a text and takes out of it: it stops, or it goes on behind a token, or
behind a mark that is none. -/
inductive Grammar.Consumes (grammar : Grammar) : Option Char → Text → Consumed → Prop where
  | stop {previous : Option Char} {s : Text} {left : Nat} {exhausted : Bool} :
      grammar.Consumes previous s ⟨s, [], left, exhausted⟩
  | token {previous : Option Char} {s : Text} {site : Site} {verdict : Verdict} {rest : Consumed}
      (hsite : locate? grammar.length? previous s = some site)
      (hverdict : grammar.judge (lastOr previous site.before) site = .ok (some verdict))
      (hrest : grammar.Consumes (some ' ') verdict.after rest) :
      grammar.Consumes previous s { rest with
        text := site.before ++ ' ' :: rest.text,
        tokens := (verdict.token, verdict.repeats) :: rest.tokens }
  | mark {previous : Option Char} {s : Text} {site : Site} {rest : Consumed}
      (hsite : locate? grammar.length? previous s = some site)
      (hverdict : grammar.judge (lastOr previous site.before) site = .ok none)
      (hrest : grammar.Consumes (lastOr previous (site.before ++ site.mark)) site.after rest) :
      grammar.Consumes previous s { rest with text := site.before ++ site.mark ++ rest.text }

theorem Grammar.consumes_of_consume {s : Text} {consumed : Consumed}
    (h : grammar.consume budget previous s = .ok consumed) :
    grammar.Consumes previous s consumed := by
  replace h := consume_eq_ok_iff.1 h
  induction h with
  | done | spent => exact .stop
  | @step _ _ _ _ verdict? _ hsite hverdict _ ih => cases verdict? with
    | some verdict => exact .token hsite hverdict ih
    | none => exact .mark hsite hverdict ih

theorem map_prepend_nil (result : Except Failure Consumed) :
    result.map (Consumed.prepend []) = result := by
  cases result <;> rfl

theorem map_prepend_append (s t : Text) (result : Except Failure Consumed) :
    (result.map (Consumed.prepend t)).map (Consumed.prepend s) =
      result.map (Consumed.prepend (s ++ t)) := by
  cases result with
  | error failure => rfl
  | ok consumed => simp [Except.map, Consumed.prepend]

theorem consume_skip (hlocal : grammar.IsLocal) {s rest : Text}
    (h : ∀ before c after, s = before ++ c :: after → ∀ previous,
      grammar.length? previous (c :: (after ++ rest)) = none) :
    grammar.consume budget previous (s ++ rest) =
      (grammar.consume budget (lastOr previous s) rest).map (Consumed.prepend s) := by
  induction s generalizing previous with
  | nil =>
    rw [List.nil_append, lastOr_nil, map_prepend_nil]
  | cons c s ih =>
    have htail : ∀ before d after, s = before ++ d :: after → ∀ previous,
        grammar.length? previous (d :: (after ++ rest)) = none :=
      fun before d after hsplit => h (c :: before) d after (by rw [hsplit]; rfl)
    rw [List.cons_append, consume_cons hlocal (h [] c s rfl _), ih htail,
      map_prepend_append, lastOr_cons]
    rfl

/-! ## A content without tokens -/

/-- What stands behind a text changes nothing in it: the same marks stand there, and those that are
no tokens stay so. -/
structure Grammar.Ignores (grammar : Grammar) (isApart : Text → Prop) (behind : Text) : Prop where
  length : ∀ (previous : Option Char) (s : Text), s ≠ [] → isApart s →
    grammar.length? previous (s ++ behind) = grammar.length? previous s
  judge : ∀ (previous : Option Char) (mark after : Text), isApart after →
    grammar.judge previous ⟨[], mark, after⟩ = .ok none →
      grammar.judge previous ⟨[], mark, after ++ behind⟩ = .ok none

/-- A grammar comes to the end of a text without a token: it passes over a character where no mark
starts, or over a mark that is no token, which costs one of its budget. -/
inductive Grammar.PassesOver (grammar : Grammar) : Nat → Option Char → Text → Nat → Prop where
  | nil {left : Nat} {previous : Option Char} : grammar.PassesOver left previous [] left
  | char {budget left : Nat} {previous : Option Char} {c : Char} {rest : Text}
      (hmark : grammar.length? previous (c :: rest) = none)
      (hrest : grammar.PassesOver budget (some c) rest left) :
        grammar.PassesOver budget previous (c :: rest) left
  | mark {budget left : Nat} {previous : Option Char} {s : Text} {n : Nat}
      (hmark : grammar.length? previous s = some n)
      (hverdict : grammar.judge previous ⟨[], s.take n, s.drop n⟩ = .ok none)
      (hrest : grammar.PassesOver budget (lastOr previous (s.take n)) (s.drop n) left) :
        grammar.PassesOver (budget + 1) previous s left

theorem passesOver_of_consume (hlocal : grammar.IsLocal) {s : Text} {consumed : Consumed}
    (h : grammar.consume budget previous s = .ok consumed)
    (htokens : consumed.tokens = []) (hcomplete : consumed.exhausted = false) : grammar.PassesOver
      budget previous s consumed.left := by
  induction hn : s.length using Nat.strong_induction_on generalizing s budget previous consumed with
  | _ length ih =>
    subst hn
    cases hmark : grammar.length? previous s with
    | none => cases s with
      | nil =>
        cases (consume_nil hlocal).symm.trans h
        exact .nil
      | cons c rest =>
        rw [consume_cons hlocal hmark] at h
        obtain ⟨others, hothers, rfl⟩ := Result.map_eq_ok.1 h
        have hrest := ih rest.length (by simp) hothers htokens hcomplete rfl
        exact .char hmark hrest
    | some n => cases budget with
      | zero =>
        cases (consume_zero hmark).symm.trans h
        cases hcomplete
      | succ budget =>
        rw [consume_mark hmark] at h
        obtain ⟨verdict?, hverdict, h⟩ := Result.bind_eq_ok.1 h
        cases verdict? with
        | some verdict =>
          obtain ⟨others, -, rfl⟩ := Result.map_eq_ok.1 h
          cases htokens
        | none =>
          obtain ⟨others, hothers, rfl⟩ := Result.map_eq_ok.1 h
          have hshorter : (s.drop n).length < s.length := by
            have hlength := hlocal.length hmark
            rw [List.length_drop]
            omega
          have hrest := ih _ hshorter hothers htokens hcomplete rfl
          exact .mark hmark hverdict hrest

/-- A content in which a grammar finds no token is passed over whatever stands behind it, at the
cost of its marks. -/
theorem consume_append (hlocal : grammar.IsLocal) {isApart : Text → Prop}
    (hsuffix : ∀ {s t : Text}, isApart (s ++ t) → isApart t)
    {behind : Text} (hignores : grammar.Ignores isApart behind) {content : Text} {left : Nat}
    (hapart : isApart content)
    (h : grammar.consume budget previous content = .ok ⟨content, [], left, false⟩) :
    ∃ marks, budget = left + marks ∧ ∀ more,
      grammar.consume (more + marks) previous (content ++ behind) =
      (grammar.consume more (lastOr previous content) behind).map (Consumed.prepend content) := by
  have hpasses : grammar.PassesOver budget previous content left :=
    passesOver_of_consume hlocal h rfl rfl
  clear h
  induction hpasses with
  | nil =>
    refine ⟨0, rfl, fun more => ?_⟩
    rw [List.nil_append, lastOr_nil, Nat.add_zero, map_prepend_nil]
  | @char budget left previous c rest hmark _ ih =>
    obtain ⟨marks, hmarks, hconsume⟩ := ih (hsuffix (s := [c]) hapart)
    refine ⟨marks, hmarks, fun more => ?_⟩
    have hnone : grammar.length? previous (c :: (rest ++ behind)) = none := by
      rw [← List.cons_append, hignores.length _ _ (by simp) hapart, hmark]
    rw [List.cons_append, consume_cons hlocal hnone, hconsume, map_prepend_append, lastOr_cons]
    rfl
  | @mark budget left previous s n hmark hverdict _ ih =>
    obtain ⟨hpositive, hle⟩ := hlocal.length hmark
    have hsplit := List.take_append_drop n s
    have hafter : isApart (s.drop n) := hsuffix (s := s.take n) (by rwa [hsplit])
    obtain ⟨marks, hmarks, hconsume⟩ := ih hafter
    refine ⟨marks + 1, by omega, fun more => ?_⟩
    -- the same mark stands before the longer text, and what follows it makes it no token either
    have hne : s ≠ [] := List.ne_nil_of_length_pos (Nat.lt_of_lt_of_le hpositive hle)
    have hsame : grammar.length? previous (s ++ behind) = some n := by
      rw [hignores.length _ _ hne hapart, hmark]
    have htake : (s ++ behind).take n = s.take n := List.take_append_of_le_length hle
    have hdrop : (s ++ behind).drop n = s.drop n ++ behind := List.drop_append_of_le_length hle
    rw [← Nat.add_assoc, consume_mark hsame, htake, hdrop, hignores.judge _ _ _ hafter hverdict]
    have hlast : lastOr (lastOr previous (s.take n)) (s.drop n) = lastOr previous s := by
      rw [← lastOr_append, hsplit]
    show Except.map _ (grammar.consume (more + marks) _ (s.drop n ++ behind)) = _
    rw [hconsume, map_prepend_append, hlast, hsplit]

/-! ## Brackets -/

def firstBracket? (s : Text) : Option Char :=
  (s.dropWhile isInner).head?

def lastBracket? (s : Text) : Option Char :=
  firstBracket? s.reverse

theorem firstBracket?_append (s t : Text) :
    firstBracket? (s ++ t) = (firstBracket? s).or (firstBracket? t) := by
  induction s with
  | nil => rfl
  | cons c rest ih =>
    by_cases hc : isInner c = true
    · simpa only [firstBracket?, List.cons_append, List.dropWhile_cons_of_pos hc] using ih
    · simp only [firstBracket?, List.cons_append, List.dropWhile_cons_of_neg hc,
        List.head?_cons, Option.some_or]

theorem lastBracket?_append (s t : Text) :
    lastBracket? (s ++ t) = (lastBracket? t).or (lastBracket? s) := by
  rw [lastBracket?, List.reverse_append, firstBracket?_append]
  rfl

theorem firstBracket?_eq_none_iff {s : Text} : firstBracket? s = none ↔
    ∀ c ∈ s, isInner c = true := by
  rw [firstBracket?, List.head?_eq_none_iff, List.dropWhile_eq_nil_iff]

theorem lastBracket?_eq_none {s : Text} (h : ∀ c ∈ s, isInner c = true) : lastBracket? s = none :=
  firstBracket?_eq_none_iff.2 fun c hc => h c (List.mem_reverse.1 hc)

/-- No inline field reaches from a text into the text behind it. -/
def IsApart (s behind : Text) : Prop :=
  lastBracket? s ≠ some '[' ∨ firstBracket? behind ≠ some ']'

theorem IsApart.right {s t behind : Text} (h : IsApart (s ++ t) behind) : IsApart t behind := by
  refine h.imp_left fun hlast hopen => hlast ?_
  rw [lastBracket?_append, hopen]
  rfl

/-! ## Metadata between spaces -/

/-- A piece of metadata as it stands in a line, and what is read from it. -/
structure Cell where
  kind : TokenKind
  slot : Slot
  value : Text
  repeats : Bool
  text : Text

/-- The token was read from the cell; spaces behind the cell may belong to it. -/
def Cell.Gives (cell : Cell) (token : Token) : Prop :=
  ∃ spaces : Text, (∀ c ∈ spaces, c = ' ') ∧
    token = ⟨cell.kind, cell.slot, cell.value, cell.text ++ spaces⟩

/-- The text ends, or goes on with a space. -/
def IsBreak (s : Text) : Prop :=
  ∀ c, s.head? = some c → c = ' '

/-- Cells with spaces between them, and perhaps around them. -/
inductive Spaced : List Cell → Text → Prop where
  | nil : Spaced [] []
  | space {cells : List Cell} {s : Text} (h : Spaced cells s) : Spaced cells (' ' :: s)
  | cell {cell : Cell} {cells : List Cell} {s : Text} (hbreak : IsBreak s) (h : Spaced cells s) :
      Spaced (cell :: cells) (cell.text ++ s)

/-- A mark stands at the start of the cell. -/
structure Cell.IsMarked (marks : MarkLength) (cell : Cell) : Prop where
  head : ∃ c rest, cell.text = c :: rest ∧ isBlank c = false
  mark : ∀ s, IsBreak s → ∃ n, marks (some ' ') (cell.text ++ s) = some n

/-- A break, and behind its spaces a mark or nothing. -/
structure Follows (marks : MarkLength) (s : Text) : Prop where
  isBreak : IsBreak s
  spaces : ∀ c ∈ s.takeWhile isBlank, c = ' '
  mark : trimStart s = [] ∨ ∃ n, marks (some ' ') (trimStart s) = some n

/-- The grammar takes the cell out of a text as the one token that it is. -/
def Grammar.Reads (grammar : Grammar) (marks : MarkLength) (cell : Cell) : Prop :=
  ∀ (previous : Option Char) (s : Text), previous.any isGlue = false →
    Follows marks s → IsApart cell.text s →
    ∃ n verdict, grammar.length? previous (cell.text ++ s) = some n ∧
      grammar.judge previous ⟨[], (cell.text ++ s).take n, (cell.text ++ s).drop n⟩ =
        .ok (some verdict) ∧
      cell.Gives verdict.token ∧ verdict.repeats = cell.repeats ∧
        (verdict.after = s ∨ verdict.after = trimStart s)

def Grammar.Skips (grammar : Grammar) (cell : Cell) : Prop :=
  ∀ behind, IsBreak behind → IsApart cell.text behind → ∀ before c after,
    cell.text = before ++ c :: after →
    ∀ previous, grammar.length? previous (c :: (after ++ behind)) = none

variable {marks : MarkLength} {cells : List Cell} {s : Text}

theorem Cell.IsMarked.trimStart_append {cell : Cell} (h : cell.IsMarked marks) (s : Text) :
    trimStart (cell.text ++ s) = cell.text ++ s := by
  obtain ⟨c, rest, htext, hc⟩ := h.head
  rw [htext]
  exact trimStart_eq_self fun d hd => by
    obtain rfl : c = d := by simpa using hd
    exact hc

theorem Spaced.withoutSpaces (h : Spaced cells s) (hmarked : ∀ cell ∈ cells, cell.IsMarked marks) :
    Spaced cells (trimStart s) := by
  induction h with
  | nil => exact .nil
  | space _ ih => exact ih hmarked
  | cell hbreak h _ =>
    rw [(hmarked _ List.mem_cons_self).trimStart_append]
    exact .cell hbreak h

theorem Spaced.follows (h : Spaced cells s) (hmarked : ∀ cell ∈ cells, cell.IsMarked marks)
    (hbreak : IsBreak s) : Follows marks s := by
  suffices (∀ c ∈ s.takeWhile isBlank, c = ' ') ∧
      (trimStart s = [] ∨ ∃ n, marks (some ' ') (trimStart s) = some n) from
    ⟨hbreak, this.1, this.2⟩
  clear hbreak
  induction h with
  | nil => exact ⟨by simp, .inl rfl⟩
  | @space cells s _ ih =>
    obtain ⟨hspaces, hmark⟩ := ih hmarked
    have hcons : (' ' :: s).takeWhile isBlank = ' ' :: s.takeWhile isBlank :=
      List.takeWhile_cons_of_pos (by decide)
    refine ⟨fun c hc => ?_, hmark⟩
    rw [hcons] at hc
    rcases List.mem_cons.1 hc with rfl | hc
    · rfl
    · exact hspaces c hc
  | @cell cell cells s hbreak _ _ =>
    have hcell := hmarked cell List.mem_cons_self
    obtain ⟨d, rest, htext, hd⟩ := hcell.head
    refine ⟨?_, .inr ?_⟩
    · have hnone : (cell.text ++ s).takeWhile isBlank = [] := by
        rw [htext]
        exact List.takeWhile_cons_of_neg (by simp [hd])
      simp [hnone]
    · rw [hcell.trimStart_append]
      exact hcell.mark s hbreak

theorem Spaced.isApart (h : Spaced cells s) {before : Text}
    (hapart : ∀ cell ∈ cells, IsApart before cell.text) : IsApart before s := by
  by_cases hopen : lastBracket? before = some '['
  · right
    induction h with
    | nil => simp [firstBracket?]
    | @space cells s _ ih =>
      rw [← List.singleton_append, firstBracket?_append]
      exact ih hapart
    | @cell cell cells s _ _ ih =>
      have hfirst := (hapart cell List.mem_cons_self).resolve_left (not_not.2 hopen)
      have hrest := ih fun other hother => hapart other (List.mem_cons_of_mem _ hother)
      rw [firstBracket?_append]
      cases hbracket : firstBracket? cell.text with
      | none => exact hrest
      | some c => rwa [Option.some_or, ← hbracket]
  · exact .inl hopen

theorem isBreak_space (s : Text) : IsBreak (' ' :: s) := by
  intro c hc
  simpa using hc.symm

/-- The token of a cell, with whether it repeats. -/
def Cell.GivesEntry (cell : Cell) (entry : Token × Bool) : Prop :=
  cell.Gives entry.1 ∧ entry.2 = cell.repeats

/-- A cell that a grammar reads gives a token and costs one of the budget; spaces behind the cell
may go with it. -/
theorem Grammar.Reads.exists_consume {cell : Cell} (h : grammar.Reads marks cell)
    (hprevious : previous.any isGlue = false)
    (hfollows : Follows marks s) (hapart : IsApart cell.text s) :
    ∃ verdict : Verdict, cell.GivesEntry (verdict.token, verdict.repeats) ∧
      (verdict.after = s ∨ verdict.after = trimStart s) ∧
      ∀ budget, grammar.consume (budget + 1) previous (cell.text ++ s) =
        (grammar.consume budget (some ' ') verdict.after).map (Consumed.push verdict) := by
  obtain ⟨n, verdict, hmark, hverdict, hgives, hrepeats, hafter⟩ :=
    h previous s hprevious hfollows hapart
  refine ⟨verdict, ⟨hgives, hrepeats⟩, hafter, fun budget => ?_⟩
  rw [consume_mark hmark, hverdict]
  rfl

theorem Cell.IsMarked.not_isBreak {cell : Cell} (h : cell.IsMarked marks) (s : Text) :
    ¬IsBreak (cell.text ++ s) := by
  obtain ⟨c, rest, htext, hc⟩ := h.head
  intro hbreak
  obtain rfl : c = ' ' := hbreak c (by rw [htext]; rfl)
  cases hc

/-- A grammar takes its own cells out of a line, a space taking the place of each, and leaves
the others. -/
theorem consume_spaced (hlocal : grammar.IsLocal)
    (hspace : ∀ previous rest, grammar.length? previous (' ' :: rest) = none)
    {kind : TokenKind} (hspaced : Spaced cells s) (hmarked : ∀ cell ∈ cells, cell.IsMarked marks)
    (hapart : cells.Pairwise fun cell later => IsApart cell.text later.text)
    (hown : ∀ cell ∈ cells, cell.kind = kind → grammar.Reads marks cell)
    (hother : ∀ cell ∈ cells, cell.kind ≠ kind → grammar.Skips cell)
    (hprevious : previous.any isGlue = false ∨ IsBreak s) (more : Nat) :
    ∃ text tokens, grammar.consume (more + (cells.filter (·.kind == kind)).length) previous s =
      .ok ⟨text, tokens, more, false⟩ ∧
      Spaced (cells.filter (·.kind != kind)) text ∧ (IsBreak s → IsBreak text) ∧
      List.Forall₂ Cell.GivesEntry (cells.filter (·.kind == kind)) tokens := by
  have hfree : Option.any isGlue (some ' ') = false := by decide
  induction hn : s.length using Nat.strong_induction_on generalizing cells s previous with
  | _ n ih =>
    subst hn
    cases hspaced with
    | nil => exact ⟨[], [], consume_nil hlocal, .nil, id, .nil⟩
    | @space _ s hspaced =>
      obtain ⟨text, tokens, hconsume, htext, -, htokens⟩ :=
        ih s.length (by simp) hspaced hmarked hapart hown hother (.inl hfree) rfl
      refine ⟨' ' :: text, tokens, ?_, .space htext, fun _ => isBreak_space text, htokens⟩
      rw [consume_cons hlocal (hspace _ _), hconsume]
      rfl
    | @cell cell cells s hbreak hspaced =>
      rw [List.pairwise_cons] at hapart
      have hcell := hmarked cell List.mem_cons_self
      have hmarked' := fun other hother => hmarked other (List.mem_cons_of_mem cell hother)
      have hown' := fun other hmem => hown other (List.mem_cons_of_mem cell hmem)
      have hother' := fun other hmem => hother other (List.mem_cons_of_mem cell hmem)
      have hlength : 0 < cell.text.length := by
        obtain ⟨c, rest, hcons, -⟩ := hcell.head
        simp [hcons]
      by_cases hkind : cell.kind = kind
      · have hfree' := hprevious.resolve_right (hcell.not_isBreak s)
        obtain ⟨verdict, hentry, hafter, hread⟩ :=
          (hown cell List.mem_cons_self hkind).exists_consume hfree'
            (hspaced.follows hmarked' hbreak) (hspaced.isApart hapart.1)
        have hrest : Spaced cells verdict.after ∧ verdict.after.length ≤ s.length := by
          rcases hafter with hafter | hafter <;> rw [hafter]
          · exact ⟨hspaced, Nat.le_refl _⟩
          · exact ⟨hspaced.withoutSpaces hmarked', (List.dropWhile_sublist _).length_le⟩
        obtain ⟨text, tokens, hconsume, htext, -, htokens⟩ :=
          ih verdict.after.length (by simp; omega) hrest.1 hmarked'
            hapart.2 hown' hother' (.inl hfree) rfl
        have hfilter : (cell :: cells).filter (·.kind == kind) =
            cell :: cells.filter (·.kind == kind) :=
          List.filter_cons_of_pos (by simp [hkind])
        refine ⟨' ' :: text, (verdict.token, verdict.repeats) :: tokens, ?_,
          ?_, fun _ => isBreak_space text, ?_⟩
        · rw [hfilter, List.length_cons, ← Nat.add_assoc, hread, hconsume]
          rfl
        · rw [List.filter_cons_of_neg (by simp [hkind])]
          exact .space htext
        · rw [hfilter]
          exact .cons hentry htokens
      · -- the cell stays, so what stands before the rest is its last character, but the rest is a break
        obtain ⟨text, tokens, hconsume, htext, hbreak', htokens⟩ :=
          ih s.length (by simp; omega) hspaced hmarked' hapart.2 hown' hother' (.inr hbreak) rfl
        have hfilter : (cell :: cells).filter (·.kind == kind) = cells.filter (·.kind == kind) :=
          List.filter_cons_of_neg (by simp [hkind])
        refine ⟨cell.text ++ text, tokens, ?_, ?_, fun h => absurd h (hcell.not_isBreak s), ?_⟩
        · rw [hfilter,
            consume_skip hlocal
              (hother cell List.mem_cons_self hkind s hbreak (hspaced.isApart hapart.1)), hconsume]
          rfl
        · rw [List.filter_cons_of_pos (by simp [hkind])]
          exact .cell (hbreak' hbreak) htext
        · rwa [hfilter]

/-! ## A content and metadata behind it -/

theorem text_of_consume {consumed : Consumed} (h : grammar.consume budget previous s = .ok consumed)
    (htokens : consumed.tokens = []) :
    consumed.text = s := by
  have hconsumes := Grammar.consumes_of_consume h
  clear h
  induction hconsumes with
  | stop => rfl
  | token _ _ _ _ => cases htokens
  | mark hsite _ _ ih => rw [ih htokens, locate?_eq_some hsite]

theorem firsts_sublist (seen : List Slot) (entries : List (Token × Bool)) :
    (firsts seen entries).Sublist (entries.map (·.1)) := by
  induction entries generalizing seen with
  | nil => exact .slnil
  | cons entry entries ih =>
    unfold firsts
    split
    · exact (ih seen).cons_cons _
    · split
      · exact (ih seen).cons _
      · exact (ih _).cons_cons _

theorem mem_of_mem_firsts {seen : List Slot} {entries : List (Token × Bool)} {token : Token}
    (h : token ∈ firsts seen entries) :
    ∃ entry ∈ entries, entry.1 = token :=
  List.mem_map.1 ((firsts_sublist seen entries).subset h)

/-- What a grammar's judgement gives every token at a mark of its own, all tokens have
that it takes. -/
theorem forall_mem_firsts_of_marks {s : Text} {consumed : Consumed} {P : Token → Prop}
    (hjudge : ∀ previous site verdict, grammar.Marks site →
      grammar.judge previous site = .ok (some verdict) → P verdict.token)
    (h : grammar.consume budget previous s = .ok consumed) :
    ∀ token ∈ firsts [] consumed.tokens, P token := by
  have hall : ∀ entry ∈ consumed.tokens, P entry.1 := by
    have hconsumes := Grammar.consumes_of_consume h
    clear h
    induction hconsumes with
    | stop => exact nofun
    | token hsite hverdict _ ih =>
      exact List.forall_mem_cons.2 ⟨hjudge _ _ _ (Grammar.marks_of_locate? hsite) hverdict, ih⟩
    | mark _ _ _ ih => exact ih
  intro token htoken
  obtain ⟨entry, hentry, rfl⟩ := mem_of_mem_firsts htoken
  exact hall entry hentry

theorem forall_mem_consumeAll_of_marks {grammars : List Grammar} {s : Text}
    {consumed : Consumed} {P : Token → Prop}
    (hjudge : ∀ grammar ∈ grammars, ∀ previous site verdict, grammar.Marks site →
      grammar.judge previous site = .ok (some verdict) → P verdict.token)
    (h : consumeAll grammars budget s = .ok consumed) :
    ∀ token ∈ consumed.tokens.map (·.1), P token := by
  induction grammars generalizing budget s consumed with
  | nil =>
    cases h
    exact nofun
  | cons grammar grammars ih =>
    obtain ⟨first, others, hfirst, hothers, rfl⟩ := consumeAll_cons_eq_ok_iff.1 h
    intro token htoken
    simp only [List.map_append, List.map_map, Function.comp_def, List.map_id',
      List.mem_append] at htoken
    exact htoken.elim (forall_mem_firsts_of_marks (hjudge grammar List.mem_cons_self) hfirst token)
      (ih (fun other hother => hjudge other (List.mem_cons_of_mem _ hother)) hothers token)

theorem firsts_eq_map {seen : List Slot} {entries : List (Token × Bool)}
    (hseen : ∀ entry ∈ entries, entry.2 = false → entry.1.slot ∉ seen)
    (hnodup : ((entries.filter (!·.2)).map (·.1.slot)).Nodup) :
    firsts seen entries = entries.map (·.1) := by
  induction entries generalizing seen with
  | nil => rfl
  | cons entry entries ih =>
    obtain ⟨token, repeats⟩ := entry
    have hseen' : ∀ entry ∈ entries, entry.2 = false → entry.1.slot ∉ seen :=
      fun entry hentry => hseen entry (List.mem_cons_of_mem _ hentry)
    cases repeats with
    | true => exact congrArg (token :: ·) (ih hseen' hnodup)
    | false =>
      rw [List.filter_cons_of_pos rfl, List.map_cons, List.nodup_cons] at hnodup
      have hnew : seen.contains token.slot = false := by
        simpa using hseen _ List.mem_cons_self rfl
      simp only [firsts, hnew, Bool.false_eq_true, if_false, List.map_cons]
      rw [ih (fun entry hentry hfirst hmem => ?_) hnodup.2]
      rcases List.mem_cons.1 hmem with hsame | hmem
      · exact hnodup.1
          (hsame ▸ List.mem_map.2 ⟨entry, List.mem_filter.2 ⟨hentry, by simp [hfirst]⟩, rfl⟩)
      · exact hseen' entry hentry hfirst hmem

theorem firsts_givesEntry {entries : List (Token × Bool)}
    (h : List.Forall₂ Cell.GivesEntry cells entries)
    (hnodup : ((cells.filter (!·.repeats)).map (·.slot)).Nodup) :
    List.Forall₂ Cell.Gives cells (firsts [] entries) := by
  have hslots : (entries.filter (!·.2)).map (·.1.slot) =
      (cells.filter (!·.repeats)).map (·.slot) := by
    clear hnodup
    induction h with
    | nil => rfl
    | @cons cell entry _ _ hentry _ ih =>
      obtain ⟨⟨spaces, -, htoken⟩, hrepeats⟩ := hentry
      rw [List.filter_cons, List.filter_cons, hrepeats]
      split
      · rw [List.map_cons, List.map_cons, ih, htoken]
      · exact ih
  rw [firsts_eq_map (by simp) (by rwa [hslots])]
  clear hnodup hslots
  induction h with
  | nil => exact .nil
  | cons hentry _ ih => exact .cons hentry.1 ih

theorem firsts_eq_nil {entries : List (Token × Bool)} (h : firsts [] entries = []) :
    entries = [] := by
  cases entries with
  | nil => rfl
  | cons entry entries =>
    obtain ⟨token, repeats⟩ := entry
    cases repeats <;> simp [firsts] at h

/-- Where several grammars take no token out of a text and refuse no mark, the first one does so,
and the others after it. -/
theorem consumeAll_cons_of_tokens_eq_nil {grammars : List Grammar} {s : Text} {consumed : Consumed}
    (h : consumeAll (grammar :: grammars) budget s = .ok consumed) (htokens : consumed.tokens = [])
    (hcomplete : consumed.exhausted = false) :
    ∃ left, grammar.consume budget none s = .ok ⟨s, [], left, false⟩ ∧
      consumeAll grammars left s = .ok consumed := by
  obtain ⟨first, others, hfirst, hothers, rfl⟩ := consumeAll_cons_eq_ok_iff.1 h
  obtain ⟨hnone, hnoOthers⟩ := List.append_eq_nil_iff.1 htokens
  obtain ⟨hends, hotherEnds⟩ := Bool.or_eq_false_iff.1 hcomplete
  have hfirstTokens := firsts_eq_nil (List.map_eq_nil_iff.1 hnone)
  have htext := text_of_consume hfirst hfirstTokens
  obtain ⟨text, tokens, left, exhausted⟩ := first
  obtain ⟨text', tokens', left', exhausted'⟩ := others
  dsimp only at hends hotherEnds hfirstTokens hnoOthers htext hothers
  subst hends hotherEnds hfirstTokens hnoOthers htext
  exact ⟨left, hfirst, hothers⟩

theorem Spaced.eq_space (h : Spaced [] s) : ∀ c ∈ s, c = ' ' := by
  generalize hcells : ([] : List Cell) = cells at h
  induction h with
  | nil => simp
  | space _ ih => simpa using ih hcells
  | cell _ _ _ => cases hcells

/-- The four grammars and the metadata of a line: each piece is read by its grammar, and no grammar
notices what stands behind a content. -/
structure Passes (byKind : TokenKind → Grammar) (marks : MarkLength)
    (cells : List Cell) : Prop where
  isLocal : ∀ kind, (byKind kind).IsLocal
  space : ∀ kind previous rest, (byKind kind).length? previous (' ' :: rest) = none
  ignores : ∀ kind (behind : Text), Follows marks behind →
    (byKind kind).Ignores (IsApart · behind) behind
  marked : ∀ cell ∈ cells, cell.IsMarked marks
  apart : cells.Pairwise fun cell later => IsApart cell.text later.text
  reads : ∀ cell ∈ cells, (byKind cell.kind).Reads marks cell
  nodup : ((cells.filter (!·.repeats)).map (·.slot)).Nodup

variable {byKind : TokenKind → Grammar} {content : Text} {left : Nat}

theorem Passes.of_subset (h : Passes byKind marks cells) {p : Cell → Bool} :
    Passes byKind marks (cells.filter p) := by
  have hmem : ∀ cell ∈ cells.filter p, cell ∈ cells := fun cell hcell => (List.mem_filter.1 hcell).1
  refine ⟨h.isLocal, h.space, h.ignores, fun cell hcell => h.marked cell (hmem cell hcell),
    h.apart.sublist List.filter_sublist, fun cell hcell => h.reads cell (hmem cell hcell), ?_⟩
  exact h.nodup.sublist ((List.filter_sublist.filter _).map _)

theorem Passes.consume (h : Passes byKind marks cells) {kind : TokenKind}
    (hskips : ∀ cell ∈ cells, cell.kind ≠ kind → (byKind kind).Skips cell)
    (hspaced : Spaced cells s) (hstart : content = [] ∨ IsBreak s)
    (hapart : ∀ cell ∈ cells, IsApart content cell.text)
    (hcontent : (byKind kind).consume budget none content = .ok ⟨content, [], left, false⟩) :
    left ≤ budget ∧ ∀ more, ∃ text tokens,
      (byKind kind).consume (more + (cells.filter (·.kind == kind)).length + (budget - left))
        none (content ++ s) =
        .ok ⟨content ++ text, tokens, more, false⟩ ∧
      Spaced (cells.filter (·.kind != kind)) text ∧ (content = [] ∨ IsBreak text) ∧
      List.Forall₂ Cell.GivesEntry (cells.filter (·.kind == kind)) tokens := by
  have hlocal := h.isLocal kind
  have hown : ∀ cell ∈ cells, cell.kind = kind → (byKind kind).Reads marks cell :=
    fun cell hcell hkind => hkind ▸ h.reads cell hcell
  by_cases hempty : content = []
  · subst hempty
    rw [consume_nil hlocal] at hcontent
    cases hcontent
    refine ⟨Nat.le_refl _, fun more => ?_⟩
    have hfree : Option.any isGlue none = false ∨ IsBreak s := .inl rfl
    obtain ⟨text, tokens, hconsume, htext, -, htokens⟩ :=
      consume_spaced hlocal (h.space kind) hspaced h.marked h.apart hown hskips hfree more
    exact ⟨text, tokens, by rwa [Nat.sub_self], htext, .inl rfl, htokens⟩
  · have hbreak := hstart.resolve_left hempty
    have hignores := h.ignores kind s (hspaced.follows h.marked hbreak)
    obtain ⟨cost, rfl, hconsume⟩ :=
      consume_append hlocal IsApart.right hignores (hspaced.isApart hapart) hcontent
    refine ⟨Nat.le_add_right _ _, fun more => ?_⟩
    have hfree : (lastOr none content).any isGlue = false ∨ IsBreak s := .inr hbreak
    obtain ⟨text, tokens, hrest, htext, hbreak', htokens⟩ :=
      consume_spaced hlocal (h.space kind) hspaced h.marked h.apart hown hskips hfree more
    refine ⟨text, tokens, ?_, htext, .inr (hbreak' hbreak), htokens⟩
    rw [Nat.add_sub_cancel_left, hconsume, hrest]
    rfl

theorem length_filter_kind {kinds : List TokenKind} {kind : TokenKind}
    (hkind : kind ∉ kinds) (cells : List Cell) :
    (cells.filter (·.kind ∈ kind :: kinds)).length =
      (cells.filter (·.kind == kind)).length +
        ((cells.filter (·.kind != kind)).filter (·.kind ∈ kinds)).length := by
  rw [List.length_eq_length_filter_add (·.kind == kind), List.filter_filter,
    List.filter_filter, List.filter_filter]
  congr 2 <;> refine List.filter_congr fun cell _ => ?_
  · by_cases heq : cell.kind = kind <;> simp [heq]
  · by_cases heq : cell.kind = kind <;> simp [bne, heq, hkind, Bool.and_comm]

theorem filter_filter_kind {kind other : TokenKind} (hne : other ≠ kind) (cells : List Cell) :
    (cells.filter (·.kind != kind)).filter (·.kind == other) = cells.filter (·.kind == other) := by
  rw [List.filter_filter]
  refine List.filter_congr fun cell _ => ?_
  by_cases heq : cell.kind = other <;> simp [heq, hne]

theorem filter_filter_notMem (kind : TokenKind) (kinds : List TokenKind) (cells : List Cell) :
    (cells.filter (·.kind != kind)).filter (·.kind ∉ kinds) =
      cells.filter (·.kind ∉ kind :: kinds) := by
  rw [List.filter_filter]
  refine List.filter_congr fun cell _ => ?_
  by_cases heq : cell.kind = kind <;> simp [heq]

/-- Some grammars read a content without tokens and the metadata behind it: the content stays, each
piece of metadata is taken out by its grammar, and what belongs to none of them stays where no mark
of theirs starts in it. -/
theorem Passes.consumeSome {kinds : List TokenKind} (h : Passes byKind marks cells)
    (hnodup : kinds.Nodup)
    (hunread : ∀ kind ∈ kinds, ∀ cell ∈ cells, cell.kind ∉ kinds → (byKind kind).Skips cell)
    (hskips : kinds.Pairwise fun earlier later => ∀ cell ∈ cells, cell.kind = later →
      (byKind earlier).Skips cell)
    (hspaced : Spaced cells s) (hstart : content = [] ∨ IsBreak s)
    (hapart : ∀ cell ∈ cells, IsApart content cell.text)
    (hcontent : Markup.consumeAll (kinds.map byKind) budget content = .ok ⟨content, [], left, false⟩) :
    left ≤ budget ∧ ∀ more, ∃ text tokens,
      Markup.consumeAll (kinds.map byKind)
        (more + (cells.filter (·.kind ∈ kinds)).length + (budget - left)) (content ++ s) =
        .ok ⟨content ++ text, tokens, more, false⟩ ∧
      Spaced (cells.filter (·.kind ∉ kinds)) text ∧
      List.Forall₂ Cell.Gives (kinds.flatMap fun kind => cells.filter (·.kind == kind))
        (tokens.map (·.1)) := by
  induction kinds generalizing cells s budget with
  | nil =>
    cases hcontent
    refine ⟨Nat.le_refl _, fun more => ⟨s, [], ?_, by simpa using hspaced, .nil⟩⟩
    simp [Markup.consumeAll]
  | cons kind kinds ih =>
    obtain ⟨left', hfirst, hothers⟩ := consumeAll_cons_of_tokens_eq_nil hcontent rfl rfl
    rw [List.nodup_cons] at hnodup
    rw [List.pairwise_cons] at hskips
    have hmem : ∀ cell ∈ cells.filter (·.kind != kind), cell ∈ cells ∧ cell.kind ≠ kind := by
      intro cell hcell
      simpa using hcell
    have hpassed : ∀ cell ∈ cells, cell.kind ≠ kind → (byKind kind).Skips cell := by
      intro cell hcell hne
      by_cases hlater : cell.kind ∈ kinds
      · exact hskips.1 _ hlater cell hcell rfl
      · exact hunread kind List.mem_cons_self cell hcell (List.not_mem_cons_of_ne_of_not_mem hne hlater)
    obtain ⟨hle, hpass⟩ := h.consume hpassed hspaced hstart hapart hfirst
    -- the other grammars go on with the cells that the first one leaves, wherever these are
    have hrest := fun {s : Text} (hspaced : Spaced (cells.filter (·.kind != kind)) s)
        (hstart : content = [] ∨ IsBreak s) =>
      ih (h.of_subset (p := (·.kind != kind))) hnodup.2
        (fun other hother cell hcell hnone =>
          hunread other (List.mem_cons_of_mem _ hother) cell (hmem cell hcell).1
            (List.not_mem_cons_of_ne_of_not_mem (hmem cell hcell).2 hnone))
        (hskips.2.imp fun hskip cell hcell => hskip cell (hmem cell hcell).1) hspaced hstart
        (fun cell hcell => hapart cell (hmem cell hcell).1) hothers
    have hle' : left ≤ left' := by
      obtain ⟨behind, -, -, hspaced', hstart', -⟩ := hpass 0
      exact (hrest hspaced' hstart').1
    refine ⟨Nat.le_trans hle' hle, fun more => ?_⟩
    -- the first grammar has to leave what the others need for their cells and for their marks in
    -- the content
    obtain ⟨behind, tokens, hconsume, hspaced', hstart', htokens⟩ :=
      hpass (more + ((cells.filter (·.kind != kind)).filter (·.kind ∈ kinds)).length + (left' - left))
    obtain ⟨text', tokens', hconsume', hkept, htokens'⟩ := (hrest hspaced' hstart').2 more
    have hbudget : more + (cells.filter (·.kind ∈ kind :: kinds)).length + (budget - left) =
        more + ((cells.filter (·.kind != kind)).filter (·.kind ∈ kinds)).length + (left' - left) +
          (cells.filter (·.kind == kind)).length + (budget - left') := by
      have hlength := length_filter_kind hnodup.1 cells
      omega
    refine ⟨text', (firsts [] tokens).map (·, false) ++ tokens', ?_, ?_, ?_⟩
    · rw [List.map_cons, Markup.consumeAll, hbudget, hconsume]
      exact Result.bind_eq_ok.2 ⟨_, rfl, Result.bind_eq_ok.2 ⟨_, hconsume', rfl⟩⟩
    · rwa [filter_filter_notMem] at hkept
    · rw [List.flatMap_cons, List.map_append, List.map_map]
      refine List.rel_append ?_ ?_
      · have hgives := firsts_givesEntry htokens (h.of_subset (p := (·.kind == kind))).nodup
        simpa using hgives
      · have hfilter : ∀ other ∈ kinds, (cells.filter (·.kind != kind)).filter (·.kind == other) =
            cells.filter (·.kind == other) :=
          fun other hother => filter_filter_kind (ne_of_mem_of_not_mem hother hnodup.1) cells
        rwa [List.flatMap_congr hfilter] at htokens'

end Checklist.Markup
