import Checklist.Markup.Extraction
import Checklist.Proofs.Except

/-! # From mark to mark

A grammar reads a text up to its next mark, judges the mark and goes on behind it. Main statements:
the reading as a run of such steps (`consume_eq_ok_iff`), and what a line is read as when all its
grammars have read it (`extract_eq_ok_iff`). -/

namespace Checklist.Markup
set_option autoImplicit false
open Text

variable {grammar : Grammar} {budget : Nat} {previous : Option Char} {s : Text}
  {consumed : Consumed} {site : Site}

/-- Where reading goes on behind a mark: the character before the rest of the text, and the rest. -/
def goOn (previous : Option Char) (site : Site) : Option Verdict → Option Char × Text
  | some verdict => (some ' ', verdict.after)
  | none => (lastOr previous (site.before ++ site.mark), site.after)

def Consumed.behind (site : Site) (rest : Consumed) : Option Verdict → Consumed
  | some verdict => { rest with
      text := site.before ++ ' ' :: rest.text,
      tokens := (verdict.token, verdict.repeats) :: rest.tokens }
  | none => { rest with text := site.before ++ site.mark ++ rest.text }

@[simp] theorem exhausted_behind (site : Site)
    (rest : Consumed) (verdict? : Option Verdict) :
    (rest.behind site verdict?).exhausted = rest.exhausted := by
  cases verdict? <;> rfl

@[simp] theorem left_behind (site : Site)
    (rest : Consumed) (verdict? : Option Verdict) :
    (rest.behind site verdict?).left = rest.left := by
  cases verdict? <;> rfl

theorem consume_of_no_mark (h : locate? grammar.length? previous s = none) :
    grammar.consume budget previous s = .ok ⟨s, [], budget, false⟩ := by
  unfold Grammar.consume
  rw [h]

theorem consume_zero_of_mark (h : locate? grammar.length? previous s = some site) :
    grammar.consume 0 previous s = .ok ⟨s, [], 0, true⟩ := by
  unfold Grammar.consume
  rw [h]

theorem consume_succ_eq_ok_iff (h : locate? grammar.length? previous s = some site) :
    grammar.consume (budget + 1) previous s = .ok consumed ↔
      ∃ verdict? rest, grammar.judge (lastOr previous site.before) site = .ok verdict? ∧
      grammar.consume budget (goOn previous site verdict?).1 (goOn previous site verdict?).2 =
        .ok rest ∧ rest.behind site verdict? = consumed := by
  conv_lhs => unfold Grammar.consume
  rw [h]
  refine Result.bind_eq_ok.trans (exists_congr fun verdict? => ?_)
  rw [exists_and_left]
  refine and_congr_right fun _ => ?_
  cases verdict? <;> exact Result.bind_eq_ok.trans (exists_congr fun rest => and_congr_right
    fun _ => by simp [pure, Except.pure, Consumed.behind])

/-- How a text is read within a budget: to its end, up to the mark for which nothing is left, or
past a mark and on. -/
inductive Grammar.Runs (grammar : Grammar) : Nat → Option Char → Text → Consumed → Prop where
  | done {budget : Nat} {previous : Option Char} {s : Text}
      (hsite : locate? grammar.length? previous s = none) :
    Runs grammar budget previous s ⟨s, [], budget, false⟩
  | spent {previous : Option Char} {s : Text} {site : Site}
      (hsite : locate? grammar.length? previous s = some site) :
    Runs grammar 0 previous s ⟨s, [], 0, true⟩
  | step {budget : Nat} {previous : Option Char} {s : Text} {site : Site}
      {verdict? : Option Verdict} {rest : Consumed}
      (hsite : locate? grammar.length? previous s = some site)
        (hverdict : grammar.judge (lastOr previous site.before) site = .ok verdict?)
      (hrest : Runs grammar budget (goOn previous site verdict?).1
        (goOn previous site verdict?).2 rest) :
    Runs grammar (budget + 1) previous s (rest.behind site verdict?)

theorem consume_eq_ok_iff : grammar.consume budget previous s = .ok consumed ↔
    grammar.Runs budget previous s consumed := by
  constructor
  · intro h
    induction budget generalizing previous s consumed with
    | zero => cases hsite : locate? grammar.length? previous s with
      | none =>
        cases (consume_of_no_mark hsite).symm.trans h
        exact .done hsite
      | some site =>
        cases (consume_zero_of_mark hsite).symm.trans h
        exact .spent hsite
    | succ budget ih => cases hsite : locate? grammar.length? previous s with
      | none =>
        cases (consume_of_no_mark hsite).symm.trans h
        exact .done hsite
      | some site =>
        obtain ⟨verdict?, rest, hverdict, hrest, rfl⟩ := (consume_succ_eq_ok_iff hsite).1 h
        exact .step hsite hverdict (ih hrest)
  · intro h
    induction h with
    | done hsite => exact consume_of_no_mark hsite
    | spent hsite => exact consume_zero_of_mark hsite
    | step hsite hverdict _ ih => exact (consume_succ_eq_ok_iff hsite).2 ⟨_, _, hverdict, ih, rfl⟩

/-! ## A whole line -/

theorem consumeAll_cons_eq_ok_iff {rest : List Grammar} :
    consumeAll (grammar :: rest) budget s = .ok consumed ↔
    ∃ first others, grammar.consume budget none s = .ok first ∧
      consumeAll rest first.left first.text = .ok others ∧
      ⟨others.text, (firsts [] first.tokens).map (·, false) ++ others.tokens, others.left,
        first.exhausted || others.exhausted⟩ = consumed :=
  Result.both_eq_ok

theorem Token.restore_eq_ok_iff {store : List Text} {token restored : Token} :
    token.restore store = .ok restored ↔
    ∃ value raw, Markup.restore store token.value = .ok value ∧
      Markup.restore store token.raw = .ok raw ∧
      { token with value := value, raw := raw } = restored :=
  Result.both_eq_ok

theorem extract_eq_ok_iff {settings : Settings} {today : Date} {content : Text}
    {extraction : Extraction} :
    extract settings today content = .ok extraction ↔ ∃ consumed text tokens,
      consumeAll (grammars settings today) settings.metadataLimit (protect content).text =
        .ok consumed ∧
      restore (protect content).store (squeeze consumed.text) = .ok text ∧
      (consumed.tokens.map (·.1)).mapM (Token.restore (protect content).store) = .ok tokens ∧
      ⟨text, fieldValues (winners tokens), customValues (winners tokens), tagValues tokens, tokens,
        consumed.exhausted⟩ = extraction := by
  refine Result.bind_eq_ok.trans (exists_congr fun consumed => ?_)
  simp only [exists_and_left]
  exact and_congr_right fun _ => Result.both_eq_ok.trans (by simp only [exists_and_left])

end Checklist.Markup
