import Checklist.Proofs.Markup.Foremost

/-! # A smaller budget cuts off the end

All grammars of a line share one budget, and every mark that is met costs one. Main statements: a
grammar runs out of its budget exactly if it stands before a mark when nothing is left
(`exhausted_consume_iff`), what it takes until then does not depend on what it could have taken
later (`consume_of_le`), and so a line that is read under a smaller limit says the beginning of what
it says under a larger one (`limit_cuts_end`). -/

namespace Checklist.Markup
set_option autoImplicit false
open Text

variable {grammar : Grammar} {budget more : Nat} {previous : Option Char} {s : Text}
  {consumed small large : Consumed} {site : Site}

/-! ## Marks that are refused -/

/-- Reading a text from left to right, a grammar has dealt with so many marks when it stands before
the rest of the text. -/
inductive Grammar.Reaches (grammar : Grammar) :
    Nat → Option Char → Text → Option Char → Text → Prop where
  | start {previous : Option Char} {s : Text} : Reaches grammar 0 previous s previous s
  | mark {count : Nat} {previous before : Option Char} {s rest : Text}
      {site : Site} {verdict? : Option Verdict}
      (hsite : locate? grammar.length? previous s = some site)
        (hverdict : grammar.judge (lastOr previous site.before) site = .ok verdict?)
      (hrest : Reaches grammar count (goOn previous site verdict?).1
        (goOn previous site verdict?).2 before rest) :
      Reaches grammar (count + 1) previous s before rest

/-- When the budget is spent on marks, a further mark follows in the rest of the text. -/
def Grammar.Refuses (grammar : Grammar) (budget : Nat) (previous : Option Char) (s : Text) : Prop :=
  ∃ before rest site, grammar.Reaches budget previous s before rest ∧
    locate? grammar.length? before rest = some site

/-- One of several grammars that read one after the other refuses a mark, each having what those
before it leave of the budget. -/
inductive RefusesAny : List Grammar → Nat → Text → Prop where
  | now {grammar : Grammar} {grammars : List Grammar} {budget : Nat} {s : Text}
      (h : grammar.Refuses budget none s) :
      RefusesAny (grammar :: grammars) budget s
  | later {grammar : Grammar} {grammars : List Grammar} {budget : Nat} {s : Text} {consumed : Consumed}
      (hconsumed : grammar.consume budget none s = .ok consumed)
        (h : RefusesAny grammars consumed.left consumed.text) :
      RefusesAny (grammar :: grammars) budget s

theorem exhausted_consume_iff (h : grammar.consume budget previous s = .ok consumed) :
    consumed.exhausted = true ↔ grammar.Refuses budget previous s := by
  replace h := consume_eq_ok_iff.1 h
  induction h with
  | done hsite =>
    refine iff_of_false Bool.false_ne_true ?_
    rintro ⟨before, rest, site, hreaches, hmark⟩
    cases hreaches with
    | start => cases hsite.symm.trans hmark
    | mark hsite' => cases hsite.symm.trans hsite'
  | spent hsite => exact iff_of_true rfl ⟨_, _, _, .start, hsite⟩
  | step hsite hverdict _ ih =>
    rw [exhausted_behind]
    refine ih.trans ⟨?_, ?_⟩
    · rintro ⟨before, last, mark, hreaches, hmark⟩
      exact ⟨before, last, mark, .mark hsite hverdict hreaches, hmark⟩
    · rintro ⟨before, last, mark, hreaches, hmark⟩
      cases hreaches with
      | mark hsite' hverdict' hreaches =>
        cases hsite.symm.trans hsite'
        cases hverdict.symm.trans hverdict'
        exact ⟨before, last, mark, hreaches, hmark⟩

theorem exhausted_consumeAll_iff {grammars : List Grammar}
    (h : consumeAll grammars budget s = .ok consumed) :
    consumed.exhausted = true ↔ RefusesAny grammars budget s := by
  induction grammars generalizing budget s consumed with
  | nil =>
    cases h
    exact iff_of_false Bool.false_ne_true nofun
  | cons grammar grammars ih =>
    obtain ⟨first, others, hfirst, hothers, rfl⟩ := consumeAll_cons_eq_ok_iff.1 h
    rw [Bool.or_eq_true, exhausted_consume_iff hfirst, ih hothers]
    constructor
    · rintro (hnow | hlater)
      · exact .now hnow
      · exact .later hfirst hlater
    · rintro (hnow | ⟨hfirst', hlater⟩)
      · exact .inl hnow
      · cases hfirst.symm.trans hfirst'
        exact .inr hlater

/-- What a grammar leaves of a text when no mark is refused: it goes on behind a token, or behind a
mark that is none, to the end. -/
inductive Grammar.Finishes (grammar : Grammar) : Option Char → Text → Text → Prop where
  | stop {previous : Option Char} {s : Text} (hnone : locate? grammar.length? previous s = none) :
      grammar.Finishes previous s s
  | token {previous : Option Char} {s left : Text} {site : Site} {verdict : Verdict}
      (hsite : locate? grammar.length? previous s = some site)
      (hverdict : grammar.judge (lastOr previous site.before) site = .ok (some verdict))
        (hrest : grammar.Finishes (some ' ') verdict.after left) :
      grammar.Finishes previous s (site.before ++ ' ' :: left)
  | mark {previous : Option Char} {s left : Text} {site : Site}
      (hsite : locate? grammar.length? previous s = some site)
      (hverdict : grammar.judge (lastOr previous site.before) site = .ok none)
      (hrest : grammar.Finishes (lastOr previous (site.before ++ site.mark)) site.after left) :
      grammar.Finishes previous s (site.before ++ site.mark ++ left)

theorem Grammar.finishes_of_consume (h : grammar.consume budget previous s = .ok consumed)
    (hcomplete : consumed.exhausted = false) :
    grammar.Finishes previous s consumed.text := by
  replace h := consume_eq_ok_iff.1 h
  induction h with
  | done hsite => exact .stop hsite
  | spent => cases hcomplete
  | @step _ _ _ _ verdict? _ hsite hverdict _ ih =>
    rw [exhausted_behind] at hcomplete
    cases verdict? with
    | some verdict => exact .token hsite hverdict (ih hcomplete)
    | none => exact .mark hsite hverdict (ih hcomplete)

/-! ## Two budgets -/

theorem left_of_exhausted (h : grammar.consume budget previous s = .ok consumed)
    (hexhausted : consumed.exhausted = true) : consumed.left = 0 := by
  replace h := consume_eq_ok_iff.1 h
  induction h with
  | done => cases hexhausted
  | spent => rfl
  | step _ _ _ ih =>
    rw [left_behind]
    exact ih (by rwa [exhausted_behind] at hexhausted)

theorem tokens_of_consumeAll_zero {grammars : List Grammar}
    (h : consumeAll grammars 0 s = .ok consumed) : consumed.tokens = [] := by
  induction grammars generalizing s consumed with
  | nil => cases h; rfl
  | cons grammar grammars ih =>
    obtain ⟨first, others, hfirst, hothers, rfl⟩ := consumeAll_cons_eq_ok_iff.1 h
    have hspent : first.tokens = [] ∧
        first.left = 0 := by cases consume_eq_ok_iff.1 hfirst <;> exact ⟨rfl, rfl⟩
    obtain ⟨htokens, hleft⟩ := hspent
    rw [hleft] at hothers
    simp [htokens, firsts, ih hothers]

/-- What a grammar takes under a larger budget begins with what it takes under a smaller one, and is
the same if the smaller one suffices. -/
theorem consume_of_le (hle : budget ≤ more) (hsmall : grammar.consume budget previous s = .ok small)
    (hlarge : grammar.consume more previous s = .ok large) :
    small.tokens <+: large.tokens ∧
      (small.exhausted = false → large = { small with left := small.left + (more - budget) }) := by
  replace hsmall := consume_eq_ok_iff.1 hsmall
  induction hsmall generalizing more large with
  | done hsite =>
    cases (consume_of_no_mark hsite).symm.trans hlarge
    refine ⟨List.prefix_refl _, fun _ => ?_⟩
    simp only [Consumed.mk.injEq, true_and, and_true]
    omega
  | spent => exact ⟨List.nil_prefix, nofun⟩
  | @step budget _ _ _ verdict? _ hsite hverdict _ ih =>
    obtain ⟨more, rfl⟩ := Nat.exists_eq_add_one_of_ne_zero (n := more) (by omega)
    obtain ⟨verdict?', rest', hverdict', hrest', rfl⟩ := (consume_succ_eq_ok_iff hsite).1 hlarge
    cases hverdict.symm.trans hverdict'
    obtain ⟨htokens, hsame⟩ := ih (Nat.le_of_succ_le_succ hle) hrest'
    constructor
    · cases verdict? with
      | none => exact htokens
      | some verdict => exact (List.prefix_cons_inj _).2 htokens
    · intro hexhausted
      rw [exhausted_behind] at hexhausted
      rw [hsame hexhausted, Nat.add_sub_add_right]
      cases verdict? <;> rfl

theorem firsts_append (seen : List Slot) (entries others : List (Token × Bool)) :
    firsts seen entries <+: firsts seen (entries ++ others) := by
  induction entries generalizing seen with
  | nil => exact List.nil_prefix
  | cons entry entries ih =>
    rw [List.cons_append, firsts, firsts]
    split
    · exact (List.prefix_cons_inj _).2 (ih _)
    · split
      · exact ih _
      · exact (List.prefix_cons_inj _).2 (ih _)

theorem consumeAll_of_le {grammars : List Grammar} (hle : budget ≤ more)
    (hsmall : consumeAll grammars budget s = .ok small)
    (hlarge : consumeAll grammars more s = .ok large) :
    small.tokens <+: large.tokens ∧
      (small.exhausted = false → large = { small with left := small.left + (more - budget) }) := by
  induction grammars generalizing budget more s small large with
  | nil =>
    cases hsmall
    cases hlarge
    refine ⟨List.prefix_refl _, fun _ => ?_⟩
    simp only [Consumed.mk.injEq, true_and, and_true]
    omega
  | cons grammar grammars ih =>
    obtain ⟨first, others, hfirst, hothers, rfl⟩ := consumeAll_cons_eq_ok_iff.1 hsmall
    obtain ⟨first', others', hfirst', hothers', rfl⟩ := consumeAll_cons_eq_ok_iff.1 hlarge
    obtain ⟨⟨behind, hbehind⟩, hsame⟩ := consume_of_le hle hfirst hfirst'
    cases hexhausted : first.exhausted with
    | true =>
      -- nothing is left for the grammars that come later
      rw [left_of_exhausted hfirst hexhausted] at hothers
      refine ⟨?_, by simp⟩
      simp only [tokens_of_consumeAll_zero hothers, List.append_nil, ← hbehind]
      exact ((firsts_append _ _ _).map _).trans (List.prefix_append _ _)
    | false =>
      obtain rfl := hsame hexhausted
      obtain ⟨htokens, hrest⟩ := ih (Nat.le_add_right _ _) hothers hothers'
      refine ⟨(List.prefix_append_right_inj _).2 htokens, fun hnone => ?_⟩
      rw [Bool.false_or] at hnone
      obtain rfl := hrest hnone
      simp [hexhausted]

/-! ## What a line says under two limits -/

theorem prefix_foldl_fileToken {filed tokens : List Token}
    (hfiled : ∀ winner ∈ filed, ∀ token ∈ tokens, token.kind.rank ≤ winner.kind.rank)
    (h : AreRanked tokens) : filed <+: tokens.foldl fileToken filed := by
  induction tokens generalizing filed with
  | nil => exact List.prefix_refl _
  | cons token tokens ih =>
    obtain ⟨htoken, hranked⟩ := List.pairwise_cons.1 h
    have hfile : filed <+: fileToken filed token := by
      unfold fileToken
      cases hfind : filed.find? fun winner => winner.slot == token.slot with
      | none => exact List.prefix_append _ _
      | some winner =>
        have hrank := hfiled winner (List.mem_of_find?_eq_some hfind) token List.mem_cons_self
        simp only
        rw [if_neg (Nat.not_lt.2 hrank)]
    refine hfile.trans (ih (fun winner hwinner other hother => ?_) hranked)
    rcases mem_fileToken hwinner with hwinner | rfl
    · exact hfiled winner hwinner other (List.mem_cons_of_mem _ hother)
    · exact htoken other hother

theorem prefix_winners {tokens others : List Token} (h : AreRanked (tokens ++ others)) :
    winners tokens <+: winners (tokens ++ others) := by
  obtain ⟨-, hothers, hranked⟩ := List.pairwise_append.1 h
  unfold winners
  rw [List.filter_append, List.foldl_append]
  refine prefix_foldl_fileToken (fun winner hwinner token htoken => ?_) (hothers.filter _)
  exact hranked winner (mem_of_mem_winners hwinner).1 token (List.mem_filter.1 htoken).1

theorem lookup_of_prefix {α β : Type} [BEq α] {entries others : List (α × β)}
    (h : entries <+: others) {key : α} {value : β}
    (hlookup : entries.lookup key = some value) : others.lookup key = some value := by
  obtain ⟨more, rfl⟩ := h
  rw [List.lookup_append, hlookup, Option.some_or]

/-- What a line says under a smaller limit is the beginning of what it says under a larger one, and
all of it if no mark was refused. -/
structure Extraction.IsCutOf (small large : Extraction) : Prop where
  tokens : small.tokens <+: large.tokens
  tags : small.tags <+: large.tags
  fields : ∀ field value, small.fields.lookup field = some value →
    large.fields.lookup field = some value
  custom : ∀ key value, small.custom.lookup key = some value → large.custom.lookup key = some value
  complete : small.truncated = false → large = small

variable {settings : Settings} {today : Date} {content : Text}

theorem areRanked_of_extract {extraction : Extraction}
    (h : extract settings today content = .ok extraction) : AreRanked extraction.tokens := by
  obtain ⟨consumed, text, tokens, hconsumed, -, htokens, rfl⟩ := exists_of_extract h
  have hmasked := areRanked_of_consumeAll (areRanked_kinds settings) hconsumed
  have hkinds : (consumed.tokens.map (·.1)).map Token.kind = tokens.map Token.kind :=
    Result.map_eq_map
      (fun masked token (hrestore : masked.restore (protect content).store = .ok token) =>
        (of_restore_eq_ok hrestore).1.symm)
      (Result.mapM_eq_ok.1 htokens)
  rw [AreRanked, ← List.pairwise_map (f := Token.kind)
    (R := fun earlier later => later.rank ≤ earlier.rank)] at hmasked ⊢
  rwa [← hkinds]

/-- A limit only cuts off the end of what a line says, and a line counts as truncated exactly if
some grammar was refused a mark. -/
theorem limit_cuts_end {limit more : Nat} (hle : limit ≤ more) {small large : Extraction}
    (hsmall : extract { settings with metadataLimit := limit } today content = .ok small)
    (hlarge : extract { settings with metadataLimit := more } today content = .ok large) :
    small.IsCutOf large ∧ (small.truncated = true ↔
      RefusesAny (grammars settings today) limit (protect content).text) := by
  have hranked := areRanked_of_extract hlarge
  obtain ⟨consumed, text, tokens, hconsumed, htext, htokens, rfl⟩ := exists_of_extract hsmall
  obtain ⟨consumed', text', tokens', hconsumed', htext', htokens', rfl⟩ := exists_of_extract hlarge
  obtain ⟨hstarts, hsame⟩ := consumeAll_of_le hle hconsumed hconsumed'
  refine ⟨?_, by rw [grammars_eq_map]; exact exhausted_consumeAll_iff hconsumed⟩
  -- the tokens of the smaller run are restored as in the larger one
  have hrestored : tokens <+: tokens' := by
    obtain ⟨others, hothers⟩ := hstarts.map (·.1)
    rw [← hothers, List.mapM_append] at htokens'
    obtain ⟨first, hfirst, htokens'⟩ := Result.bind_eq_ok.1 htokens'
    obtain ⟨rest, -, htokens'⟩ := Result.bind_eq_ok.1 htokens'
    cases htokens.symm.trans hfirst
    cases htokens'
    exact List.prefix_append _ _
  obtain ⟨more, rfl⟩ := hrestored
  have hwinners : winners tokens <+: winners (tokens ++ more) := prefix_winners hranked
  refine ⟨List.prefix_append _ _, ?_, fun field value => lookup_of_prefix (hwinners.filterMap _),
    fun key value => lookup_of_prefix (hwinners.filterMap _), fun hcomplete => ?_⟩
  · simp only [tagValues, List.filter_append, List.map_append, List.eraseDups_append]
    exact List.prefix_append _ _
  · obtain rfl := hsame hcomplete
    obtain rfl := Except.ok.inj (htext.symm.trans htext')
    rw [← Except.ok.inj (htokens.symm.trans htokens')]

/-- Three marks are spent on a date that is none, a date and a level; the tags are met under the
larger limit only. -/
def errand : Text :=
  "Call 🛫 soon 📅 2024-01-15 🔺 #home `#code` #123 #project/tent".toList

theorem limit_cuts_end_errand : ∃ small large, 3 ≤ 5 ∧
    extract { metadataLimit := 3 } ⟨2024, 3, 13, rfl⟩ errand = .ok small ∧
    extract { metadataLimit := 5 } ⟨2024, 3, 13, rfl⟩ errand = .ok large ∧ small.IsCutOf large ∧
      small.truncated = true ∧ large.truncated = false ∧
      RefusesAny (grammars {} ⟨2024, 3, 13, rfl⟩) 3 (protect errand).text := by
  have hsmall : ∃ small, extract { metadataLimit := 3 } ⟨2024, 3, 13, rfl⟩ errand = .ok small ∧
      small.truncated = true :=
    Result.exists_of_map (by decide +kernel)
  have hlarge : ∃ large, extract { metadataLimit := 5 } ⟨2024, 3, 13, rfl⟩ errand = .ok large ∧
      large.truncated = false :=
    Result.exists_of_map (by decide +kernel)
  obtain ⟨small, hsmall, htruncated⟩ := hsmall
  obtain ⟨large, hlarge, hcomplete⟩ := hlarge
  obtain ⟨hcut, hrefused⟩ := @limit_cuts_end {} _ errand 3 5 (by decide) small large hsmall hlarge
  exact ⟨small, large, by decide, hsmall, hlarge, hcut, htruncated, hcomplete, hrefused.1 htruncated⟩

end Checklist.Markup
