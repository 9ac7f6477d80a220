import Checklist.Markup.Extraction
import Checklist.Proofs.Markup.Span
import Checklist.Proofs.Markup.Step
import Checklist.Proofs.Value.Suits

/-! # What the reading of a line depends on

A line is read mark by mark, and a mark that is judged may ask what its value means for a field;
afterwards the spans are put back. Main statement: a line is read exactly if every value that is
asked for suits its field and every placeholder in the result has its span (`extract_isOk_iff`). -/

namespace Checklist.Markup
set_option autoImplicit false
open Text

/-! ## Marks that are met -/

/-- Reading the text from left to right comes to a mark, with the character before it. -/
inductive Grammar.Meets (grammar : Grammar) :
    Nat → Option Char → Text → Option Char → Site → Prop where
  | first {budget : Nat} {previous : Option Char} {s : Text} {site : Site}
      (hsite : locate? grammar.length? previous s = some site) :
      Meets grammar (budget + 1) previous s (lastOr previous site.before) site
  | afterToken {budget : Nat} {previous before : Option Char} {s : Text}
      {site mark : Site} {verdict : Verdict}
      (hsite : locate? grammar.length? previous s = some site)
      (hverdict : grammar.judge (lastOr previous site.before) site = .ok (some verdict))
      (hrest : Meets grammar budget (some ' ') verdict.after before mark) :
        Meets grammar (budget + 1) previous s before mark
  | afterMark {budget : Nat} {previous before : Option Char} {s : Text} {site mark : Site}
      (hsite : locate? grammar.length? previous s = some site)
        (hverdict : grammar.judge (lastOr previous site.before) site = .ok none)
      (hrest : Meets grammar budget (lastOr previous (site.before ++ site.mark))
        site.after before mark) :
      Meets grammar (budget + 1) previous s before mark

section
variable {grammar : Grammar} {budget : Nat} {previous before : Option Char}
  {s : Text} {site mark : Site}

theorem Grammar.not_meets_of_locate? (hsite : locate? grammar.length? previous s = none) :
    ¬grammar.Meets budget previous s before mark := by
  rintro (hfound | ⟨hfound, -, -⟩ | ⟨hfound, -, -⟩) <;> rw [hsite] at hfound <;> cases hfound

theorem Grammar.meets_succ_iff {verdict? : Option Verdict}
    (hsite : locate? grammar.length? previous s = some site)
    (hverdict : grammar.judge (lastOr previous site.before) site = .ok verdict?) :
    grammar.Meets (budget + 1) previous s before mark ↔
      (before = lastOr previous site.before ∧ mark = site) ∨
      grammar.Meets budget (goOn previous site verdict?).1
        (goOn previous site verdict?).2 before mark := by
  constructor
  · intro h
    cases h with
    | first hfound =>
      obtain rfl := Option.some.inj (hsite.symm.trans hfound)
      exact .inl ⟨rfl, rfl⟩
    | afterToken hfound hjudged hrest | afterMark hfound hjudged hrest =>
      obtain rfl := Option.some.inj (hsite.symm.trans hfound)
      obtain rfl := Except.ok.inj (hverdict.symm.trans hjudged)
      exact .inr hrest
  · rintro (⟨rfl, rfl⟩ | hrest)
    · exact .first hsite
    · cases verdict? with
      | some verdict => exact .afterToken hsite hverdict hrest
      | none => exact .afterMark hsite hverdict hrest

theorem Grammar.consume_isOk_iff : (∃ consumed, grammar.consume budget previous s = .ok consumed) ↔
    ∀ before mark, grammar.Meets budget previous s before mark → ∃ verdict?,
      grammar.judge before mark = .ok verdict? := by
  induction budget generalizing previous s with
  | zero =>
    refine iff_of_true ?_ fun before mark hmeets => nomatch hmeets
    cases hsite : locate? grammar.length? previous s with
    | none => exact ⟨_, consume_of_no_mark hsite⟩
    | some site => exact ⟨_, consume_zero_of_mark hsite⟩
  | succ budget ih => cases hsite : locate? grammar.length? previous s with
    | none =>
      exact iff_of_true ⟨_, consume_of_no_mark hsite⟩ fun before mark hmeets =>
        absurd hmeets (not_meets_of_locate? hsite)
    | some site =>
      constructor
      · rintro ⟨consumed, hconsumed⟩ before mark hmeets
        obtain ⟨verdict?, rest, hverdict, hrest, -⟩ := (consume_succ_eq_ok_iff hsite).1 hconsumed
        rcases (meets_succ_iff hsite hverdict).1 hmeets with ⟨rfl, rfl⟩ | hmeets
        · exact ⟨verdict?, hverdict⟩
        · exact ih.1 ⟨rest, hrest⟩ before mark hmeets
      · intro h
        obtain ⟨verdict?, hverdict⟩ := h _ site (.first hsite)
        obtain ⟨rest, hrest⟩ := ih.2 fun before mark hmeets =>
          h before mark ((meets_succ_iff hsite hverdict).2 (.inr hmeets))
        exact ⟨_, (consume_succ_eq_ok_iff hsite).2 ⟨verdict?, rest, hverdict, hrest, rfl⟩⟩

end

def grammarOf (settings : Settings) (today : Date) : TokenKind → Grammar
  | .dataview => dataview settings today
  | .emoji => emoji settings today
  | .tag => tags settings
  | .context => contexts

/-- The kinds of the grammars that the settings allow, in the order in which they read. -/
def kinds (settings : Settings) : List TokenKind :=
  (if settings.readsMetadata && settings.grammars.allowsDataview then [.dataview] else [])
    ++ (if settings.readsMetadata && settings.grammars.allowsEmoji then [.emoji] else [])
    ++ (if settings.readsTags then [.tag, .context] else [])

theorem grammars_eq_map (settings : Settings) (today : Date) :
    grammars settings today = (kinds settings).map (grammarOf settings today) := by
  unfold grammars kinds
  rw [List.map_append, List.map_append]
  congr 1
  · congr 1
    · split <;> rfl
    · split <;> rfl
  · split <;> rfl

/-- Reading the text with one grammar after the other comes to a mark of a kind. -/
inductive Meets (settings : Settings) (today : Date) : List TokenKind → Nat → Text → TokenKind →
    Option Char → Site → Prop where
  | now {kind : TokenKind} {kinds : List TokenKind} {budget : Nat} {s : Text}
      {before : Option Char} {mark : Site}
      (hmeets : (grammarOf settings today kind).Meets budget none s before mark) :
      Meets settings today (kind :: kinds) budget s kind before mark
  | later {earlier kind : TokenKind} {kinds : List TokenKind} {budget : Nat} {s : Text}
      {consumed : Consumed} {before : Option Char} {mark : Site}
      (hconsumed : (grammarOf settings today earlier).consume budget none s = .ok consumed)
      (hmeets : Meets settings today kinds consumed.left consumed.text kind before mark) :
      Meets settings today (earlier :: kinds) budget s kind before mark

theorem consumeAll_isOk_iff {settings : Settings} {today : Date} {kinds : List TokenKind}
    {budget : Nat} {s : Text} :
    (∃ consumed, consumeAll (kinds.map (grammarOf settings today)) budget s = .ok consumed) ↔
      ∀ kind before mark, Meets settings today kinds budget s kind before mark →
        ∃ verdict, (grammarOf settings today kind).judge before mark = .ok verdict := by
  induction kinds generalizing budget s with
  | nil => exact iff_of_true ⟨_, rfl⟩ fun kind before mark hmeets => nomatch hmeets
  | cons first rest ih =>
    rw [List.map_cons, consumeAll, Result.bind_isOk_iff]
    constructor
    · rintro ⟨consumed, hconsumed, hrest⟩ kind before mark hmeets
      rw [Result.bind_isOk_iff] at hrest
      obtain ⟨others, hothers, -⟩ := hrest
      cases hmeets with
      | now hmeets => exact Grammar.consume_isOk_iff.1 ⟨consumed, hconsumed⟩ before mark hmeets
      | later hconsumed' hmeets =>
        obtain rfl := Except.ok.inj (hconsumed.symm.trans hconsumed')
        exact ih.1 ⟨others, hothers⟩ kind before mark hmeets
    · intro h
      obtain ⟨consumed, hconsumed⟩ := Grammar.consume_isOk_iff.2 fun before mark hmeets =>
        h first before mark (.now hmeets)
      obtain ⟨others, hothers⟩ := ih.2 fun kind before mark hmeets =>
        h kind before mark (.later hconsumed hmeets)
      exact ⟨consumed, hconsumed, Result.bind_isOk_iff.2 ⟨others, hothers, _, rfl⟩⟩

/-! ## Values that are asked for -/

/-- An inline field for the field counts only with a value that means something. -/
def isTried : Field → Bool
  | .date _ | .priority => true
  | _ => false

/-- The value of a mark that is asked what it means for a field, before the mark counts
as a token. -/
def asked (settings : Settings) (kind : TokenKind) (before : Option Char) (mark : Site) :
    Option (Field × Text) :=
  match kind with
  | .dataview => match inlineField? mark.mark with
    | some (key, value) => match inlineSlot settings (trim key) with
      | .field field => if !(trim key).isEmpty && !(trim value).isEmpty && isTried field then
          some (field, trim value) else none
      | .custom _ => none
    | none => none
  | .emoji => match (symbol? (plainSymbols settings) mark.mark).bind fun symbol =>
        ((plainSymbols settings).lookup symbol).map fun field => (symbol, field) with
    | some (symbol, .date kind) =>
      let value :=
        (symbolValue (plainSymbols settings) (.date kind) symbol
          (lastOr before mark.mark) mark.after).1
      if value.isEmpty then none else some (.date kind, value)
    | _ => none
  | .tag | .context => none

theorem makesSense_isOk_iff {today : Date} {slot : Slot} {value : Text} :
    (∃ sense, makesSense today slot value = .ok sense) ↔
      ∀ field, slot = .field field → isTried field = true →
        (Value.str value).Suits today field := by
  have hwritable : (Value.str value).isWritable = true := rfl
  have hother : ∀ {slot : Slot}, (∀ field, slot = .field field → isTried field = false) →
      makesSense today slot value = .ok true →
      ((∃ sense, makesSense today slot value = .ok sense) ↔
        ∀ field, slot = .field field → isTried field = true →
        (Value.str value).Suits today field) := by
    intro slot hslot hok
    refine iff_of_true ⟨true, hok⟩ fun field hfield htried => ?_
    rw [hslot field hfield] at htried
    cases htried
  cases slot with
  | custom key => exact hother (by simp) rfl
  | field field =>
    cases field with
    | date kind =>
      refine (Result.map_isOk_iff.trans DateText.resolve_isOk_iff).trans ?_
      simp [isTried, Value.Suits, hwritable, Value.display]
    | priority =>
      refine (Result.map_isOk_iff.trans Priority.resolve_isOk_iff).trans ?_
      simp [isTried, Value.Suits, hwritable, Value.display]
    | project => exact hother (by simp [isTried]) rfl
    | context => exact hother (by simp [isTried]) rfl
    | area => exact hother (by simp [isTried]) rfl
    | recurrence => exact hother (by simp [isTried]) rfl
    | tags => exact hother (by simp [isTried]) rfl

theorem judge_dataview_isOk_iff {settings : Settings} {today : Date}
    {before : Option Char} {mark : Site} :
    (∃ verdict, (dataview settings today).judge before mark = .ok verdict) ↔
      ∀ field value, asked settings .dataview before mark = some (field, value) →
        (Value.str value).Suits today field := by
  simp only [dataview, asked]
  cases hfield : inlineField? mark.mark with
  | none => simp
  | some pair =>
    obtain ⟨key, value⟩ := pair
    simp only
    by_cases hempty : ((trim key).isEmpty || (trim value).isEmpty) = true
    · have hnone : (!(trim key).isEmpty && !(trim value).isEmpty) = false := by
        rw [← Bool.not_or, hempty]
        rfl
      rw [if_pos hempty]
      refine iff_of_true ⟨_, rfl⟩ fun field text hasked => ?_
      cases hslot : inlineSlot settings (trim key) <;> simp [hslot, hnone] at hasked
    · have hboth : (!(trim key).isEmpty && !(trim value).isEmpty) = true := by
        rw [← Bool.not_or]
        simpa using hempty
      have hsense := @makesSense_isOk_iff today (inlineSlot settings (trim key)) (trim value)
      rw [if_neg hempty, Result.bind_isOk_iff]
      have hreturn : ∀ sense : Bool, ∃ verdict, (if sense = true then pure (some
          (⟨⟨.dataview, inlineSlot settings (trim key), trim value, mark.mark⟩, false, mark.after⟩ :
          Verdict))
          else pure none : Except Failure (Option Verdict)) = .ok verdict := by
        intro sense
        cases sense <;> exact ⟨_, rfl⟩
      refine (exists_congr fun sense => and_iff_left (hreturn sense)).trans (hsense.trans ?_)
      cases hslot : inlineSlot settings (trim key) with
      | custom key => simp
      | field field =>
        cases htried : isTried field <;> simp [hboth, htried]

theorem isUndated_isOk_iff {today : Date} {field : Field} {value : Text} :
    (∃ undated, isUndated today field value = .ok undated) ↔ ∀ kind, field = .date kind →
      (Value.str value).Suits today field := by
  have hwritable : (Value.str value).isWritable = true := rfl
  cases field with
  | date kind =>
    refine (Result.map_isOk_iff.trans DateText.resolve_isOk_iff).trans ?_
    simp [Value.Suits, hwritable, Value.display]
  | _ => exact iff_of_true ⟨false, rfl⟩ fun kind h => nomatch h

theorem judge_emoji_isOk_iff {settings : Settings} {today : Date}
    {before : Option Char} {mark : Site} :
    (∃ verdict, (emoji settings today).judge before mark = .ok verdict) ↔
      ∀ field value, asked settings .emoji before mark = some (field, value) →
        (Value.str value).Suits today field := by
  simp only [emoji, asked]
  cases hsymbol : symbol? (plainSymbols settings) mark.mark with
  | none => simp
  | some symbol =>
    cases hfield : (plainSymbols settings).lookup symbol with
    | none => simp [hfield]
    | some field =>
      simp only [hfield, Option.bind_some, Option.map_some]
      generalize hvalue : symbolValue (plainSymbols settings) field symbol
        (lastOr before mark.mark) mark.after = found
      obtain ⟨value, after⟩ := found
      have hundated := @isUndated_isOk_iff today field value
      by_cases hempty : (value.isEmpty && field != .priority) = true
      · obtain ⟨hblank, hfield⟩ := Bool.and_eq_true_iff.1 hempty
        simp only [hempty, if_true]
        refine iff_of_true ⟨_, rfl⟩ fun other text hasked => ?_
        cases field <;> simp_all
      · simp only [hempty]
        rw [if_neg (by simp), Result.bind_isOk_iff]
        refine (exists_congr fun undated => and_iff_left ?_).trans (hundated.trans ?_)
        · cases undated <;> exact ⟨_, rfl⟩
        · cases field with
          | date kind =>
            have hsome : value.isEmpty = false := by simpa using hempty
            simp [hvalue, hsome]
          | _ => simp

theorem judge_isOk_iff {settings : Settings} {today : Date} {kind : TokenKind}
    {before : Option Char} {mark : Site} :
    (∃ verdict, (grammarOf settings today kind).judge before mark = .ok verdict) ↔
      ∀ field value, asked settings kind before mark = some (field, value) →
        (Value.str value).Suits today field := by
  cases kind with
  | dataview => exact judge_dataview_isOk_iff
  | emoji => exact judge_emoji_isOk_iff
  | tag => exact iff_of_true ⟨_, rfl⟩ fun field value hasked => nomatch hasked
  | context => exact iff_of_true ⟨_, rfl⟩ fun field value hasked => nomatch hasked

/-! ## Lines -/

/-- The content of a line can be read: every value that a mark asks for suits its field, and in what
is left and in the tokens every placeholder has its span. -/
structure IsReadable (settings : Settings) (today : Date) (content : Text) : Prop where
  asked : ∀ kind before mark field value,
    Meets settings today (kinds settings) settings.metadataLimit
      (protect content).text kind before mark →
      asked settings kind before mark = some (field, value) → (Value.str value).Suits today field
  text : ∀ consumed, consumeAll (grammars settings today) settings.metadataLimit
    (protect content).text = .ok consumed →
    IsRestorable (protect content).store (squeeze consumed.text)
  tokens : ∀ consumed, consumeAll (grammars settings today) settings.metadataLimit
    (protect content).text = .ok consumed →
    ∀ token ∈ consumed.tokens.map (·.1),
      IsRestorable (protect content).store token.value ∧
        IsRestorable (protect content).store token.raw

theorem restore_token_isOk_iff {store : List Text} {token : Token} :
    (∃ restored, token.restore store = .ok restored) ↔ IsRestorable store token.value ∧
      IsRestorable store token.raw := by
  rw [← restore_isOk_iff, ← restore_isOk_iff, Token.restore, Result.bind_isOk_iff]
  constructor
  · rintro ⟨value, hvalue, hraw⟩
    rw [Result.bind_isOk_iff] at hraw
    obtain ⟨raw, hraw, -⟩ := hraw
    exact ⟨⟨value, hvalue⟩, ⟨raw, hraw⟩⟩
  · rintro ⟨⟨value, hvalue⟩, ⟨raw, hraw⟩⟩
    exact ⟨value, hvalue, Result.bind_isOk_iff.2 ⟨raw, hraw, _, rfl⟩⟩

theorem extract_isOk_iff {settings : Settings} {today : Date} {content : Text} :
    (∃ extraction, extract settings today content = .ok extraction) ↔
      IsReadable settings today content := by
  have hjudged :
      (∃ consumed,
        consumeAll (grammars settings today) settings.metadataLimit (protect content).text =
          .ok consumed) ↔
      ∀ kind before mark field value,
        Meets settings today (kinds settings) settings.metadataLimit
          (protect content).text kind before mark →
          Markup.asked settings kind before mark = some (field, value) →
              (Value.str value).Suits today field := by
    rw [grammars_eq_map, consumeAll_isOk_iff]
    constructor
    · intro h kind before mark field value hmeets hasked
      exact judge_isOk_iff.1 (h kind before mark hmeets) field value hasked
    · intro h kind before mark hmeets
      exact judge_isOk_iff.2 fun field value hasked => h kind before mark field value hmeets hasked
  rw [extract, Result.bind_isOk_iff]
  constructor
  · rintro ⟨consumed, hconsumed, hrest⟩
    rw [Result.bind_isOk_iff] at hrest
    obtain ⟨text, htext, hrest⟩ := hrest
    rw [Result.bind_isOk_iff] at hrest
    obtain ⟨tokens, htokens, -⟩ := hrest
    refine ⟨hjudged.1 ⟨consumed, hconsumed⟩, fun consumed' hconsumed' => ?_,
      fun consumed' hconsumed' token htoken => ?_⟩
    · obtain rfl := Except.ok.inj (hconsumed.symm.trans hconsumed')
      exact restore_isOk_iff.1 ⟨text, htext⟩
    · obtain rfl := Except.ok.inj (hconsumed.symm.trans hconsumed')
      exact restore_token_isOk_iff.1 (Result.mapM_isOk_iff.1 ⟨tokens, htokens⟩ token htoken)
  · intro h
    obtain ⟨consumed, hconsumed⟩ := hjudged.2 h.asked
    obtain ⟨text, htext⟩ := restore_isOk_iff.2 (h.text consumed hconsumed)
    obtain ⟨tokens, htokens⟩ := Result.mapM_isOk_iff.2 fun token htoken =>
      restore_token_isOk_iff.2 (h.tokens consumed hconsumed token htoken)
    refine ⟨consumed, hconsumed, Result.bind_isOk_iff.2 ⟨text, htext, ?_⟩⟩
    exact Result.bind_isOk_iff.2 ⟨tokens, htokens, _, rfl⟩

end Checklist.Markup
