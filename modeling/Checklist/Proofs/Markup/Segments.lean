import Checklist.Proofs.Markup.OnLine

/-! # Markup is taken out segment by segment

A grammar leaves a text as it is but for some segments, and one space takes the place of each. Every
segment is complete markup of the grammar's kind: an inline field, a symbol with its value, a tag,
or a context. Main statement: `exists_takenOut_of_consume`. -/

namespace Checklist.Markup
set_option autoImplicit false
open Text

variable {today : Date} {previous : Option Char}

/-! ## Complete markup -/

/-- The text after a symbol that says what its field holds, given the character before this text and
the text after it. -/
inductive IsValue (today : Date) (previous : Option Char) : Field → Text → Text → Prop where
  | level {rest : Text} (hrest : levelWord? rest = none) : IsValue today previous .priority [] rest
  | word {blanks word rest : Text} (hblanks : ∀ c ∈ blanks, isBlank c = true)
      (hword : Priority.isWord word = true)
      (hrest : atBoundary rest = true) : IsValue today previous .priority (blanks ++ word) rest
  | date {kind : DateField} {blanks value rest : Text} {moment : Int}
      (hblanks : ∀ c ∈ blanks, isBlank c = true)
      (hvalue : DateText.resolve today value = .ok (some moment)) (hrest : atBoundary rest = true) :
      IsValue today previous (.date kind) (blanks ++ value) rest
  | phrase {value rest : Text} (hvalue : trim value ≠ [])
      (hinner : ∀ before c after, value = before ++ c :: after →
        marks (lastOr previous before) (c :: after ++ rest) = none)
      (hrest : rest = [] ∨ ∃ n, marks (lastOr previous value) rest = some n) :
        IsValue today previous .recurrence value rest

/-- The text is complete markup of a kind, given the character before it and the text after it. -/
inductive IsMarkup (today : Date) : TokenKind → Option Char → Text → Text → Prop where
  | field {previous : Option Char} {key value rest : Text} (hkey : IsKey key)
      (hvalue : ∀ c ∈ value, isInner c = true)
      (hnamed : trim key ≠ []) (hfilled : trim value ≠ []) :
        IsMarkup today .dataview previous (fieldText key value) rest
  | emoji {previous : Option Char} {symbol selector value rest : Text} {field : Field}
      (hsymbol : defaultSymbols.lookup symbol = some field)
        (hselector : selector = [] ∨ selector = [Priority.variationSelector])
      (hvalue : IsValue today (lastOr previous (symbol ++ selector)) field value rest) :
      IsMarkup today .emoji previous (symbol ++ selector ++ value) rest
  | tag {previous : Option Char} {name rest : Text} (hprevious : previous.any isGlue = false)
      (hbody : ∀ c ∈ name, isTagBody c = true)
      (hname : isTagName name = true) (hrest : ∀ c, rest.head? = some c → isTagBody c = false) :
      IsMarkup today .tag previous ('#' :: name) rest
  | context {previous : Option Char} {name rest : Text} (hprevious : previous.any isGlue = false)
      (hbody : ∀ c ∈ name, isContextBody c = true) (hne : name ≠ [])
        (hrest : ∀ c, rest.head? = some c → isContextBody c = false) :
      IsMarkup today .context previous ('@' :: name) rest

/-- The token was written as complete markup, and what is left of the text goes on
right after it. -/
structure Verdict.IsExact (today : Date) (kind : TokenKind) (previous : Option Char) (site : Site)
    (verdict : Verdict) : Prop where
  token : verdict.token.kind = kind
  text : site.mark ++ site.after = verdict.token.raw ++ verdict.after
  markup : IsMarkup today kind previous verdict.token.raw verdict.after

def Grammar.IsExact (grammar : Grammar) (today : Date) (kind : TokenKind) : Prop :=
  ∀ (previous : Option Char) (site : Site) (verdict : Verdict),
    (∃ n, grammar.length? previous (site.mark ++ site.after) = some n ∧
      site.mark = (site.mark ++ site.after).take n) →
    grammar.judge previous site = .ok (some verdict) → verdict.IsExact today kind previous site

/-! ## The value after a symbol -/

theorem levelWord?_eq_some {s word rest : Text} (h : levelWord? s = some (word, rest)) :
    s = s.takeWhile isBlank ++ word ++ rest ∧ Priority.isWord word = true ∧
      atBoundary rest = true := by
  simp only [levelWord?, Option.ite_none_right_eq_some, Bool.and_eq_true,
    Option.some.injEq, Prod.mk.injEq] at h
  obtain ⟨⟨⟨-, hrest⟩, hword⟩, rfl, rfl⟩ := h
  refine ⟨?_, hword, hrest⟩
  rw [List.append_assoc, List.takeWhile_append_dropWhile]
  exact List.takeWhile_append_dropWhile.symm

theorem take_length_sub (s rest : Text) :
    (s ++ rest).take ((s ++ rest).length - rest.length) = s := by
  rw [List.length_append, Nat.add_sub_cancel, List.take_left]

theorem atBoundary_dropWhile (s : Text) : atBoundary (s.dropWhile (!isBlank ·)) = true := by
  have hhead := List.head?_dropWhile_not (!isBlank ·) s
  rw [atBoundary]
  cases hs : (s.dropWhile (!isBlank ·)).head? with
  | none => rfl
  | some c => simpa [hs] using hhead

theorem dateWord_eq (s : Text) : s = s.takeWhile isBlank ++ (dateWord s).1 ++ (dateWord s).2 ∧
    atBoundary (dateWord s).2 = true := by
  have hsplit : s = s.takeWhile isBlank ++ trimStart s := List.takeWhile_append_dropWhile.symm
  cases hafter : (afterMoment? (trimStart s)).or (afterKeyword? (trimStart s)) with
  | none =>
    simp only [dateWord, hafter]
    refine ⟨?_, atBoundary_dropWhile _⟩
    rwa [List.append_assoc, List.takeWhile_append_dropWhile]
  | some after =>
    simp only [dateWord, hafter]
    have hends : after <:+ trimStart s ∧ atBoundary after = true := by
      rcases Option.or_eq_some_iff.1 hafter with h | ⟨-, h⟩
      · refine ⟨afterMoment?_suffix h, ?_⟩
        simp only [afterMoment?, Option.bind_eq_bind, Option.bind_eq_some_iff,
          Option.ite_none_right_eq_some, Option.some.injEq] at h
        obtain ⟨⟨day, s₁⟩, -, s₂, -, ⟨time, s₃⟩, -, hboundary, rfl⟩ := h
        exact hboundary
      · refine ⟨afterKeyword?_suffix h, ?_⟩
        simp only [afterKeyword?, Option.ite_none_right_eq_some, Option.some.injEq] at h
        rw [← h.2]
        exact atBoundary_dropWhile _
    obtain ⟨⟨value, hvalue⟩, hboundary⟩ := hends
    refine ⟨?_, hboundary⟩
    rw [← hvalue, take_length_sub, List.append_assoc, hvalue]
    exact hsplit

theorem isValue_phrase {s value rest : Text}
    (h : phrase (plainSymbols .standard) previous s = (value, rest)) (hvalue : trim value ≠ []) :
    IsValue today previous .recurrence value rest := by
  unfold phrase at h
  split at h
  · rename_i site hsite
    cases h
    obtain ⟨⟨n, hmark, -⟩, hbefore⟩ := isFirst_of_locate? hsite
    exact .phrase hvalue hbefore (.inr ⟨n, hmark⟩)
  · rename_i hnone
    cases h
    refine .phrase hvalue (fun before c after hsplit => ?_) (.inl rfl)
    rw [List.append_nil]
    exact length?_of_locate?_eq_none (hsplit ▸ hnone)

theorem exists_isValue {field : Field} {symbol after value rest : Text}
    (hfield : (plainSymbols .standard).lookup symbol = some field)
    (h : symbolValue (plainSymbols .standard) field symbol previous after = (value, rest))
    (hne : (value.isEmpty && field != .priority) = false)
    (hdated : isUndated today field value = .ok false) :
    ∃ text, after = text ++ rest ∧ IsValue today previous field text rest := by
  rcases field_of_lookup hfield with rfl | rfl | ⟨kind, rfl⟩
  · cases hword : levelWord? after with
    | none =>
      simp only [symbolValue, hword, Option.getD_none, Prod.mk.injEq] at h
      obtain ⟨-, rfl⟩ := h
      exact ⟨[], rfl, .level hword⟩
    | some found =>
      simp only [symbolValue, hword, Option.getD_some] at h
      subst h
      obtain ⟨hsplit, hisWord, hrest⟩ := levelWord?_eq_some hword
      exact ⟨_, hsplit, .word (forall_mem_takeWhile _ _) hisWord hrest⟩
  · simp only [symbolValue, Prod.mk.injEq] at h
    obtain ⟨rfl, rfl⟩ := h
    refine ⟨_, phrase_eq.symm, isValue_phrase rfl ?_⟩
    simpa using hne
  · obtain ⟨hsplit, hrest⟩ := dateWord_eq after
    obtain ⟨rfl, rfl⟩ := Prod.mk.inj h
    obtain ⟨found, hfound, hsome⟩ := Result.map_eq_ok.1 hdated
    cases found with
    | none => cases hsome
    | some moment => exact ⟨_, hsplit, .date (forall_mem_takeWhile _ _) hfound hrest⟩

/-! ## The tokens of each grammar -/

theorem isExact_dataview (settings : Settings) (today : Date) :
    (dataview settings today).IsExact today .dataview := by
  rintro previous site verdict ⟨n, hlength, hmark⟩ h
  obtain ⟨⟨key, value⟩, hfield, rfl⟩ := Option.map_eq_some_iff.1 hlength
  obtain ⟨hkey, hvalue, hstarts⟩ := inlineField?_eq_some_iff.1 hfield
  have htext : site.mark = fieldText key value := by
    rw [hmark]
    show List.take (key.length + value.length + 4) _ = _
    rw [← length_fieldText, ← List.prefix_iff_eq_take.1 hstarts]
  have hread : inlineField? site.mark = some (key, value) := by
    rw [htext, ← List.append_nil (fieldText key value)]
    exact inlineField?_fieldText hkey hvalue []
  simp only [dataview, hread] at h
  split at h
  · cases h
  · rename_i hempty
    simp only [Bool.or_eq_true, List.isEmpty_iff, not_or] at hempty
    obtain ⟨sense, -, h⟩ := Result.bind_eq_ok.1 h
    cases sense with
    | false => cases h
    | true =>
      cases h
      exact ⟨rfl, rfl, htext ▸ .field hkey hvalue hempty.1 hempty.2⟩

/-- A symbol at the start of a text is one character, perhaps with a variation selector after it. -/
theorem mark_of_symbolLength? {site : Site} {n : Nat}
    (h : symbolLength? (plainSymbols .standard) previous (site.mark ++ site.after) = some n)
    (hmark : site.mark = (site.mark ++ site.after).take n) :
    ∃ c selector, site.mark = [c] ++ selector ∧ c ∈ signs ∧
      (selector = [] ∨ selector = [Priority.variationSelector]) := by
  rw [hmark]
  cases hwhole : site.mark ++ site.after with
  | nil =>
    rw [hwhole, symbolLength?_nil] at h
    cases h
  | cons c rest =>
    rw [hwhole, symbolLength?_cons, Option.ite_none_right_eq_some, Option.some.injEq] at h
    obtain ⟨hsign, rfl⟩ := h
    split
    · rename_i hselector
      obtain ⟨others, rfl⟩ := List.head?_eq_some_iff.1 hselector
      exact ⟨c, _, rfl, hsign, .inr rfl⟩
    · exact ⟨c, _, rfl, hsign, .inl rfl⟩

theorem isExact_emoji {settings : Settings} (hsymbols : settings.symbols = defaultSymbols)
    (today : Date) :
    (emoji settings today).IsExact today .emoji := by
  have hplain : plainSymbols settings = plainSymbols .standard := by
    unfold plainSymbols
    rw [hsymbols]
    rfl
  rintro previous site verdict ⟨n, hlength, hmark⟩ h
  simp only [emoji, hplain] at hlength h
  obtain ⟨c, selector, hsplit, hsign, hselector⟩ := mark_of_symbolLength? hlength hmark
  have hsymbol : symbol? (plainSymbols .standard) site.mark = some [c] := by
    rw [hsplit, List.singleton_append, symbol?_cons, if_pos hsign]
  cases hfield : (plainSymbols .standard).lookup [c] with
  | none => simp [hsymbol, hfield] at h
  | some field =>
    rcases hread : symbolValue (plainSymbols .standard) field [c] (lastOr previous site.mark)
      site.after with ⟨value, behind⟩
    simp only [hsymbol, hfield, hread] at h
    split at h
    · cases h
    · rename_i hne
      obtain ⟨undated, hdated, h⟩ := Result.bind_eq_ok.1 h
      cases undated with
      | true => cases h
      | false =>
        cases h
        obtain ⟨text, hafter, hvalue⟩ :=
          exists_isValue hfield hread (Bool.eq_false_iff.2 hne) hdated
        have htake : site.after.take (site.after.length - behind.length) = text := by
          rw [hafter, take_length_sub]
        refine ⟨rfl, ?_, ?_⟩
        · show site.mark ++ site.after = site.mark ++ site.after.take _ ++ behind
          rw [htake, List.append_assoc, ← hafter]
        · show IsMarkup today .emoji previous (site.mark ++ site.after.take _) behind
          rw [htake, hsplit]
          rw [hsplit] at hvalue
          exact .emoji (plainSymbols_default ▸ hfield) hselector hvalue

theorem mark_of_signed? {sign : Char} {isBody : Char → Bool} {site : Site} {name : Text}
    (h : signed? sign isBody previous (site.mark ++ site.after) = some name)
    (hmark : site.mark = (site.mark ++ site.after).take (name.length + 1)) :
    site.mark = sign :: name ∧ (∀ c ∈ name, isBody c = true) ∧ ∀ c, site.after.head? = some c →
      isBody c = false := by
  obtain ⟨-, -, rest, hwhole, rfl⟩ := signed?_eq_some_iff.1 h
  have hsplit := List.takeWhile_append_dropWhile (p := isBody) (l := rest)
  have htake : site.mark = sign :: rest.takeWhile isBody := by
    rw [hmark, hwhole]
    exact congrArg (sign :: ·) (List.prefix_iff_eq_take.1 (List.takeWhile_prefix _)).symm
  have hafter : site.after = rest.dropWhile isBody := by
    rw [htake, List.cons_append] at hwhole
    exact List.append_cancel_left ((List.cons.inj hwhole).2.trans hsplit.symm)
  refine ⟨htake, forall_mem_takeWhile _ _, fun c hc => ?_⟩
  rw [hafter] at hc
  simpa [hc] using List.head?_dropWhile_not isBody rest

theorem isExact_tags (settings : Settings) (today : Date) : (tags settings).IsExact today .tag := by
  rintro previous site verdict ⟨n, hlength, hmark⟩ h
  obtain ⟨name, hfound, rfl⟩ := Option.map_eq_some_iff.1 hlength
  obtain ⟨htext, hname⟩ := Option.filter_eq_some_iff.1 hfound
  obtain ⟨hraw, hbody, hrest⟩ := mark_of_signed? htext hmark
  simp only [tags] at h
  cases h
  refine ⟨rfl, rfl, ?_⟩
  show IsMarkup today .tag previous site.mark site.after
  rw [hraw]
  exact .tag (signed?_eq_some_iff.1 htext).1 hbody hname hrest

theorem isExact_contexts (today : Date) : contexts.IsExact today .context := by
  rintro previous site verdict ⟨n, hlength, hmark⟩ h
  obtain ⟨name, htext, rfl⟩ := Option.map_eq_some_iff.1 hlength
  obtain ⟨hraw, hbody, hrest⟩ := mark_of_signed? htext hmark
  obtain ⟨hprevious, hne, -⟩ := signed?_eq_some_iff.1 htext
  cases h
  refine ⟨rfl, rfl, ?_⟩
  show IsMarkup today .context previous site.mark site.after
  rw [hraw]
  exact .context hprevious hbody hne hrest

theorem isExact_grammarOf {settings : Settings} (hsymbols : settings.symbols = defaultSymbols)
    (today : Date) (kind : TokenKind) :
    (grammarOf settings today kind).IsExact today kind := by
  cases kind with
  | dataview => exact isExact_dataview settings today
  | emoji => exact isExact_emoji hsymbols today
  | tag => exact isExact_tags settings today
  | context => exact isExact_contexts today

/-! ## What a grammar leaves -/

/-- Segments of a text, from left to right and apart from each other, and the text with one space
in the place of each. Whether a text can be a segment depends on the character before it and the
text after it. -/
inductive TakenOut (isSegment : Option Char → Text → Text → Prop) :
    Option Char → List Text → Text → Text → Prop where
  | nil {previous : Option Char} : TakenOut isSegment previous [] [] []
  | keep {previous : Option Char} {c : Char} {segments : List Text} {s left : Text}
      (h : TakenOut isSegment (some c) segments s left) :
      TakenOut isSegment previous segments (c :: s) (c :: left)
  | take {previous : Option Char} {segment rest left : Text} {segments : List Text}
      (hsegment : isSegment previous segment rest)
      (h : TakenOut isSegment (some ' ') segments rest left) :
        TakenOut isSegment previous (segment :: segments) (segment ++ rest) (' ' :: left)

section TakenOut

variable {isSegment : Option Char → Text → Text → Prop} {segments : List Text} {s left : Text}

theorem TakenOut.refl (previous : Option Char) (s : Text) : TakenOut isSegment previous [] s s := by
  induction s generalizing previous with
  | nil => exact .nil
  | cons c rest ih => exact .keep (ih _)

theorem TakenOut.keep_append {kept : Text}
    (h : TakenOut isSegment (lastOr previous kept) segments s left) :
    TakenOut isSegment previous segments (kept ++ s) (kept ++ left) := by
  induction kept generalizing previous with
  | nil => exact h
  | cons c kept ih =>
    rw [lastOr_cons] at h
    exact .keep (ih h)

theorem TakenOut.first (h : TakenOut isSegment previous segments s left) :
    segments = [] ∧ left = s ∨
    ∃ kept segment rest left' segments', segments = segment :: segments' ∧
      s = kept ++ (segment ++ rest) ∧ left = kept ++ ' ' :: left' ∧
      isSegment (lastOr previous kept) segment rest ∧
        TakenOut isSegment (some ' ') segments' rest left' := by
  induction h with
  | nil => exact .inl ⟨rfl, rfl⟩
  | @keep _ c _ _ _ _ ih =>
    rcases ih with ⟨rfl, rfl⟩ |
      ⟨kept, segment, rest, left', segments', rfl, rfl, rfl, hsegment, hrest⟩
    · exact .inl ⟨rfl, rfl⟩
    · exact .inr ⟨c :: kept, segment, rest, left', segments', rfl, rfl, rfl,
        by rwa [lastOr_cons], hrest⟩
  | @take _ segment rest left segments hsegment hrest _ =>
    exact .inr ⟨[], segment, rest, left, segments, rfl, rfl, rfl, hsegment, hrest⟩

end TakenOut

/-- A grammar takes complete markup of its kind out of a text, and every token that it finds was
written as a segment. -/
theorem exists_takenOut_of_consume {grammar : Grammar} {kind : TokenKind}
    (hgrammar : grammar.IsExact today kind) {budget : Nat} {s : Text}
    {consumed : Consumed} (h : grammar.consume budget previous s = .ok consumed) :
    TakenOut (IsMarkup today kind) previous (consumed.tokens.map (·.1.raw)) s consumed.text ∧
      ∀ entry ∈ consumed.tokens, entry.1.kind = kind := by
  have hconsumes := Grammar.consumes_of_consume h
  clear h
  induction hconsumes with
  | stop => exact ⟨.refl _ _, by simp⟩
  | @token _ _ site verdict rest hsite hverdict _ ih =>
    obtain ⟨hkind, htext, hmarkup⟩ :=
      hgrammar _ site verdict (isFirst_of_locate? hsite).mark hverdict
    obtain ⟨htaken, hkinds⟩ := ih
    refine ⟨?_, List.forall_mem_cons.2 ⟨hkind, hkinds⟩⟩
    rw [locate?_eq_some hsite, List.append_assoc, htext]
    exact .keep_append (.take hmarkup htaken)
  | mark hsite _ _ ih =>
    -- A mark that is no token belongs to what is kept.
    refine ⟨?_, ih.2⟩
    rw [locate?_eq_some hsite]
    exact .keep_append ih.1

end Checklist.Markup
