import Checklist.Proofs.Calendar.DateText
import Checklist.Proofs.Markup.Flat
import Checklist.Proofs.Markup.Foremost
import Checklist.Proofs.Markup.Segments
import Checklist.Proofs.Markup.Verdicts
import Checklist.Proofs.Table

/-! # Which symbols are recognised

Settings may have any text for a symbol. Symbols are looked up without their variation selectors,
while the line is read as it stands. Main statement: a symbol for a date and a date after it are
read as that date exactly if the symbol has no selector except perhaps one at its end, whatever
other symbols it begins with or is the beginning of (`extract_symbol_iff`). -/

namespace Checklist.Markup
set_option autoImplicit false
open Text

/-! ## The longest symbol -/

/-- The symbol stands at the start of the text, and none that stands there is longer. -/
structure IsLongest (symbols : List Text) (s symbol : Text) : Prop where
  mem : symbol ∈ symbols
  starts : symbol <+: s
  length_le : ∀ other ∈ symbols, other <+: s → other.length ≤ symbol.length

theorem foldl_longerSymbol (symbols : List Text) (s : Text) :
    match symbols.foldl (longerSymbol s) none with
    | some symbol => IsLongest symbols s symbol
    | none => ∀ other ∈ symbols, ¬other <+: s := by
  induction symbols using List.reverseRecOn with
  | nil => exact nofun
  | append_singleton symbols last ih =>
    rw [List.foldl_append, List.foldl_cons, List.foldl_nil, longerSymbol]
    cases hbest : symbols.foldl (longerSymbol s) none with
    | none =>
      simp only [hbest] at ih
      by_cases hlast : last <+: s
      · have hstarts : last.isPrefixOf s = true := List.isPrefixOf_iff_prefix.2 hlast
        rw [hstarts, Option.all_none, Bool.and_self, if_pos rfl]
        refine ⟨List.mem_append_right _ (List.mem_singleton_self _), hlast,
          fun other hother hstarts => ?_⟩
        rcases List.mem_append.1 hother with hother | hother
        · exact absurd hstarts (ih other hother)
        · rw [List.mem_singleton.1 hother]
      · have hstarts : last.isPrefixOf s = false :=
          Bool.eq_false_iff.2 (mt List.isPrefixOf_iff_prefix.1 hlast)
        rw [hstarts, Bool.false_and, if_neg Bool.false_ne_true]
        intro other hother
        rcases List.mem_append.1 hother with hother | hother
        · exact ih other hother
        · rwa [List.mem_singleton.1 hother]
    | some best =>
      simp only [hbest] at ih
      rw [Option.all_some]
      by_cases hlonger : (last.isPrefixOf s && decide (best.length < last.length)) = true
      · rw [if_pos hlonger]
        rw [Bool.and_eq_true, decide_eq_true_eq] at hlonger
        refine ⟨List.mem_append_right _ (List.mem_singleton_self _),
          List.isPrefixOf_iff_prefix.1 hlonger.1, fun other hother hstarts => ?_⟩
        rcases List.mem_append.1 hother with hother | hother
        · exact (ih.length_le other hother hstarts).trans hlonger.2.le
        · rw [List.mem_singleton.1 hother]
      · rw [if_neg hlonger]
        refine ⟨List.mem_append_left _ ih.mem, ih.starts, fun other hother hstarts => ?_⟩
        rcases List.mem_append.1 hother with hother | hother
        · exact ih.length_le other hother hstarts
        · rw [List.mem_singleton.1 hother] at hstarts ⊢
          rw [List.isPrefixOf_iff_prefix.2 hstarts, Bool.true_and, decide_eq_true_eq] at hlonger
          exact Nat.not_lt.1 hlonger

theorem symbol?_eq_some_iff {symbols : Table Field} {s symbol : Text} :
    symbol? symbols s = some symbol ↔ IsLongest (Table.keys symbols) s symbol := by
  have hfold := foldl_longerSymbol (Table.keys symbols) s
  have hfound : symbol? symbols s = (Table.keys symbols).foldl (longerSymbol s) none := rfl
  rw [hfound]
  cases hbest : (Table.keys symbols).foldl (longerSymbol s) none with
  | none =>
    simp only [hbest] at hfold
    exact iff_of_false nofun fun hlongest => hfold symbol hlongest.mem hlongest.starts
  | some best =>
    simp only [hbest] at hfold
    refine ⟨fun heq => Option.some.inj heq ▸ hfold, fun hlongest => congrArg some ?_⟩
    -- of two texts at the same place the longer one begins with the other
    have hlength : best.length = symbol.length :=
      Nat.le_antisymm (hlongest.length_le best hfold.mem hfold.starts)
        (hfold.length_le symbol hlongest.mem hlongest.starts)
    exact (List.prefix_of_prefix_length_le hfold.starts hlongest.starts hlength.le).eq_of_length hlength

/-! ## Symbols with selectors -/

def otherSigns : List Char :=
  ['[', ']', '\x60', '#', '@']

/-- Every symbol can be told from what stands around it and from the others: it holds no blank and
no sign of other markup, and without selectors something is left of it, and nothing that is left of
another one. -/
structure HasClearSymbols (settings : Settings) : Prop where
  clear : ∀ entry ∈ settings.symbols, ∀ c ∈ entry.1, isBlank c = false ∧ c ∉ otherSigns
  nonempty : ∀ entry ∈ settings.symbols, Priority.plain entry.1 ≠ []
  distinct : (settings.symbols.map fun entry => Priority.plain entry.1).Nodup

/-- The symbol has no selector except perhaps one at its end. -/
def IsPlainWithin (symbol : Text) : Prop :=
  symbol = Priority.plain symbol ∨ symbol = Priority.plain symbol ++ [Priority.variationSelector]

variable {settings : Settings} {today : Date} {symbol rest : Text} {field : Field}

theorem keys_plainSymbols (h : (settings.symbols.map fun entry => Priority.plain entry.1).Nodup) :
    Table.keys (plainSymbols settings) = settings.symbols.map fun entry =>
      Priority.plain entry.1 := by
  have hkeys : Table.keys (settings.symbols.map fun entry => (Priority.plain entry.1, entry.2)) =
      settings.symbols.map fun entry => Priority.plain entry.1 := List.map_map
  rw [← hkeys] at h ⊢
  exact congrArg Table.keys (Table.ofList_of_nodup h)

theorem lookup_plainSymbols (h : (settings.symbols.map fun entry => Priority.plain entry.1).Nodup)
    (hsymbol : (symbol, field) ∈ settings.symbols) :
    (plainSymbols settings).lookup (Priority.plain symbol) = some field := by
  refine Table.lookup_of_mem (keys_plainSymbols h ▸ h) ?_
  have hkeys : Table.keys (settings.symbols.map fun entry => (Priority.plain entry.1, entry.2)) =
      settings.symbols.map fun entry => Priority.plain entry.1 := List.map_map
  rw [show plainSymbols settings = settings.symbols.map fun entry =>
    (Priority.plain entry.1, entry.2) from Table.ofList_of_nodup (hkeys ▸ h)]
  exact List.mem_map.2 ⟨_, hsymbol, rfl⟩

theorem variationSelector_notMem_plain (s : Text) :
    Priority.variationSelector ∉ Priority.plain s := by
  simp [Priority.plain]

theorem plain_plain (s : Text) : Priority.plain (Priority.plain s) = Priority.plain s := by
  simp [Priority.plain]

theorem plain_concat (s : Text) :
    Priority.plain (Priority.plain s ++ [Priority.variationSelector]) = Priority.plain s := by
  simp [Priority.plain]

theorem symbol?_of_isPlainWithin (hclear : HasClearSymbols settings)
    (hsymbol : (symbol, field) ∈ settings.symbols) (hplain : IsPlainWithin symbol)
    (hrest : IsBreak rest) : symbol? (plainSymbols settings) (symbol ++ rest) =
      some (Priority.plain symbol) := by
  have hkeys := keys_plainSymbols hclear.distinct
  have hstarts : Priority.plain symbol <+: symbol := by
    rcases hplain with heq | heq
    · exact heq ▸ List.prefix_rfl
    · exact ⟨[Priority.variationSelector], heq.symm⟩
  rw [symbol?_eq_some_iff, hkeys]
  refine ⟨List.mem_map.2 ⟨_, hsymbol, rfl⟩, hstarts.trans (List.prefix_append _ _),
    fun other hother hprefix => ?_⟩
  obtain ⟨⟨whole, otherField⟩, hwhole, rfl⟩ := List.mem_map.1 hother
  have hblank : ' ' ∉ Priority.plain whole := fun hmem => by
    have hnone := (hclear.clear _ hwhole ' ' (List.mem_of_mem_filter hmem)).1
    exact absurd hnone (by decide)
  -- a symbol that goes on behind this one would hold the space
  have hwithin : Priority.plain whole <+: symbol := by
    obtain ⟨behind, hbehind⟩ := hprefix
    rcases List.append_eq_append_iff.1 hbehind with ⟨more, hmore, -⟩ | ⟨beyond, hbeyond, hbreak⟩
    · exact ⟨more, hmore.symm⟩
    · cases beyond with
      | nil =>
        rw [hbeyond, List.append_nil]
      | cons c beyond =>
        obtain rfl : c = ' ' := hrest c (by rw [hbreak]; rfl)
        exact absurd (by rw [hbeyond]; simp) hblank
  rcases hplain with heq | heq
  · rw [← heq]
    exact hwithin.length_le
  · rw [heq, List.prefix_concat_iff] at hwithin
    rcases hwithin with hselector | hwithin
    · exact absurd (by rw [hselector]; simp) (variationSelector_notMem_plain whole)
    · exact hwithin.length_le

theorem symbolLength?_of_isPlainWithin (hclear : HasClearSymbols settings)
    (hsymbol : (symbol, field) ∈ settings.symbols) (hplain : IsPlainWithin symbol)
    (hrest : IsBreak rest) (previous : Option Char) :
    symbolLength? (plainSymbols settings) previous (symbol ++ rest) = some symbol.length := by
  rw [symbolLength?, symbol?_of_isPlainWithin hclear hsymbol hplain hrest, Option.map_some]
  have hhead : ¬(rest.head? == some Priority.variationSelector) = true := fun hselector =>
    absurd (hrest _ (beq_iff_eq.1 hselector)) (by decide)
  rcases hplain with heq | heq
  · rw [← heq, List.drop_left, if_neg hhead, Nat.add_zero]
  · have hsplit : symbol ++ rest = Priority.plain symbol ++ Priority.variationSelector ::
        rest := by rw [List.append_cons, ← heq]
    have hlength := congrArg List.length heq
    rw [List.length_append, List.length_singleton] at hlength
    rw [hsplit, List.drop_left, if_pos (by rfl), ← hlength]

/-! ## A date behind a symbol -/

variable {date : Date}

theorem resolve_text (hfirst : date.number ≠ 0) :
    ∃ timestamp, DateText.resolve today date.text = .ok (some timestamp) := by
  have hresolve := @DateText.resolve_timestampText today (Moment.ofDate date) rfl hfirst
  exact ⟨_, by simpa [DateText.clockText, Moment.ofDate] using hresolve⟩

theorem isBlank_of_mem_text {c : Char} (hc : c ∈ date.text) : isBlank c = false := by
  rcases DateText.forall_char_day 4 date c hc with hdigit | rfl
  · exact isBlank_of_isDigit hdigit
  · decide

theorem dateWord_text (date : Date) : dateWord (' ' :: date.text) = (date.text, []) := by
  have hsolid : ∀ c ∈ date.text, (!isBlank c) = true :=
    fun c hc => by rw [isBlank_of_mem_text hc]; rfl
  have hstart : trimStart (' ' :: date.text) = date.text := by
    rw [trimStart, List.dropWhile_cons_of_pos (by decide)]
    refine trimStart_eq_self fun c hc => ?_
    exact isBlank_of_mem_text (List.mem_of_mem_head? hc)
  have hmoment : afterMoment? date.text = none := by
    have hscan := @DateText.scan?_text date []
    rw [List.append_nil] at hscan
    rw [afterMoment?, hscan]
    rfl
  have hkeyword : afterKeyword? date.text = none := by
    have hsecond : ["week".toList, "month".toList].contains (lower []) = false := by decide
    rw [afterKeyword?, List.dropWhile_eq_nil_iff.2 hsolid]
    exact if_neg (by simpa [trimStart] using fun _ => hsecond)
  rw [dateWord, hstart]
  simp only [hmoment, hkeyword, Option.none_or]
  rw [List.takeWhile_eq_self_iff.2 hsolid, List.dropWhile_eq_nil_iff.2 hsolid]

/-! ## The whole line -/

theorem locate?_of_forall {length? : MarkLength} {s : Text} {previous : Option Char}
    (hnil : ∀ previous, length? previous [] = none)
    (h : ∀ c ∈ s, ∀ previous rest, length? previous (c :: rest) = none) :
    locate? length? previous s = none := by
  induction s generalizing previous with
  | nil => rw [locate?, hnil]
  | cons c rest ih =>
    rw [locate?, h c List.mem_cons_self]
    simp only
    rw [ih fun d hd => h d (List.mem_cons_of_mem _ hd), Option.map_none]

theorem judge_emoji_date {kind : DateField} (hclear : HasClearSymbols settings)
    (hsymbol : (symbol, .date kind) ∈ settings.symbols)
    (hplain : IsPlainWithin symbol) (hfirst : date.number ≠ 0) (previous : Option Char) :
    (emoji settings today).judge previous ⟨[], symbol, ' ' :: date.text⟩ =
      .ok (some ⟨⟨.emoji, .field (.date kind), date.text, symbol ++ ' ' :: date.text⟩, false, []⟩) := by
  have hfound : symbol? (plainSymbols settings) symbol = some (Priority.plain symbol) := by
    have hend := @symbol?_of_isPlainWithin settings symbol [] _ hclear hsymbol hplain nofun
    rwa [List.append_nil] at hend
  have hne : date.text ≠ [] := by simp [Date.text, Date.textWith, padNat, ofNat_ne_nil]
  obtain ⟨timestamp, hresolve⟩ := @resolve_text today date hfirst
  simp only [emoji, hfound, lookup_plainSymbols hclear.distinct hsymbol, symbolValue, dateWord_text]
  rw [if_neg (by simp [hne]), isUndated, hresolve]
  simp [Except.map, bind, Except.bind, pure, Except.pure]

theorem consumeAll_skip {first rest : List Grammar} {budget : Nat} {s : Text}
    (h : ∀ grammar ∈ first, locate? grammar.length? none s = none) :
    consumeAll (first ++ rest) budget s = consumeAll rest budget s := by
  induction first with
  | nil => rfl
  | cons grammar first ih =>
    obtain ⟨hgrammar, hfirst⟩ := List.forall_mem_cons.1 h
    rw [List.cons_append, consumeAll, consume_of_no_mark hgrammar]
    show (consumeAll (first ++ rest) budget s >>= fun others => _) = _
    rw [ih hfirst]
    cases consumeAll rest budget s with
    | error failure => rfl
    | ok others => rfl

theorem protect_of_isFlat {s : Text} (h : IsFlat s) : protect s = ⟨s, []⟩ := by
  rw [protect, pieces_of_isFlat h, mask_plain, spans_plain]

theorem isFlat_of_otherSigns {s : Text} (h : ∀ c ∈ s, c ∉ otherSigns) : IsFlat s :=
  isFlat_of_forall fun c hc => by
    have hnot := h c hc
    simp only [otherSigns, List.mem_cons, not_or] at hnot
    exact ⟨by simp [isInner, hnot.1, hnot.2.1], hnot.2.2.1⟩

def singleExtraction (token : Token) : Extraction :=
  ⟨[], fieldValues (winners [token]), customValues (winners [token]), tagValues [token], [token], false⟩

/-- A text that is nothing but a mark of one grammar gives its token, and a space is left. -/
theorem consume_of_single {grammar : Grammar} {budget n : Nat} {s : Text} {token : Token}
    (hbudget : 0 < budget) (hmark : grammar.length? none s = some n)
    (hjudge : grammar.judge none ⟨[], s.take n, s.drop n⟩ = .ok (some ⟨token, false, []⟩))
    (hnil : ∀ previous, grammar.length? previous [] = none) :
    ∃ left, grammar.consume budget none s = .ok ⟨[' '], [(token, false)], left, false⟩ := by
  obtain ⟨left, rfl⟩ := Nat.exists_eq_add_of_lt hbudget
  rw [Nat.zero_add]
  refine ⟨left, ?_⟩
  rw [consume_mark hmark, hjudge]
  show Except.map _ (grammar.consume left (some ' ') []) = _
  rw [consume_of_no_mark (locate?_of_forall hnil (by simp))]
  rfl

/-- A line that is nothing but a mark of one grammar gives its token, where no grammar before it has
anything to read in the line and none after it has anything to read in a space. -/
theorem extract_of_single {s : Text} {kind : TokenKind} {before after : List TokenKind}
    {token : Token} {n : Nat} (hflat : IsFlat s) (hkinds : kinds settings = before ++ kind :: after)
    (hbefore : ∀ other ∈ before, locate? (grammarOf settings today other).length? none s = none)
    (hafter : ∀ other ∈ after, locate? (grammarOf settings today other).length? none [' '] = none)
    (hlimit : 0 < settings.metadataLimit)
    (hmark : (grammarOf settings today kind).length? none s = some n)
    (hjudge : (grammarOf settings today kind).judge none ⟨[], s.take n, s.drop n⟩ =
      .ok (some ⟨token, false, []⟩))
    (hnil : ∀ previous, (grammarOf settings today kind).length? previous [] = none) :
    extract settings today s = .ok (singleExtraction token) := by
  obtain ⟨left, hconsume⟩ := consume_of_single hlimit hmark hjudge hnil
  have hrest :=
    @consumeAll_skip (after.map (grammarOf settings today)) [] left [' '] (by simpa using hafter)
  rw [List.append_nil] at hrest
  rw [extract, grammars_eq_map, protect_of_isFlat hflat, hkinds, List.map_append,
    consumeAll_skip (by simpa using hbefore)]
  refine Result.bind_eq_ok.2 ⟨⟨[' '], [(token, false)], left, false⟩, ?_, rfl⟩
  exact Result.bind_eq_ok.2 ⟨_, hconsume, Result.bind_eq_ok.2 ⟨_, hrest, rfl⟩⟩

theorem kinds_of_allowsEmoji (hmetadata : settings.readsMetadata = true)
    (hemoji : settings.grammars.allowsEmoji = true) :
    kinds settings = (if settings.grammars.allowsDataview then [.dataview] else []) ++ .emoji ::
      if settings.readsTags then [.tag, .context] else [] := by
  rw [kinds, hmetadata, hemoji, Bool.and_self, if_pos rfl, Bool.true_and, List.append_assoc]
  rfl

def datedText (symbol : Text) (date : Date) : Text :=
  symbol ++ ' ' :: date.text

def datedToken (symbol : Text) (kind : DateField) (date : Date) : Token :=
  ⟨.emoji, .field (.date kind), date.text, datedText symbol date⟩

theorem notMem_datedText (hclear : HasClearSymbols settings)
    (hsymbol : (symbol, field) ∈ settings.symbols) : ∀ c ∈ datedText symbol date,
    c ∉ otherSigns := by
  intro c hc
  rcases List.mem_append.1 hc with hc | hc
  · exact (hclear.clear _ hsymbol c hc).2
  · rcases List.mem_cons.1 hc with rfl | hc
    · decide
    · rcases DateText.forall_char_day 4 date c hc with hdigit | rfl
      · exact forall_digit (P := fun c => c ∉ otherSigns) (by decide) hdigit
      · decide

/-- What a line says that is nothing but the symbol and the date. -/
def datedExtraction (symbol : Text) (kind : DateField) (date : Date) : Extraction :=
  ⟨[], [(.date kind, date.text)], [], [], [datedToken symbol kind date], false⟩

theorem locate?_inline {s : Text} {previous : Option Char} (h : '[' ∉ s) :
    locate? inlineLength? previous s = none :=
  locate?_of_forall (fun _ => rfl) fun c hc previous rest =>
    @inlineLength?_eq_none previous c rest fun heq => h (heq ▸ hc)

theorem symbolLength?_nil_of_clear (hclear : HasClearSymbols settings) (previous : Option Char) :
    symbolLength? (plainSymbols settings) previous [] = none := by
  cases hfound : symbol? (plainSymbols settings) [] with
  | none => rw [symbolLength?, hfound, Option.map_none]
  | some found =>
    obtain ⟨hmem, hstarts, -⟩ := symbol?_eq_some_iff.1 hfound
    rw [keys_plainSymbols hclear.distinct] at hmem
    obtain ⟨entry, hentry, rfl⟩ := List.mem_map.1 hmem
    exact absurd (List.prefix_nil.1 hstarts) (hclear.nonempty entry hentry)

theorem extract_of_emoji {s : Text} {token : Token} {n : Nat} (hclear : HasClearSymbols settings)
    (hsigns : ∀ c ∈ s, c ∉ otherSigns)
    (hmetadata : settings.readsMetadata = true) (hemoji : settings.grammars.allowsEmoji = true)
    (hlimit : 0 < settings.metadataLimit)
    (hmark : symbolLength? (plainSymbols settings) none s = some n)
    (hjudge : (emoji settings today).judge none ⟨[], s.take n, s.drop n⟩ =
      .ok (some ⟨token, false, []⟩)) :
    extract settings today s = .ok (singleExtraction token) := by
  refine extract_of_single (isFlat_of_otherSigns hsigns) (kinds_of_allowsEmoji hmetadata hemoji)
    (fun other hother => ?_) (fun other hother => ?_) hlimit hmark hjudge
    (symbolLength?_nil_of_clear hclear)
  · obtain rfl : other = .dataview := by
      split at hother
      · exact List.mem_singleton.1 hother
      · cases hother
    exact locate?_inline fun hmem => hsigns _ hmem (by decide)
  · have hlater : other = .tag ∨ other = .context := by
      split at hother
      · simpa using hother
      · cases hother
    rcases hlater with rfl | rfl <;> rfl

/-- A symbol that is plain within is read with the date behind it, and nothing is left. -/
theorem extract_datedText {kind : DateField} (hclear : HasClearSymbols settings)
    (hsymbol : (symbol, .date kind) ∈ settings.symbols)
    (hmetadata : settings.readsMetadata = true) (hemoji : settings.grammars.allowsEmoji = true)
    (hlimit : 0 < settings.metadataLimit)
    (hfirst : date.number ≠ 0) (hplain : IsPlainWithin symbol) :
    extract settings today (datedText symbol date) = .ok (datedExtraction symbol kind date) := by
  have hmark := symbolLength?_of_isPlainWithin hclear hsymbol hplain (isBreak_space date.text) none
  have hjudge := @judge_emoji_date settings today symbol date _ hclear hsymbol hplain hfirst none
  refine extract_of_emoji hclear (notMem_datedText hclear hsymbol) hmetadata hemoji
    hlimit hmark (Eq.trans ?_ hjudge)
  rw [datedText, List.take_left, List.drop_left]

/-- The mark of the emoji is one of the symbols without selectors, perhaps with one
selector behind it. -/
theorem mark_of_marks_emoji {site : Site} (h : (emoji settings today).Marks site) :
    ∃ found ∈ Table.keys (plainSymbols settings), site.mark = found ∨
      site.mark = found ++ [Priority.variationSelector] := by
  obtain ⟨previous, n, hlength, hmark⟩ := h
  obtain ⟨found, hfound, rfl⟩ :=
    Option.map_eq_some_iff.1
      (show symbolLength? (plainSymbols settings) previous (site.mark ++ site.after) =
        some n from hlength)
  obtain ⟨hmem, ⟨behind, hbehind⟩, -⟩ := symbol?_eq_some_iff.1 hfound
  refine ⟨found, hmem, ?_⟩
  rw [hmark, ← hbehind, List.drop_left]
  split
  · rename_i hselector
    obtain ⟨others, rfl⟩ := List.head?_eq_some_iff.1 (beq_iff_eq.1 hselector)
    exact .inr (by rw [List.take_length_add_append, List.take_succ_cons, List.take_zero])
  · exact .inl (by rw [Nat.add_zero, List.take_left])

theorem isPlainWithin_of_judge {kind : DateField} {previous : Option Char}
    {site : Site} {verdict : Verdict}
    (hclear : HasClearSymbols settings) (hsymbol : (symbol, .date kind) ∈ settings.symbols)
    (hmarks : (emoji settings today).Marks site)
    (h : (emoji settings today).judge previous site = .ok (some verdict))
    (htoken : verdict.token = datedToken symbol kind date) : IsPlainWithin symbol := by
  obtain ⟨found, hfound, hmark⟩ := mark_of_marks_emoji hmarks
  rw [keys_plainSymbols hclear.distinct] at hfound
  obtain ⟨entry, hentry, rfl⟩ := List.mem_map.1 hfound
  have hmarkSolid : ∀ c ∈ site.mark, (!isBlank c) = true := by
    have hplain : ∀ c ∈ Priority.plain entry.1, (!isBlank c) = true := fun c hc => by
      rw [(hclear.clear entry hentry c (List.mem_of_mem_filter hc)).1]
      rfl
    rcases hmark with heq | heq
    · rwa [heq]
    · rw [heq]
      exact List.forall_mem_append.2 ⟨hplain, List.forall_mem_singleton.2 (by decide)⟩
  have hsymbolSolid : ∀ c ∈ symbol, (!isBlank c) = true := fun c hc => by
    rw [(hclear.clear _ hsymbol c hc).1]
    rfl
  -- what the token says of its value and of how it was written
  obtain ⟨found, field, -, -, -, -, rfl⟩ := judge_emoji_eq_some_iff.1 h
  simp only [datedToken, Token.mk.injEq, Slot.field.injEq] at htoken
  obtain ⟨-, rfl, hvalue, hraw⟩ := htoken
  have hvalue : (dateWord site.after).1 = date.text := hvalue
  have hraw : site.mark ++ site.after.take (site.after.length - (dateWord site.after).2.length) =
      datedText symbol date := hraw
  have htake :=
    take_length_sub (site.after.takeWhile isBlank ++ (dateWord site.after).1)
      (dateWord site.after).2
  rw [← (dateWord_eq site.after).1] at htake
  rw [htake, hvalue, datedText, List.append_cons, ← List.append_assoc] at hraw
  have hsame : site.mark ++ site.after.takeWhile isBlank = symbol ++ [' '] :=
    List.append_cancel_right hraw
  have hnone : (site.after.takeWhile isBlank).takeWhile (!isBlank ·) = [] := by
    rw [List.takeWhile_eq_nil_iff]
    intro hlong
    simpa using forall_mem_takeWhile isBlank site.after _ (List.getElem_mem hlong)
  have heq : site.mark = symbol := by
    have hfront := congrArg (List.takeWhile (!isBlank ·)) hsame
    have hspace : [' '].takeWhile (!isBlank ·) = [] := List.takeWhile_cons_of_neg (by decide)
    rwa [List.takeWhile_append_of_pos hmarkSolid, List.takeWhile_append_of_pos hsymbolSolid, hnone,
      hspace, List.append_nil, List.append_nil] at hfront
  rw [IsPlainWithin, ← heq]
  rcases hmark with hmark | hmark
  · exact .inl (by rw [hmark, plain_plain])
  · exact .inr (by rw [hmark, plain_concat])

/-- In front of a date a symbol is read as the settings have it exactly if it is plain within. -/
theorem extract_symbol_iff {kind : DateField} (hclear : HasClearSymbols settings)
    (hsymbol : (symbol, .date kind) ∈ settings.symbols)
    (hmetadata : settings.readsMetadata = true) (hemoji : settings.grammars.allowsEmoji = true)
    (hlimit : 0 < settings.metadataLimit) (hfirst : date.number ≠ 0) :
    extract settings today (datedText symbol date) = .ok (datedExtraction symbol kind date) ↔
      IsPlainWithin symbol := by
  refine ⟨fun h => ?_, extract_datedText hclear hsymbol hmetadata hemoji hlimit hfirst⟩
  obtain ⟨consumed, text, tokens, hconsumed, -, htokens, hread⟩ := exists_of_extract h
  obtain rfl : [datedToken symbol kind date] = tokens := congrArg Extraction.tokens hread
  obtain ⟨token, htoken, hrestore⟩ :=
    Result.exists_left_of_mem (Result.mapM_eq_ok.1 htokens) (List.mem_singleton_self _)
  rw [protect_of_isFlat (isFlat_of_otherSigns (notMem_datedText hclear hsymbol))] at hrestore
  obtain rfl : token = datedToken symbol kind date := Except.ok.inj hrestore
  have hall :=
      forall_mem_consumeAll_of_marks (P := fun token => token = datedToken symbol kind date →
        IsPlainWithin symbol)
    (List.forall_mem_map.2 fun other _ previous site verdict hmarks hjudge htoken => ?_) hconsumed
  · exact hall _ htoken rfl
  · obtain rfl : other = .emoji := by rw [← (token_of_judge other hjudge).1, htoken]; rfl
    exact isPlainWithin_of_judge hclear hsymbol hmarks hjudge htoken

/-- A symbol that ends with a selector, one that it begins with, and one that begins with it. -/
def heartSettings : Settings :=
  { symbols := [("❤".toList, .date .start), ("❤\u200d🔥\ufe0f".toList, .date .due),
    ("❤\u200d🔥🔥".toList, .priority)] }

theorem extract_symbol_iff_heart : HasClearSymbols heartSettings ∧
    ("❤\u200d🔥\ufe0f".toList, .date .due) ∈ heartSettings.symbols ∧
    extract heartSettings ⟨2024, 3, 13, rfl⟩ "❤\u200d🔥\ufe0f 2024-01-15".toList =
      .ok (datedExtraction "❤\u200d🔥\ufe0f".toList .due ⟨2024, 1, 15, rfl⟩) := by
  have hclear : HasClearSymbols heartSettings :=
    ⟨by decide +kernel, by decide +kernel, by decide +kernel⟩
  have hsymbol : ("❤\u200d🔥\ufe0f".toList, .date .due) ∈ heartSettings.symbols := by decide
  refine ⟨hclear, hsymbol, ?_⟩
  exact (@extract_symbol_iff heartSettings ⟨2024, 3, 13, rfl⟩ _
    ⟨2024, 1, 15, rfl⟩ _ hclear hsymbol rfl rfl (by decide) (by decide +kernel)).2
    (.inr (by decide +kernel))

/-- A symbol with a selector in the middle stands in the settings and is not read. -/
theorem not_recognised_of_inner_selector : ¬∀ (data : Value) (settings : Settings),
    Settings.load data = .ok settings → HasClearSymbols settings →
    settings.readsMetadata = true → settings.grammars.allowsEmoji = true →
      ∀ (symbol : Text) (kind : DateField), (symbol, .date kind) ∈ settings.symbols →
      ∀ today date : Date, date.number ≠ 0 → ∃ extraction,
        extract settings today (datedText symbol date) = .ok extraction ∧
        (.date kind, date.text) ∈ extraction.fields ∧ extraction.content = [] := by
  intro h
  have hload : ∃ settings,
      Settings.load
        (.map [(.str "emoji_mapping".toList,
          .map [(.str "❤\ufe0f\u200d🔥".toList, .str "dueDate".toList)])]) = .ok settings ∧
      settings = { symbols := [("❤\ufe0f\u200d🔥".toList, .date .due)] } :=
        Result.exists_of_map (by decide +kernel)
  obtain ⟨settings, hload, rfl⟩ := hload
  have hread : ∃ extraction, extract { symbols := [("❤\ufe0f\u200d🔥".toList, .date .due)] }
      ⟨2024, 3, 13, rfl⟩ "❤\ufe0f\u200d🔥 2024-01-15".toList =
      .ok extraction ∧ extraction.fields = [] := Result.exists_of_map (by decide +kernel)
  obtain ⟨extraction, hread, hfields⟩ := hread
  obtain ⟨found, hfound, hdue, -⟩ :=
    h _ _ hload ⟨by decide +kernel, by decide +kernel, by decide +kernel⟩ rfl rfl
    "❤\ufe0f\u200d🔥".toList .due (by decide) ⟨2024, 3, 13, rfl⟩
    ⟨2024, 1, 15, rfl⟩ (by decide +kernel)
  obtain rfl : extraction = found := Except.ok.inj (hread.symm.trans hfound)
  rw [hfields] at hdue
  cases hdue

end Checklist.Markup
