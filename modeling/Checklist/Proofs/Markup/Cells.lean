import Checklist.Proofs.Markup.Reading
import Checklist.Proofs.Markup.Symbols

/-! # Metadata that is read as written

A tag, a context, an inline field, and a symbol with its value, each with a break behind it, are
read as the one token that they are. Main statement: the grammars take such pieces out of a line and
leave the content before them (`passes`). -/

namespace Checklist.Markup
set_option autoImplicit false
open Text

variable {today : Date} {previous : Option Char} {behind : Text}

/-! ## The grammars -/

theorem isLocal_grammarOf (today : Date) (kind : TokenKind) :
    (grammarOf .standard today kind).IsLocal := by
  cases kind with
  | dataview => exact ⟨@inlineLength?_le, fun _ _ _ _ => rfl⟩
  | emoji => exact ⟨@symbolLength?_le, fun _ _ _ _ => rfl⟩
  | tag => exact ⟨@tagLength?_le, fun _ _ _ _ => rfl⟩
  | context => exact ⟨@contextLength?_le, fun _ _ _ _ => rfl⟩

theorem length_space (today : Date) (kind : TokenKind) (previous : Option Char) (rest : Text) :
    (grammarOf .standard today kind).length? previous (' ' :: rest) = none := by
  cases kind with
  | dataview => exact @inlineLength?_eq_none previous ' ' rest (by decide)
  | emoji => exact @symbolLength?_eq_none previous ' ' rest (by decide)
  | tag => exact @tagLength?_eq_none previous ' ' rest (by decide)
  | context => exact @contextLength?_eq_none previous ' ' rest (by decide)

theorem judge_dataview_append {mark after : Text}
    (h : (dataview .standard today).judge previous ⟨[], mark, after⟩ = .ok none) :
    (dataview .standard today).judge previous ⟨[], mark, after ++ behind⟩ = .ok none := by
  simp only [dataview] at h ⊢
  cases hfield : inlineField? mark with
  | none => rfl
  | some pair =>
    obtain ⟨key, value⟩ := pair
    simp only [hfield] at h ⊢
    by_cases hempty : ((trim key).isEmpty || (trim value).isEmpty) = true
    · simp [hempty, pure, Except.pure]
    · simp only [hempty, Bool.false_eq_true, if_false] at h ⊢
      obtain ⟨sense, hsense, h⟩ := Result.bind_eq_ok.1 h
      cases sense with
      | true => cases h
      | false => exact Result.bind_eq_ok.2 ⟨false, hsense, rfl⟩

theorem ignores_grammarOf (today : Date) (kind : TokenKind) (h : Follows marks behind) :
    (grammarOf .standard today kind).Ignores (IsApart · behind) behind := by
  cases kind with
  | dataview =>
    exact ⟨fun previous s hne hapart => inlineLength?_append previous hne hapart,
      fun _ _ _ _ hnone => judge_dataview_append hnone⟩
  | emoji =>
    exact ⟨fun previous s hne _ => @symbolLength?_append previous s behind hne h.isBreak,
      fun _ _ _ hapart hnone => judge_emoji_append h hapart hnone⟩
  | tag =>
    refine ⟨fun previous s hne _ => ?_, fun _ _ _ _ hnone => absurd (Except.ok.inj hnone) (by simp)⟩
    show tagLength? previous (s ++ behind) = tagLength? previous s
    rw [tagLength?, tagText?_append hne h.isBreak, tagLength?]
  | context =>
    refine ⟨fun previous s hne _ => ?_, fun _ _ _ _ hnone => absurd (Except.ok.inj hnone) (by simp)⟩
    show contextLength? previous (s ++ behind) = contextLength? previous s
    rw [contextLength?, contextText?_append hne h.isBreak, contextLength?]

/-! ## Pieces of metadata -/

/-- A piece of metadata that is read as it is written. -/
inductive IsCell (today : Date) : Cell → Prop where
  | tag {name value : Text} {slot : Slot} {repeats : Bool} (hbody : ∀ c ∈ name, isTagBody c = true)
      (hname : isTagName name = true)
      (hmeaning : tagMeaning .standard name = (slot, value, repeats)) : IsCell today
        ⟨.tag, slot, value, repeats, '#' :: name⟩
  | context {name : Text} (hne : name ≠ []) (hbody : ∀ c ∈ name, isContextBody c = true) :
      IsCell today ⟨.context, .field .context, name, false, '@' :: name⟩
  | inline {key value : Text} (hkey : IsKey key) (hkeyTrimmed : IsTrimmed key)
      (hvalue : ∀ c ∈ value, isInner c = true)
      (hvalueTrimmed : IsTrimmed value)
        (hsense : makesSense today (inlineSlot .standard key) value = .ok true) :
      IsCell today ⟨.dataview, inlineSlot .standard key, value, false, fieldText key value⟩
  | level {symbol : Char} (hfield : (plainSymbols .standard).lookup [symbol] = some .priority) :
      IsCell today ⟨.emoji, .field .priority, [symbol], false, [symbol]⟩
  | date {symbol : Char} {kind : DateField} {value : Text}
      (hfield : (plainSymbols .standard).lookup [symbol] = some (.date kind))
      (hne : value ≠ []) (hinner : ∀ c ∈ value, isInner c = true)
        (hword : dateWord (' ' :: value) = (value, []))
      (hdate : isUndated today (.date kind) value = .ok false) :
      IsCell today ⟨.emoji, .field (.date kind), value, false, symbol :: ' ' :: value⟩
  | phrase {symbol : Char} {value : Text}
      (hfield : (plainSymbols .standard).lookup [symbol] = some .recurrence)
      (htrimmed : IsTrimmed value) (hmarks : locate? marks (some ' ') value = none) :
      IsCell today ⟨.emoji, .field .recurrence, value, false, symbol :: ' ' :: value⟩

theorem mem_signs_of_lookup {symbol : Char} {field : Field}
    (h : (plainSymbols .standard).lookup [symbol] = some field) : symbol ∈ signs := by
  obtain ⟨before, after, hsplit, -⟩ := List.lookup_eq_some_iff.1 h
  rw [plainSymbols_default] at hsplit
  rw [signs, hsplit]
  simp

/-- The sign at the start of a tag or a context, with a body behind it up to a break. -/
theorem signed?_cons {sign : Char} {isBody : Char → Bool} (hspace : isBody ' ' = false)
    {name : Text} (hne : name ≠ [])
    (hbody : ∀ c ∈ name, isBody c = true) (hprevious : previous.any isGlue = false)
    (h : IsBreak behind) :
    signed? sign isBody previous (sign :: name ++ behind) = some name := by
  refine signed?_eq_some_iff.2 ⟨hprevious, hne, name ++ behind, rfl, ?_⟩
  rw [takeWhile_append_break hspace h, List.takeWhile_eq_self_iff.2 hbody]

theorem ne_nil_of_isTagName {name : Text} (h : isTagName name = true) : name ≠ [] := by
  rintro rfl
  cases h

theorem tagText?_cons {name : Text} (hne : name ≠ []) (hbody : ∀ c ∈ name, isTagBody c = true)
    (hprevious : previous.any isGlue = false)
    (h : IsBreak behind) : tagText? previous ('#' :: name ++ behind) = some name :=
  signed?_cons (by decide +kernel) hne hbody hprevious h

theorem contextText?_cons {name : Text} (hne : name ≠ [])
    (hbody : ∀ c ∈ name, isContextBody c = true)
    (hprevious : previous.any isGlue = false) (h : IsBreak behind) :
    contextText? previous ('@' :: name ++ behind) = some name :=
  signed?_cons (by decide +kernel) hne hbody hprevious h

theorem cell_gives (cell : Cell) : cell.Gives ⟨cell.kind, cell.slot, cell.value, cell.text⟩ :=
  ⟨[], by simp, by rw [List.append_nil]⟩

theorem symbolLength?_before_space {symbol : Char} {field : Field}
    (h : (plainSymbols .standard).lookup [symbol] = some field)
    (hbreak : IsBreak behind) : symbolLength? (plainSymbols .standard) previous (symbol :: behind) =
      some 1 := by
  rw [symbolLength?_cons, if_pos (mem_signs_of_lookup h)]
  have hhead : behind.head? ≠ some Priority.variationSelector := by
    intro hsome
    exact absurd (hbreak _ hsome) (by decide)
  rw [if_neg hhead]

theorem symbol?_single {symbol : Char} {field : Field}
    (h : (plainSymbols .standard).lookup [symbol] = some field) :
    symbol? (plainSymbols .standard) [symbol] = some [symbol] := by
  rw [symbol?_cons, if_pos (mem_signs_of_lookup h)]

theorem judge_emoji {symbol : Char} {field : Field} {after value rest : Text}
    (hfield : (plainSymbols .standard).lookup [symbol] = some field)
    (hvalue : symbolValue (plainSymbols .standard) field [symbol] (some symbol) after =
      (value, rest)) (hne : value ≠ [])
    (hdate : isUndated today field value = .ok false) :
    (emoji .standard today).judge previous ⟨[], [symbol], after⟩ =
      .ok (some ⟨⟨.emoji, .field field, value, [symbol] ++ after.take (after.length - rest.length)⟩,
        false, rest⟩) := by
  have hlast : lastOr previous [symbol] = some symbol := rfl
  simp [emoji, symbol?_single hfield, hfield, hlast, hvalue, hne, hdate, bind,
    Except.bind, pure, Except.pure]

/-! ## Each piece is read -/

variable {cell : Cell} {s : Text}

theorem reads_tag {name value : Text} {slot : Slot} {repeats : Bool}
    (hbody : ∀ c ∈ name, isTagBody c = true) (hname : isTagName name = true)
    (hmeaning : tagMeaning .standard name = (slot, value, repeats)) :
    (grammarOf .standard today .tag).Reads marks ⟨.tag, slot, value, repeats, '#' :: name⟩ := by
  intro previous s hprevious hfollows _
  have htext := tagText?_cons (ne_nil_of_isTagName hname) hbody hprevious hfollows.isBreak
  have hlength : ('#' :: name).length = name.length + 1 := rfl
  refine ⟨name.length + 1, ⟨⟨.tag, slot, value, '#' :: name⟩, repeats, s⟩, ?_, ?_,
    cell_gives _, rfl, .inl rfl⟩
  · show tagLength? previous ('#' :: name ++ s) = _
    rw [tagLength?, htext]
    simp [hname]
  · rw [← hlength, List.take_left, List.drop_left]
    simp only [grammarOf, tags, List.drop_succ_cons, List.drop_zero, hmeaning]

theorem reads_context {name : Text} (hne : name ≠ []) (hbody : ∀ c ∈ name, isContextBody c = true) :
    (grammarOf .standard today .context).Reads marks
      ⟨.context, .field .context, name, false, '@' :: name⟩ := by
  intro previous s hprevious hfollows _
  have htext := contextText?_cons hne hbody hprevious hfollows.isBreak
  have hlength : ('@' :: name).length = name.length + 1 := rfl
  refine ⟨name.length + 1, ⟨⟨.context, .field .context, name, '@' :: name⟩, false, s⟩, ?_, ?_,
    cell_gives _, rfl, .inl rfl⟩
  · show contextLength? previous ('@' :: name ++ s) = _
    rw [contextLength?, htext]
    rfl
  · rw [← hlength, List.take_left, List.drop_left]
    rfl

theorem reads_inline {key value : Text} (hkey : IsKey key) (hkeyTrimmed : IsTrimmed key)
    (hvalue : ∀ c ∈ value, isInner c = true) (hvalueTrimmed : IsTrimmed value)
    (hsense : makesSense today (inlineSlot .standard key) value = .ok true) :
    (grammarOf .standard today .dataview).Reads marks
      ⟨.dataview, inlineSlot .standard key, value, false, fieldText key value⟩ := by
  intro previous s _ _ _
  have hfield := inlineField?_fieldText hkey hvalue
  have hmark : inlineField? (fieldText key value) = some (key, value) := by
    rw [← List.append_nil (fieldText key value), hfield]
  refine ⟨(fieldText key value).length,
    ⟨⟨.dataview, inlineSlot .standard key, value, fieldText key value⟩, false, s⟩, ?_, ?_,
    cell_gives _, rfl, .inl rfl⟩
  · show inlineLength? previous (fieldText key value ++ s) = _
    rw [inlineLength?, hfield, length_fieldText]
    rfl
  · rw [List.take_left, List.drop_left]
    simp [grammarOf, dataview, hmark, hkeyTrimmed.trim_eq, hvalueTrimmed.trim_eq,
      hkeyTrimmed.ne_nil, hvalueTrimmed.ne_nil, hsense, bind,
      Except.bind, pure, Except.pure]

theorem levelWord?_follows (h : Follows marks s) : levelWord? s = none := by
  have hword : (trimStart s).takeWhile Char.isAlpha = [] := by
    by_cases hempty : trimStart s = []
    · rw [hempty]
      rfl
    · obtain ⟨c, rest, hcons, hc⟩ := h.cons hempty
      have hletter : c.isAlpha = false :=
          forall_sign (P := fun c => c.isAlpha = false) (by decide) hc
      rw [hcons, List.takeWhile_cons_of_neg (by simp [hletter])]
  simp [levelWord?, hword]

theorem reads_level {symbol : Char}
    (hfield : (plainSymbols .standard).lookup [symbol] = some .priority) :
    (grammarOf .standard today .emoji).Reads marks
      ⟨.emoji, .field .priority, [symbol], false, [symbol]⟩ := by
  intro previous s _ hfollows _
  have hvalue : symbolValue (plainSymbols .standard) .priority [symbol] (some symbol) s =
      ([symbol], s) := by
    simp [symbolValue, levelWord?_follows hfollows]
  have hverdict := @judge_emoji today previous _ _ _ _ _ hfield hvalue (by simp) rfl
  have hlength : symbolLength? (plainSymbols .standard) previous (symbol :: s) = some 1 :=
    symbolLength?_before_space hfield hfollows.isBreak
  exact ⟨1, _, hlength, hverdict, ⟨[], by simp, by simp⟩, rfl, .inl rfl⟩

theorem reads_date {symbol : Char} {kind : DateField} {value : Text}
    (hfield : (plainSymbols .standard).lookup [symbol] = some (.date kind))
    (hne : value ≠ []) (hword : dateWord (' ' :: value) = (value, []))
    (hdate : isUndated today (.date kind) value = .ok false) :
    (grammarOf .standard today .emoji).Reads marks
      ⟨.emoji, .field (.date kind), value, false, symbol :: ' ' :: value⟩ := by
  intro previous s _ hfollows _
  have hsolid : trimStart (' ' :: value) ≠ [] := by
    intro hblank
    have hnil : dateWord (' ' :: value) = ([], []) := by
      simp only [dateWord, hblank]
      rfl
    rw [hnil] at hword
    exact hne (Prod.mk.inj hword).1.symm
  have hvalue : symbolValue (plainSymbols .standard) (.date kind) [symbol] (some symbol)
      (' ' :: value ++ s) = (value, s) := by
    rw [symbolValue]
    · rw [dateWord_append hfollows hsolid, hword]
      rfl
    all_goals simp
  have hverdict := @judge_emoji today previous _ _ _ _ _ hfield hvalue hne hdate
  have hlength : symbolLength? (plainSymbols .standard) previous (symbol :: ' ' :: (value ++ s)) =
      some 1 :=
    symbolLength?_before_space hfield (isBreak_space _)
  refine ⟨1, _, hlength, hverdict, ⟨[], by simp, ?_⟩, rfl, .inl rfl⟩
  have hraw : (' ' :: value ++ s).take ((' ' :: value ++ s).length - s.length) = ' ' :: value := by
    rw [List.length_append, Nat.add_sub_cancel, List.take_left]
  rw [hraw]
  simp

theorem trim_between_blanks {value before after : Text} (h : IsTrimmed value)
    (hbefore : ∀ c ∈ before, isBlank c = true)
    (hafter : ∀ c ∈ after, isBlank c = true) : trim (before ++ value ++ after) = value := by
  have hstart : trimStart (before ++ value ++ after) = value ++ after := by
    rw [List.append_assoc, trimStart_append, trimStart_eq_nil_iff.2 hbefore, if_pos rfl]
    refine trimStart_eq_self fun c hc => ?_
    rw [List.head?_append_of_ne_nil _ h.ne_nil] at hc
    exact h.head c hc
  have hend : trimEnd (value ++ after) = trimEnd value := by
    rw [trimEnd, trimEndWhere, List.reverse_append,
      List.dropWhile_append_of_pos (by simpa using hafter)]
    rfl
  rw [trim, hstart, hend, trimEnd_eq_self h.last]

theorem reads_phrase {symbol : Char} {value : Text}
    (hfield : (plainSymbols .standard).lookup [symbol] = some .recurrence)
    (htrimmed : IsTrimmed value) (hmarks : locate? marks (some ' ') value = none) :
    (grammarOf .standard today .emoji).Reads marks
      ⟨.emoji, .field .recurrence, value, false, symbol :: ' ' :: value⟩ := by
  intro previous s _ hfollows hapart
  have hnone : locate? marks (some symbol) (' ' :: value) = none := by
    rw [locate?, marks_of_isBlank (by decide), hmarks]
    rfl
  obtain ⟨spaces, hspaces, hphrase, hsplit⟩ :=
    phrase_append hfollows (IsApart.right (s := [symbol]) hapart) hnone
  have htrim : trim (' ' :: value ++ spaces) = value := by
    refine @trim_between_blanks _ [' '] _ htrimmed (by decide) fun c hc => ?_
    rw [hspaces c hc]
    decide
  have hvalue : symbolValue (plainSymbols .standard) .recurrence [symbol] (some symbol)
      (' ' :: value ++ s) = (value, trimStart s) := by
    simp only [symbolValue, hphrase, htrim]
  have hverdict := @judge_emoji today previous _ _ _ _ _ hfield hvalue htrimmed.ne_nil rfl
  have hlength : symbolLength? (plainSymbols .standard) previous (symbol :: ' ' :: (value ++ s)) =
      some 1 :=
    symbolLength?_before_space hfield (isBreak_space _)
  refine ⟨1, _, hlength, hverdict, ⟨spaces, hspaces, ?_⟩, rfl, .inr rfl⟩
  have hraw : (' ' :: value ++ s).take ((' ' :: value ++ s).length - (trimStart s).length) =
      ' ' :: value ++ spaces := by
    have hwhole : ' ' :: value ++ s = ' ' :: value ++ spaces ++
        trimStart s := by rw [List.append_assoc, hsplit]
    rw [hwhole, List.length_append, Nat.add_sub_cancel, List.take_left]
  rw [hraw]
  simp

theorem IsCell.reads (h : IsCell today cell) :
    (grammarOf .standard today cell.kind).Reads marks cell := by
  cases h with
  | tag hbody hname hmeaning => exact reads_tag hbody hname hmeaning
  | context hne hbody => exact reads_context hne hbody
  | inline hkey hkeyTrimmed hvalue hvalueTrimmed hsense =>
    exact reads_inline hkey hkeyTrimmed hvalue hvalueTrimmed hsense
  | level hfield => exact reads_level hfield
  | date hfield hne _ hword hdate => exact reads_date hfield hne hword hdate
  | phrase hfield htrimmed hmarks => exact reads_phrase hfield htrimmed hmarks

/-! ## Each piece is marked -/

theorem exists_marks_of_symbol {n : Nat}
    (h : symbolLength? (plainSymbols .standard) previous s = some n) :
    ∃ n, marks previous s = some n :=
  ⟨n, Option.or_eq_some_iff.2 (.inl h)⟩

theorem exists_marks_of_inline {n : Nat} (h : inlineLength? previous s = some n) :
    ∃ n, marks previous s = some n := by
  cases hsymbol : symbolLength? (plainSymbols .standard) previous s with
  | some m => exact exists_marks_of_symbol hsymbol
  | none => exact ⟨n, Option.or_eq_some_iff.2 (.inr ⟨hsymbol, Option.or_eq_some_iff.2 (.inl h)⟩)⟩

theorem exists_marks_of_body {body : Text}
    (h : tagText? previous s = some body ∨ contextText? previous s = some body) :
    ∃ n, marks previous s = some n := by
  have hfound : ∃ n, ((tagText? previous s).map List.length).or
      ((contextText? previous s).map List.length) = some n := by
    rcases h with h | h
    · exact ⟨_, by rw [h]; rfl⟩
    · rw [h]
      cases tagText? previous s with
      | some tag => exact ⟨_, rfl⟩
      | none => exact ⟨_, rfl⟩
  obtain ⟨n, hn⟩ := hfound
  cases hinline : inlineLength? previous s with
  | some m => exact exists_marks_of_inline hinline
  | none => cases hsymbol : symbolLength? (plainSymbols .standard) previous s with
    | some m => exact exists_marks_of_symbol hsymbol
    | none =>
      exact ⟨n,
        Option.or_eq_some_iff.2 (.inr ⟨hsymbol, Option.or_eq_some_iff.2 (.inr ⟨hinline, hn⟩)⟩)⟩

theorem isBlank_of_lookup {symbol : Char} {field : Field}
    (h : (plainSymbols .standard).lookup [symbol] = some field) : isBlank symbol = false :=
  forall_sign (P := fun c => isBlank c = false) (by decide) (by simp [isSign, mem_signs_of_lookup h])

theorem IsCell.isMarked (h : IsCell today cell) : cell.IsMarked marks := by
  have hfree : Option.any isGlue (some ' ') = false := by decide
  cases h with
  | tag hbody hname _ =>
    exact ⟨⟨_, _, rfl, by decide⟩, fun s hs =>
      exists_marks_of_body (.inl (tagText?_cons (ne_nil_of_isTagName hname) hbody hfree hs))⟩
  | context hne hbody =>
    exact ⟨⟨_, _, rfl, by decide⟩,
      fun s hs => exists_marks_of_body (.inr (contextText?_cons hne hbody hfree hs))⟩
  | inline hkey _ hvalue _ _ =>
    have hlength : ∀ s, inlineLength? (some ' ') (fieldText _ _ ++ s) = some _ := fun s => by
      rw [inlineLength?, inlineField?_fieldText hkey hvalue]
      rfl
    exact ⟨⟨_, _, rfl, by decide⟩, fun s _ => exists_marks_of_inline (hlength s)⟩
  | level hfield =>
    exact ⟨⟨_, _, rfl, isBlank_of_lookup hfield⟩,
      fun s hs => exists_marks_of_symbol (symbolLength?_before_space hfield hs)⟩
  | date hfield _ _ _ _ =>
    exact ⟨⟨_, _, rfl, isBlank_of_lookup hfield⟩,
      fun s _ => exists_marks_of_symbol (symbolLength?_before_space hfield (isBreak_space _))⟩
  | phrase hfield _ _ =>
    exact ⟨⟨_, _, rfl, isBlank_of_lookup hfield⟩,
      fun s _ => exists_marks_of_symbol (symbolLength?_before_space hfield (isBreak_space _))⟩

/-! ## The grammars leave each other their pieces -/

theorem kinds_standard : kinds .standard = [.dataview, .emoji, .tag, .context] := by
  decide

theorem skips_of_forall {grammar : Grammar}
    (h : ∀ c ∈ cell.text, ∀ previous rest, grammar.length? previous (c :: rest) = none) :
    grammar.Skips cell := by
  intro behind _ _ before c after htext previous
  exact h c (by rw [htext]; simp) previous _

theorem skips_dataview_of_notMem (h : '[' ∉ cell.text) :
    (grammarOf .standard today .dataview).Skips cell :=
  skips_of_forall fun c hc previous rest => @inlineLength?_eq_none previous c rest fun heq =>
    h (heq ▸ hc)

theorem skips_emoji_of_forall (h : ∀ c ∈ cell.text, c ∉ signs) :
    (grammarOf .standard today .emoji).Skips cell :=
  skips_of_forall fun c hc previous rest => @symbolLength?_eq_none previous c rest (h c hc)

theorem skips_tag_of_notMem (h : '#' ∉ cell.text) : (grammarOf .standard today .tag).Skips cell :=
  skips_of_forall fun c hc previous rest => @tagLength?_eq_none previous c rest fun heq =>
    h (heq ▸ hc)

theorem skips_phrase {symbol : Char} {value : Text}
    (hfield : (plainSymbols .standard).lookup [symbol] = some .recurrence)
    (hmarks : locate? marks (some ' ') value = none) :
    (grammarOf .standard today .dataview).Skips
      ⟨.emoji, .field .recurrence, value, false, symbol :: ' ' :: value⟩ := by
  intro behind _ hapart before c after htext previous
  show inlineLength? previous (c :: after ++ behind) = none
  have hafter : IsApart (c :: after) behind := IsApart.right (s := before) (htext ▸ hapart)
  rw [inlineLength?_append _ (List.cons_ne_nil _ _) hafter]
  have hsymbol : symbol ≠ '[' := by
    rintro rfl
    exact absurd (mem_signs_of_lookup hfield) (by decide)
  match before with
  | [] =>
    obtain rfl : symbol = c := (List.cons.inj htext).1
    exact inlineLength?_eq_none hsymbol
  | [_] =>
    obtain rfl : ' ' = c := (List.cons.inj (List.cons.inj htext).2).1
    exact inlineLength?_eq_none (by decide)
  | _ :: _ :: before =>
    have hvalue : value = before ++ c :: after := (List.cons.inj (List.cons.inj htext).2).2
    rw [hvalue] at hmarks
    have hnone := length?_of_locate?_eq_none hmarks
    exact (Option.or_eq_none_iff.1 (Option.or_eq_none_iff.1 hnone).2).1

theorem notMem_signs_of_isTagBody {c : Char} (h : isTagBody c = true) : c ∉ signs := by
  intro hmem
  have hsign : isSign c = true := by simp [isSign, hmem]
  have hno : isTagBody c = false :=
      forall_sign (P := fun c => isTagBody c = false) (by decide +kernel) hsign
  rw [hno] at h
  cases h

theorem isTagBody_of_isContextBody {c : Char} (h : isContextBody c = true) :
    isTagBody c = true := by
  simp only [isContextBody, isTagBody, Bool.or_eq_true] at h ⊢
  rcases h with h | h
  · exact .inl (.inl h)
  · exact .inr h

theorem IsCell.isTagBody_of_mem (h : IsCell today cell)
    (hkind : cell.kind = .tag ∨ cell.kind = .context) {c : Char} (hc : c ∈ cell.text) :
    (cell.kind = .tag ∧ c = '#') ∨ (cell.kind = .context ∧ c = '@') ∨ isTagBody c = true := by
  cases h with
  | tag hbody _ _ => exact (List.mem_cons.1 hc).imp (⟨rfl, ·⟩) fun hc => .inr (hbody c hc)
  | context _ hbody =>
    exact .inr
      ((List.mem_cons.1 hc).imp (⟨rfl, ·⟩) fun hc => isTagBody_of_isContextBody (hbody c hc))
  | inline | level | date | phrase => rcases hkind with hkind | hkind <;> cases hkind

theorem IsCell.skips_dataview (h : IsCell today cell) (hkind : cell.kind ≠ .dataview) :
    (grammarOf .standard today .dataview).Skips cell := by
  have hsymbol : ∀ {symbol : Char} {field : Field}, (plainSymbols .standard).lookup [symbol] =
      some field → '[' ≠ symbol := by
    rintro symbol field hfield rfl
    exact absurd (mem_signs_of_lookup hfield) (by decide)
  have hbody : cell.kind = .tag ∨ cell.kind = .context → '[' ∉ cell.text := by
    intro hkind hmem
    rcases h.isTagBody_of_mem hkind hmem with ⟨-, hc⟩ | ⟨-, hc⟩ | hc
    · exact absurd hc (by decide)
    · exact absurd hc (by decide)
    · exact absurd hc (by decide +kernel)
  cases h with
  | inline => exact absurd rfl hkind
  | phrase hfield _ hmarks => exact skips_phrase hfield hmarks
  | tag => exact skips_dataview_of_notMem (hbody (.inl rfl))
  | context => exact skips_dataview_of_notMem (hbody (.inr rfl))
  | level hfield =>
    exact skips_dataview_of_notMem fun hmem => hsymbol hfield (List.mem_singleton.1 hmem)
  | date hfield _ hinner _ _ =>
    refine skips_dataview_of_notMem fun hmem => ?_
    rcases List.mem_cons.1 hmem with heq | hmem
    · exact hsymbol hfield heq
    · rcases List.mem_cons.1 hmem with heq | hmem
      · exact absurd heq (by decide)
      · exact absurd (hinner _ hmem) (by decide)

theorem IsCell.skips_emoji (h : IsCell today cell)
    (hkind : cell.kind = .tag ∨ cell.kind = .context) :
    (grammarOf .standard today .emoji).Skips cell := by
  refine skips_emoji_of_forall fun c hc => ?_
  rcases h.isTagBody_of_mem hkind hc with ⟨-, rfl⟩ | ⟨-, rfl⟩ | hc
  · decide
  · decide
  · exact notMem_signs_of_isTagBody hc

theorem IsCell.skips_tag (h : IsCell today cell) (hkind : cell.kind = .context) :
    (grammarOf .standard today .tag).Skips cell := by
  refine skips_tag_of_notMem fun hmem => ?_
  rcases h.isTagBody_of_mem (.inr hkind) hmem with ⟨htag, -⟩ | ⟨-, hc⟩ | hc
  · rw [hkind] at htag
    cases htag
  · exact absurd hc (by decide)
  · exact absurd hc (by decide +kernel)

theorem IsCell.skips (cells : List Cell) (h : ∀ cell ∈ cells, IsCell today cell) :
    (kinds .standard).Pairwise fun earlier later => ∀ cell ∈ cells, cell.kind = later →
      (grammarOf .standard today earlier).Skips cell := by
  rw [kinds_standard]
  simp only [List.pairwise_cons, List.mem_cons, List.not_mem_nil, or_false, false_imp_iff,
    implies_true, List.Pairwise.nil, and_true,
    forall_eq_or_imp, forall_eq]
  refine ⟨⟨?_, ?_, ?_⟩, ⟨?_, ?_⟩, ?_⟩ <;> intro cell hcell hkind
  · exact (h cell hcell).skips_dataview (by simp [hkind])
  · exact (h cell hcell).skips_dataview (by simp [hkind])
  · exact (h cell hcell).skips_dataview (by simp [hkind])
  · exact (h cell hcell).skips_emoji (.inl hkind)
  · exact (h cell hcell).skips_emoji (.inr hkind)
  · exact (h cell hcell).skips_tag hkind

/-! ## No inline field reaches from one piece into another -/

theorem isInner_of_isTagBody {c : Char} (h : isTagBody c = true) : isInner c = true := by
  by_contra hbracket
  simp only [isInner, Bool.and_eq_true, bne_iff_ne, not_and_or, not_not] at hbracket
  have hno : isTagBody '[' = false ∧ isTagBody ']' = false := by decide +kernel
  rcases hbracket with rfl | rfl <;> simp [hno] at h

theorem isInner_of_lookup {symbol : Char} {field : Field}
    (h : (plainSymbols .standard).lookup [symbol] = some field) : isInner symbol = true := by
  have hall : ∀ c ∈ signs, isInner c = true := by decide
  exact hall symbol (mem_signs_of_lookup h)

theorem IsCell.closed (h : IsCell today cell) :
    cell.slot = .field .recurrence ∧ cell.repeats = false ∨
    firstBracket? cell.text ≠ some ']' ∧ lastBracket? cell.text ≠ some '[' := by
  have hinner : ∀ {s : Text}, (∀ c ∈ s, isInner c = true) → firstBracket? s ≠ some ']' ∧
      lastBracket? s ≠ some '[' := by
    intro s hs
    rw [firstBracket?_eq_none_iff.2 hs, lastBracket?_eq_none hs]
    exact ⟨nofun, nofun⟩
  cases h with
  | phrase => exact .inl ⟨rfl, rfl⟩
  | tag hbody _ _ =>
    exact .inr
      (hinner (List.forall_mem_cons.2 ⟨by decide, fun c hc => isInner_of_isTagBody (hbody c hc)⟩))
  | context _ hbody =>
    exact .inr
      (hinner (List.forall_mem_cons.2
        ⟨by decide, fun c hc => isInner_of_isTagBody (isTagBody_of_isContextBody (hbody c hc))⟩))
  | inline =>
    refine .inr ⟨by simp [fieldText, firstBracket?, isInner], ?_⟩
    rw [fieldText, lastBracket?_append]
    simp [lastBracket?, firstBracket?, isInner]
  | level hfield => exact .inr (hinner (List.forall_mem_cons.2 ⟨isInner_of_lookup hfield, by simp⟩))
  | date hfield _ hvalue _ _ =>
    exact .inr
      (hinner (List.forall_mem_cons.2
        ⟨isInner_of_lookup hfield, List.forall_mem_cons.2 ⟨by decide, hvalue⟩⟩))

theorem pairwise_isApart {cells : List Cell} (h : ∀ cell ∈ cells, IsCell today cell)
    (hnodup : ((cells.filter (!·.repeats)).map (·.slot)).Nodup) : cells.Pairwise fun cell later =>
      IsApart cell.text later.text := by
  rw [List.Nodup, List.pairwise_map, List.pairwise_filter] at hnodup
  refine hnodup.imp_of_mem fun {cell later} hcell hlater hslots => ?_
  rcases (h cell hcell).closed with ⟨hslot, hrepeats⟩ | ⟨-, hlast⟩
  · rcases (h later hlater).closed with ⟨hslot', hrepeats'⟩ | ⟨hfirst, -⟩
    · exact absurd (hslot.trans hslot'.symm) (hslots (by simp [hrepeats]) (by simp [hrepeats']))
    · exact .inr hfirst
  · exact .inl hlast

/-- The grammars pass over a content and take such pieces out of what follows it. -/
theorem passes {cells : List Cell} (h : ∀ cell ∈ cells, IsCell today cell)
    (hnodup : ((cells.filter (!·.repeats)).map (·.slot)).Nodup) :
    Passes (grammarOf .standard today) marks cells where
  isLocal := isLocal_grammarOf today
  space := length_space today
  ignores := fun kind _ => ignores_grammarOf today kind
  marked := fun cell hcell => (h cell hcell).isMarked
  apart := pairwise_isApart h hnodup
  reads := fun cell hcell => (h cell hcell).reads
  nodup := hnodup

end Checklist.Markup
