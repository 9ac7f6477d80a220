import Checklist.Proofs.Markup.Consume
import Checklist.Proofs.Calendar.DateText

/-! # Marks and what stands behind them

Whether a mark stands at a place is decided by the text up to the first character that cannot belong
to it, so a text behind a break rarely changes the marks before it. Main statements: what an inline
field is (`inlineField?_eq_some_iff`), that the marks of a content stay what they are
(`inlineLength?_append`, `anyLength?_append`), and that an emoji that is no token stays none
(`judge_emoji_append`). -/

namespace Checklist
set_option autoImplicit false
open Text

def Settings.standard : Settings := {}

namespace Markup

/-! ## Inline fields -/

def fieldText (key value : Text) : Text :=
  '[' :: key ++ "::".toList ++ value ++ [']']

/-- A key of an inline field: not empty, and without brackets and colons. -/
def IsKey (key : Text) : Prop :=
  key ≠ [] ∧ ∀ c ∈ key, (isInner c && c != ':') = true

theorem inlineField?_fieldText {key value : Text} (hkey : IsKey key)
    (hvalue : ∀ c ∈ value, isInner c = true) (rest : Text) :
    inlineField? (fieldText key value ++ rest) = some (key, value) := by
  have hcolon : (fun c => isInner c && c != ':') ':' = false := by decide
  have hclose : isInner ']' = false := by decide
  obtain ⟨c, others, rfl⟩ := List.exists_cons_of_ne_nil hkey.1
  have htakeKey := @takeWhile_append_cons _ _ (':' :: (value ++ ']' :: rest)) ':' hkey.2 hcolon
  have hdropKey := @dropWhile_append_cons _ _ (':' :: (value ++ ']' :: rest)) ':' hkey.2 hcolon
  have htakeValue := @takeWhile_append_cons _ _ rest ']' hvalue hclose
  have hdropValue := @dropWhile_append_cons _ _ rest ']' hvalue hclose
  have htext : fieldText (c :: others) value ++ rest =
      '[' :: (c :: others ++ ':' :: ':' :: (value ++ ']' :: rest)) := by
    simp [fieldText]
  rw [htext]
  simp only [inlineField?, htakeKey, hdropKey, htakeValue, hdropValue]
  rfl

/-- An inline field stands at the start of a text exactly if its text does. -/
theorem inlineField?_eq_some_iff {s key value : Text} : inlineField? s = some (key, value) ↔
    IsKey key ∧ (∀ c ∈ value, isInner c = true) ∧ fieldText key value <+: s := by
  constructor
  · intro h
    unfold inlineField? at h
    split at h
    · rename_i rest
      simp only at h
      split at h
      · rename_i c others after htake hdrop
        simp only [Option.ite_none_right_eq_some, Option.some.injEq, Prod.mk.injEq] at h
        obtain ⟨hend, rfl, rfl⟩ := h
        obtain ⟨behind, hbehind⟩ := List.head?_eq_some_iff.1 (beq_iff_eq.1 hend)
        have hkey := forall_mem_takeWhile (fun c => isInner c && c != ':') rest
        rw [htake] at hkey
        refine ⟨⟨by simp, hkey⟩, forall_mem_takeWhile _ _, behind, ?_⟩
        have hrest :=
            List.takeWhile_append_dropWhile (p := fun c => isInner c && c != ':') (l := rest)
        have hafter := List.takeWhile_append_dropWhile (p := isInner) (l := after)
        rw [hbehind] at hafter
        rw [htake, hdrop, ← hafter] at hrest
        conv_rhs => rw [← hrest]
        simp [fieldText, hafter]
      · cases h
    · cases h
  · rintro ⟨hkey, hvalue, rest, rfl⟩
    exact inlineField?_fieldText hkey hvalue rest

theorem length_fieldText (key value : Text) :
    (fieldText key value).length = key.length + value.length + 4 := by
  simp only [fieldText, List.length_append, List.length_cons, List.length_nil]
  have htwo : "::".toList.length = 2 := rfl
  omega

theorem isInner_of_mem_field {key value : Text} (hkey : IsKey key)
    (hvalue : ∀ c ∈ value, isInner c = true) :
    ∀ c ∈ key ++ "::".toList ++ value, isInner c = true := by
  have hcolon : ∀ c ∈ "::".toList, isInner c = true := by decide
  intro c hc
  rcases List.mem_append.1 hc with hc | hc
  · rcases List.mem_append.1 hc with hc | hc
    · exact (Bool.and_eq_true_iff.1 (hkey.2 c hc)).1
    · exact hcolon c hc
  · exact hvalue c hc

/-- A field that is cut in two leaves its bracket open, and the other piece closes it. -/
theorem brackets_of_append_eq_fieldText {key value s more : Text} (hkey : IsKey key)
    (hvalue : ∀ c ∈ value, isInner c = true)
    (h : s ++ more = fieldText key value) (hs : s ≠ []) (hmore : more ≠ []) :
    lastBracket? s = some '[' ∧ firstBracket? more = some ']' := by
  have hinner := isInner_of_mem_field hkey hvalue
  obtain ⟨c, rest, rfl⟩ := List.exists_cons_of_ne_nil hs
  obtain rfl | ⟨init, last, rfl⟩ := List.eq_nil_or_concat' more
  · exact absurd rfl hmore
  rw [fieldText, ← List.append_assoc] at h
  obtain ⟨hcut, hlast⟩ := List.append_inj' h rfl
  obtain ⟨rfl, hbody⟩ := List.cons.inj hcut
  obtain rfl := (List.cons.inj hlast).1
  rw [← show rest ++ init = key ++ "::".toList ++ value from hbody] at hinner
  have hrest : lastBracket? rest = none := lastBracket?_eq_none fun c hc =>
    hinner c (List.mem_append_left _ hc)
  have hinit : firstBracket? init = none := firstBracket?_eq_none_iff.2 fun c hc =>
    hinner c (List.mem_append_right _ hc)
  constructor
  · rw [← List.singleton_append, lastBracket?_append, hrest]
    rfl
  · rw [firstBracket?_append, hinit]
    rfl

theorem inlineField?_append {s behind : Text} (hne : s ≠ []) (h : IsApart s behind) :
    inlineField? (s ++ behind) = inlineField? s := by
  refine Option.ext fun pair => ?_
  obtain ⟨key, value⟩ := pair
  rw [inlineField?_eq_some_iff, inlineField?_eq_some_iff]
  refine and_congr_right fun hkey => and_congr_right fun hvalue =>
    ⟨fun hstarts => ?_, fun hstarts => hstarts.trans ⟨behind, rfl⟩⟩
  -- A field that reached over the end would leave a bracket open, and the first bracket behind
  -- would close it.
  by_contra hshort
  obtain ⟨more, hmore⟩ : s <+: fieldText key value :=
    (List.prefix_or_prefix_of_prefix hstarts ⟨behind, rfl⟩).resolve_left hshort
  have hmoreNe : more ≠ [] := by
    rintro rfl
    rw [List.append_nil] at hmore
    exact hshort ⟨[], by rw [hmore, List.append_nil]⟩
  obtain ⟨hlast, hfirst⟩ := brackets_of_append_eq_fieldText hkey hvalue hmore hne hmoreNe
  obtain ⟨after, hafter⟩ := hstarts
  rw [← hmore, List.append_assoc] at hafter
  have hbehind : firstBracket? behind = some ']' := by
    rw [← List.append_cancel_left hafter, firstBracket?_append, hfirst]
    rfl
  rcases h with h | h
  · exact h hlast
  · exact h hbehind

theorem inlineLength?_append {s behind : Text} (previous : Option Char) (hne : s ≠ [])
    (h : IsApart s behind) :
    inlineLength? previous (s ++ behind) = inlineLength? previous s := by
  rw [inlineLength?, inlineLength?, inlineField?_append hne h]

theorem inlineLength?_le {previous : Option Char} {s : Text} {n : Nat}
    (h : inlineLength? previous s = some n) : 0 < n ∧ n ≤ s.length := by
  obtain ⟨⟨key, value⟩, hfield, rfl⟩ := Option.map_eq_some_iff.1 h
  obtain ⟨-, -, hstarts⟩ := inlineField?_eq_some_iff.1 hfield
  have hle := hstarts.length_le
  rw [length_fieldText] at hle
  exact ⟨Nat.succ_pos _, hle⟩

theorem inlineLength?_eq_none {previous : Option Char} {c : Char} {rest : Text} (h : c ≠ '[') :
    inlineLength? previous (c :: rest) = none := by
  rw [inlineLength?, Option.map_eq_none_iff]
  unfold inlineField?
  split
  · rename_i heq
    exact absurd (List.cons.inj heq).1 h
  · rfl

/-! ## Tags and contexts -/

theorem takeWhile_append_of_not {p : Char → Bool} {c : Char} (hc : p c = false) (s rest : Text) :
    (s ++ c :: rest).takeWhile p = s.takeWhile p := by
  induction s with
  | nil => exact List.takeWhile_cons_of_neg (by simp [hc])
  | cons d s ih => rw [List.cons_append, List.takeWhile_cons, List.takeWhile_cons, ih]

theorem takeWhile_append_break {p : Char → Bool} (hp : p ' ' = false) {s behind : Text}
    (h : IsBreak behind) :
    (s ++ behind).takeWhile p = s.takeWhile p := by
  cases behind with
  | nil => rw [List.append_nil]
  | cons c rest =>
    obtain rfl : c = ' ' := h c rfl
    exact takeWhile_append_of_not hp s rest

def isTagBody (c : Char) : Bool :=
  isWord c || c == '/' || c == '-'

def isContextBody (c : Char) : Bool :=
  isWord c || c == '-'

theorem signed?_append {sign : Char} {isBody : Char → Bool} (hspace : isBody ' ' = false)
    {previous : Option Char} {s behind : Text} (hne : s ≠ []) (h : IsBreak behind) :
    signed? sign isBody previous (s ++ behind) = signed? sign isBody previous s := by
  obtain ⟨c, rest, rfl⟩ := List.exists_cons_of_ne_nil hne
  simp only [signed?, List.cons_append, takeWhile_append_break hspace h]

theorem tagText?_append {previous : Option Char} {s behind : Text} (hne : s ≠ [])
    (h : IsBreak behind) :
    tagText? previous (s ++ behind) = tagText? previous s :=
  signed?_append (by decide +kernel) hne h

theorem contextText?_append {previous : Option Char} {s behind : Text} (hne : s ≠ [])
    (h : IsBreak behind) :
    contextText? previous (s ++ behind) = contextText? previous s :=
  signed?_append (by decide +kernel) hne h

theorem signed?_eq_some_iff {sign : Char} {isBody : Char → Bool}
    {previous : Option Char} {s body : Text} :
    signed? sign isBody previous s = some body ↔
      previous.any isGlue = false ∧ body ≠ [] ∧ ∃ rest, s = sign :: rest ∧
        rest.takeWhile isBody = body := by
  cases s with
  | nil => simp [signed?]
  | cons c rest =>
    simp only [signed?, Option.ite_none_right_eq_some, Bool.and_eq_true, beq_iff_eq,
      Option.some.injEq, List.cons.injEq]
    constructor
    · rintro ⟨⟨⟨rfl, hglue⟩, hne⟩, rfl⟩
      exact ⟨by simpa using hglue, by simpa using hne, rest, ⟨rfl, rfl⟩, rfl⟩
    · rintro ⟨hglue, hne, _, ⟨rfl, rfl⟩, rfl⟩
      exact ⟨⟨⟨rfl, by simp [hglue]⟩, by simpa using hne⟩, rfl⟩

theorem signed?_eq_none {sign : Char} {isBody : Char → Bool} {previous : Option Char} {c : Char}
    {rest : Text} (h : c ≠ sign) :
    signed? sign isBody previous (c :: rest) = none := by
  have hne : (c == sign) = false := by simpa using h
  simp [signed?, hne]

theorem length_signed?_lt {sign : Char} {isBody : Char → Bool}
    {previous : Option Char} {s body : Text} (h : signed? sign isBody previous s = some body) :
    0 < body.length ∧ body.length < s.length := by
  obtain ⟨-, hne, rest, rfl, rfl⟩ := signed?_eq_some_iff.1 h
  have hle := (List.takeWhile_sublist (l := rest) isBody).length_le
  exact ⟨List.length_pos_iff.2 hne, by simp only [List.length_cons]; omega⟩

theorem tagLength?_le {previous : Option Char} {s : Text} {n : Nat}
    (h : tagLength? previous s = some n) : 0 < n ∧ n ≤ s.length := by
  obtain ⟨body, hbody, rfl⟩ := Option.map_eq_some_iff.1 h
  have hlt := length_signed?_lt (Option.filter_eq_some_iff.1 hbody).1
  omega

theorem contextLength?_le {previous : Option Char} {s : Text} {n : Nat}
    (h : contextLength? previous s = some n) : 0 < n ∧ n ≤ s.length := by
  obtain ⟨body, hbody, rfl⟩ := Option.map_eq_some_iff.1 h
  have hlt := length_signed?_lt hbody
  omega

theorem tagLength?_eq_none {previous : Option Char} {c : Char} {rest : Text} (h : c ≠ '#') :
    tagLength? previous (c :: rest) = none := by
  rw [tagLength?, tagText?, signed?_eq_none h]
  rfl

theorem contextLength?_eq_none {previous : Option Char} {c : Char} {rest : Text} (h : c ≠ '@') :
    contextLength? previous (c :: rest) = none := by
  rw [contextLength?, contextText?, signed?_eq_none h]
  rfl

/-! ## Symbols -/

/-- The symbols of the settings that nobody changed: one character each. -/
def signs : List Char :=
  defaultSymbols.flatMap (·.1)

theorem plainSymbols_default : plainSymbols .standard = defaultSymbols := by
  decide +kernel

theorem foldl_longerSymbol_single {c : Char} {rest : Text} (cs : List Char) :
    (cs.map fun d => [d]).foldl (longerSymbol (c :: rest)) none = if c ∈ cs then
      some [c] else none := by
  have hkept : ∀ cs : List Char, (cs.map fun d => [d]).foldl (longerSymbol (c :: rest)) (some [c]) =
      some [c] := by
    intro cs
    induction cs with
    | nil => rfl
    | cons d cs ih => simpa [longerSymbol] using ih
  induction cs with
  | nil => rfl
  | cons d cs ih =>
    rw [List.map_cons, List.foldl_cons]
    by_cases hd : d = c
    · subst hd
      have hfirst : longerSymbol (d :: rest) none [d] = some [d] := by simp [longerSymbol]
      rw [hfirst, hkept, if_pos List.mem_cons_self]
    · have hnone : longerSymbol (c :: rest) none [d] = none := by
        simp [longerSymbol, hd]
      rw [hnone, ih]
      simp [List.mem_cons, Ne.symm hd]

theorem symbol?_cons (c : Char) (rest : Text) :
    symbol? (plainSymbols .standard) (c :: rest) = if c ∈ signs then some [c] else none := by
  have hkeys : (plainSymbols .standard).map (·.1) = signs.map fun d => [d] := by
    rw [plainSymbols_default]
    decide
  rw [symbol?, hkeys, foldl_longerSymbol_single]

theorem symbolLength?_cons (previous : Option Char) (c : Char) (rest : Text) :
    symbolLength? (plainSymbols .standard) previous (c :: rest) =
    if c ∈ signs then some (1 + if rest.head? = some Priority.variationSelector then 1 else 0)
      else none := by
  rw [symbolLength?, symbol?_cons]
  split
  · simp only [Option.map_some, List.length_singleton, List.drop_succ_cons, List.drop_zero, beq_iff_eq]
  · rfl

theorem symbolLength?_nil (previous : Option Char) :
    symbolLength? (plainSymbols .standard) previous [] = none := by
  rw [plainSymbols_default]
  rfl

theorem symbolLength?_append {previous : Option Char} {s behind : Text} (hne : s ≠ [])
    (h : IsBreak behind) :
    symbolLength? (plainSymbols .standard) previous (s ++ behind) =
      symbolLength? (plainSymbols .standard) previous s := by
  obtain ⟨c, rest, rfl⟩ := List.exists_cons_of_ne_nil hne
  rw [List.cons_append, symbolLength?_cons, symbolLength?_cons]
  cases rest with
  | cons d rest => rfl
  | nil =>
    have hhead : behind.head? ≠ some Priority.variationSelector := by
      intro hsome
      exact absurd (h _ hsome) (by decide)
    simp [hhead]

theorem symbolLength?_le {previous : Option Char} {s : Text} {n : Nat}
    (h : symbolLength? (plainSymbols .standard) previous s = some n) :
    0 < n ∧ n ≤ s.length := by
  cases s with
  | nil =>
    rw [symbolLength?_nil] at h
    cases h
  | cons c rest =>
    rw [symbolLength?_cons] at h
    simp only [Option.ite_none_right_eq_some, Option.some.injEq] at h
    obtain ⟨-, rfl⟩ := h
    cases rest with
    | nil => exact ⟨by omega, by simp⟩
    | cons d rest =>
      refine ⟨by omega, ?_⟩
      simp only [List.length_cons]
      split <;> omega

theorem symbolLength?_eq_none {previous : Option Char} {c : Char} {rest : Text} (h : c ∉ signs) :
    symbolLength? (plainSymbols .standard) previous (c :: rest) = none := by
  rw [symbolLength?_cons, if_neg h]

/-! ## Any mark -/

def isSign (c : Char) : Bool :=
  c ∈ signs || c == '[' || c == '#' || c == '@'

theorem forall_sign {P : Char → Prop} (h : ∀ c ∈ signs ++ ['[', '#', '@'], P c) {c : Char}
    (hc : isSign c = true) : P c := by
  refine h c ?_
  simp only [isSign, Bool.or_eq_true, decide_eq_true_eq, beq_iff_eq] at hc
  simp only [List.mem_append, List.mem_cons, List.not_mem_nil, or_false]
  rcases hc with ((hc | hc) | hc) | hc
  · exact .inl hc
  · exact .inr (.inl hc)
  · exact .inr (.inr (.inl hc))
  · exact .inr (.inr (.inr hc))

def marks : MarkLength :=
  anyLength? (plainSymbols .standard)

theorem marks_append {previous : Option Char} {s behind : Text} (hne : s ≠ [])
    (hbreak : IsBreak behind) (h : IsApart s behind) :
    marks previous (s ++ behind) = marks previous s := by
  simp only [marks, anyLength?, symbolLength?_append hne hbreak,
    inlineLength?_append previous hne h, tagText?_append hne hbreak,
    contextText?_append hne hbreak]

theorem marks_eq_none {previous : Option Char} {c : Char} {rest : Text} (h : isSign c = false) :
    marks previous (c :: rest) = none := by
  simp only [isSign, Bool.or_eq_false_iff, decide_eq_false_iff_not, beq_eq_false_iff_ne] at h
  obtain ⟨⟨⟨hsymbol, hbracket⟩, hhash⟩, hat⟩ := h
  simp [marks, anyLength?, symbolLength?_eq_none hsymbol, inlineLength?_eq_none hbracket, tagText?,
    contextText?, signed?_eq_none hhash, signed?_eq_none hat]

theorem marks_le {previous : Option Char} {s : Text} {n : Nat} (h : marks previous s = some n) :
    0 < n ∧ n ≤ s.length := by
  rcases Option.or_eq_some_iff.1 h with h | ⟨-, h⟩
  · exact symbolLength?_le h
  · rcases Option.or_eq_some_iff.1 h with h | ⟨-, h⟩
    · exact inlineLength?_le h
    · rcases Option.or_eq_some_iff.1 h with h | ⟨-, h⟩
      · obtain ⟨body, hbody, rfl⟩ := Option.map_eq_some_iff.1 h
        have hlt := length_signed?_lt hbody
        omega
      · obtain ⟨body, hbody, rfl⟩ := Option.map_eq_some_iff.1 h
        have hlt := length_signed?_lt hbody
        omega

end Markup
end Checklist
