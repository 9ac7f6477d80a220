import Checklist.Proofs.Markup.Marks

/-! # What stands after a symbol

The value of an emoji is a word for a level, a date, or a phrase up to the next mark. What stands
behind the value belongs to it only as far as a date or a phrase goes on. Main statements: a date
stays the same before a break (`dateWord_append`), and an emoji that is no token stays none
(`judge_emoji_append`). -/

namespace Checklist
set_option autoImplicit false
open Text

/-! ## Scans up to a break -/

section Scans

variable {s behind : Text}

theorem Markup.dropWhile_append_break {p : Char → Bool} (hp : p ' ' = false)
    (h : Markup.IsBreak behind) :
    (s ++ behind).dropWhile p = s.dropWhile p ++ behind := by
  induction s with
  | nil =>
    cases behind with
    | nil => rfl
    | cons c rest =>
      obtain rfl : c = ' ' := h c rfl
      exact List.dropWhile_cons_of_neg (by simp [hp])
  | cons c rest ih =>
    by_cases hc : p c = true
    · rw [List.cons_append, List.dropWhile_cons_of_pos hc, List.dropWhile_cons_of_pos hc, ih]
    · rw [List.cons_append, List.dropWhile_cons_of_neg hc, List.dropWhile_cons_of_neg hc,
        List.cons_append]

theorem Date.digits?_append (count : Nat) (h : Markup.IsBreak behind) :
    digits? count (s ++ behind) = (digits? count s).map fun found =>
      (found.1, found.2 ++ behind) := by
  by_cases hlong : count ≤ s.length
  · simp only [digits?, List.take_append_of_le_length hlong, List.drop_append_of_le_length hlong]
    split <;> rfl
  · have hshort : digits? count s = none := by
      have hlength : ((s.take count).length == count) = false := by
        rw [beq_eq_false_iff_ne, List.length_take]
        omega
      simp only [digits?, hlength, Bool.false_and, Bool.false_eq_true, if_false]
    rw [hshort, Option.map_none]
    cases behind with
    | nil => rwa [List.append_nil]
    | cons c rest =>
      obtain rfl : c = ' ' := h c rfl
      have hmem : ' ' ∈ (s ++ ' ' :: rest).take count := by
        obtain ⟨extra, hextra⟩ : ∃ extra, count = s.length + (extra + 1) :=
          ⟨count - s.length - 1, by omega⟩
        rw [hextra, List.take_length_add_append]
        exact List.mem_append_right _ (by simp)
      have hall : ((s ++ ' ' :: rest).take count).all isDecimal = false := by
        rw [List.all_eq_false]
        exact ⟨' ', hmem, by decide⟩
      simp [digits?, hall]

theorem Date.mark?_append (mark : Char) (hmark : mark ≠ ' ') (h : Markup.IsBreak behind) :
    mark? mark (s ++ behind) = (mark? mark s).map (· ++ behind) := by
  cases s with
  | cons c rest =>
    simp only [mark?, List.cons_append]
    split <;> rfl
  | nil =>
    cases behind with
    | nil => rfl
    | cons c rest =>
      obtain rfl : c = ' ' := h c rfl
      have hne : (' ' == mark) = false := by simpa using Ne.symm hmark
      simp [mark?, hne]

theorem Date.scan?_append (h : Markup.IsBreak behind) :
    scan? (s ++ behind) = (scan? s).map fun found => (found.1, found.2 ++ behind) := by
  simp only [scan?, Option.bind_eq_bind, Date.digits?_append _ h]
  cases digits? 4 s with
  | none => rfl
  | some year =>
    simp only [Option.map_some, Option.bind_some, Date.mark?_append '-' (by decide) h]
    cases mark? '-' year.2 with
    | none => rfl
    | some rest =>
      simp only [Option.map_some, Option.bind_some, Date.digits?_append _ h]
      cases digits? 2 rest with
      | none => rfl
      | some month =>
        simp only [Option.map_some, Option.bind_some, Date.mark?_append '-' (by decide) h]
        cases mark? '-' month.2 with
        | none => rfl
        | some rest =>
          simp only [Option.map_some, Option.bind_some, Date.digits?_append _ h]
          cases digits? 2 rest <;> rfl

theorem DateText.hour?_append (h : Markup.IsBreak behind) :
    hour? (s ++ behind) = (hour? s).map fun found => (found.1, found.2 ++ behind) := by
  have hspace : isDecimal ' ' = false := by decide
  simp only [hour?, Markup.takeWhile_append_break hspace h, Markup.dropWhile_append_break hspace h]
  split <;> rfl

theorem DateText.time?_append (h : Markup.IsBreak behind) :
    time? (s ++ behind) = (time? s).map fun found => (found.1, found.2 ++ behind) := by
  simp only [time?, Option.bind_eq_bind, DateText.hour?_append h]
  cases hour? s with
  | none => rfl
  | some hour =>
    simp only [Option.map_some, Option.bind_some, Date.mark?_append ':' (by decide) h]
    cases Date.mark? ':' hour.2 with
    | none => rfl
    | some rest =>
      simp only [Option.map_some, Option.bind_some, Date.digits?_append _ h]
      cases Date.digits? 2 rest with
      | none => rfl
      | some minute =>
        simp only [Option.map_some, Option.bind_some, Date.mark?_append ':' (by decide) h]
        cases Date.mark? ':' minute.2 with
        | none => rfl
        | some rest =>
          simp only [Option.map_some, Option.bind_some, Date.digits?_append _ h]
          cases Date.digits? 2 rest <;> rfl

end Scans

namespace Markup

variable {s behind : Text} {previous : Option Char}

/-! ## Phrases -/

theorem marks_of_isBlank {c : Char} {rest : Text} (hc : isBlank c = true) :
    marks previous (c :: rest) = none := by
  refine marks_eq_none ?_
  by_contra hsign
  have hsolid : isBlank c = false :=
      forall_sign (P := fun c => isBlank c = false) (by decide) (by simpa using hsign)
  rw [hsolid] at hc
  cases hc

theorem locate?_append (hbreak : IsBreak behind) (hapart : IsApart s behind) :
    locate? marks previous (s ++ behind) =
    match locate? marks previous s with
    | some site => some { site with after := site.after ++ behind }
    | none =>
      (locate? marks (lastOr previous s) behind).map fun site =>
        { site with before := s ++ site.before } := by
  induction s generalizing previous with
  | nil =>
    have hnil : locate? marks previous [] = none := by
      have hnone : marks previous [] = none := by
        rw [Option.eq_none_iff_forall_ne_some]
        intro n hn
        have hle := marks_le hn
        simp only [List.length_nil] at hle
        omega
      rw [locate?, hnone]
    rw [hnil, List.nil_append, lastOr_nil]
    cases locate? marks previous behind <;> rfl
  | cons c rest ih =>
    have hsame := @marks_append previous _ _ (List.cons_ne_nil c rest) hbreak hapart
    cases hmark : marks previous (c :: rest) with
    | some n =>
      have hle := (marks_le hmark).2
      rw [hmark] at hsame
      rw [locate?_of_mark hsame, locate?_of_mark hmark]
      simp only [List.take_append_of_le_length hle, List.drop_append_of_le_length hle]
    | none =>
      rw [hmark] at hsame
      have hwhole : locate? marks previous (c :: (rest ++ behind)) =
          (locate? marks (some c) (rest ++ behind)).map fun site =>
              { site with before := c :: site.before } := by
        rw [List.cons_append] at hsame
        rw [locate?, hsame]
      have hfirst : locate? marks previous (c :: rest) =
          (locate? marks (some c) rest).map fun site =>
              { site with before := c :: site.before } := by
        rw [locate?, hmark]
      rw [List.cons_append, hwhole, hfirst, ih (IsApart.right (s := [c]) hapart), lastOr_cons]
      cases locate? marks (some c) rest with
      | some site => rfl
      | none => cases locate? marks (lastOr (some c) rest) behind <;> rfl

theorem marks_congr {other : Option Char} (h : previous.any isGlue = other.any isGlue) (s : Text) :
    marks previous s = marks other s := by
  simp only [marks, anyLength?, symbolLength?, inlineLength?, tagText?, contextText?, signed?]
  cases s with
  | nil => rfl
  | cons c rest => simp only [h]

theorem locate?_follows (h : Follows marks s) (hne : trimStart s ≠ []) :
    ∃ n, locate? marks previous s =
      some ⟨s.takeWhile isBlank, (trimStart s).take n, (trimStart s).drop n⟩ := by
  obtain ⟨n, hn⟩ := h.mark.resolve_left hne
  have hskip : ∀ (spaces rest : Text) (previous : Option Char), (∀ c ∈ spaces, c = ' ') →
      (spaces = [] → previous.any isGlue = false) →
      marks (some ' ') rest = some n → locate? marks previous (spaces ++ rest) =
          some ⟨spaces, rest.take n, rest.drop n⟩ := by
    intro spaces rest
    induction spaces with
    | nil =>
      intro previous _ hprevious hrest
      have hsame : Option.any isGlue (some ' ') = previous.any isGlue :=
        (by decide : isGlue ' ' = false).trans (hprevious rfl).symm
      rw [marks_congr hsame] at hrest
      exact locate?_of_mark hrest
    | cons c spaces ih =>
      intro previous hspaces _ hrest
      obtain rfl : c = ' ' := hspaces c List.mem_cons_self
      have hnone : marks previous (' ' :: (spaces ++ rest)) = none := marks_of_isBlank (by decide)
      rw [List.cons_append, locate?, hnone]
      simp only
      rw [ih (some ' ') (fun d hd => hspaces d (List.mem_cons_of_mem _ hd)) (fun _ => by decide) hrest]
      rfl
  refine ⟨n, ?_⟩
  have hsplit : s.takeWhile isBlank ++ trimStart s = s := List.takeWhile_append_dropWhile
  conv_lhs => rw [← hsplit]
  refine hskip _ _ _ h.spaces (fun hempty => ?_) hn
  -- A text that does not begin with a space begins with nothing.
  exfalso
  cases s with
  | nil => exact hne rfl
  | cons c rest =>
    obtain rfl : c = ' ' := h.isBreak c rfl
    rw [List.takeWhile_cons_of_pos (by decide)] at hempty
    cases hempty

theorem locate?_of_blank (h : ∀ c ∈ s, isBlank c = true) : locate? marks previous s = none := by
  induction s generalizing previous with
  | nil => rfl
  | cons c rest ih =>
    rw [locate?, marks_of_isBlank (h c List.mem_cons_self),
      ih fun d hd => h d (List.mem_cons_of_mem _ hd)]
    rfl

theorem trimStart_eq_nil_iff : trimStart s = [] ↔ ∀ c ∈ s, isBlank c = true :=
  List.dropWhile_eq_nil_iff

theorem trim_eq_nil_iff : trim s = [] ↔ ∀ c ∈ s, isBlank c = true := by
  rw [← trimStart_eq_nil_iff, trim, trimEnd, trimEndWhere, List.reverse_eq_nil_iff,
    List.dropWhile_eq_nil_iff]
  constructor
  · intro h
    cases hs : trimStart s with
    | nil => rfl
    | cons c rest =>
      have hc : isBlank c = true := h c (by simp [hs])
      have hhead := List.head?_dropWhile_not isBlank s
      have hstart : s.dropWhile isBlank = c :: rest := hs
      rw [hstart] at hhead
      simp [hc] at hhead
  · intro h c hc
    simp [h] at hc

theorem phrase_append (h : Follows marks behind) (hapart : IsApart s behind)
    (hnone : locate? marks previous s = none) :
    ∃ spaces, (∀ c ∈ spaces, c = ' ') ∧
      phrase (plainSymbols .standard) previous (s ++ behind) = (s ++ spaces, trimStart behind) ∧
      spaces ++ trimStart behind = behind := by
  have hlocate : locate? marks previous (s ++ behind) =
      (locate? marks (lastOr previous s) behind).map fun site =>
          { site with before := s ++ site.before } := by
    rw [locate?_append h.isBreak hapart, hnone]
  have hphrase : ∀ t, phrase (plainSymbols .standard) previous t =
      match locate? marks previous t with
      | some site => (site.before, site.mark ++ site.after)
      | none => (t, []) := fun t => rfl
  refine ⟨behind.takeWhile isBlank, h.spaces, ?_, List.takeWhile_append_dropWhile⟩
  rw [hphrase, hlocate]
  by_cases hempty : trimStart behind = []
  · have hblank := trimStart_eq_nil_iff.1 hempty
    rw [locate?_of_blank hblank, hempty, List.takeWhile_eq_self_iff.2 hblank]
    rfl
  · obtain ⟨n, hn⟩ := @locate?_follows _ (lastOr previous s) h hempty
    rw [hn]
    simp

/-! ## Dates -/

theorem atBoundary_append (h : IsBreak behind) : atBoundary (s ++ behind) = atBoundary s := by
  cases s with
  | cons c rest => rfl
  | nil =>
    cases behind with
    | nil => rfl
    | cons c rest =>
      obtain rfl : c = ' ' := h c rfl
      rfl

theorem time?_eq_none {s : Text} (h : ∀ c, s.head? = some c → isDecimal c = false) :
    DateText.time? s = none := by
  have hdigits : s.takeWhile isDecimal = [] := by
    cases s with
    | nil => rfl
    | cons c rest => exact List.takeWhile_cons_of_neg (by simp [h c rfl])
  simp [DateText.time?, DateText.hour?, hdigits]

theorem Follows.isDecimal_eq_false {c : Char} {rest : Text} (h : Follows marks (' ' :: c :: rest)) :
    isDecimal c = false := by
  by_cases hc : isBlank c = true
  · have hmem : c ∈ (' ' :: c :: rest).takeWhile isBlank := by
      rw [List.takeWhile_cons_of_pos (by decide), List.takeWhile_cons_of_pos hc]
      exact List.mem_cons_of_mem _ List.mem_cons_self
    rw [h.spaces c hmem]
    decide
  · have hstart : trimStart (' ' :: c :: rest) = c :: rest := by
      rw [trimStart, List.dropWhile_cons_of_pos (by decide), List.dropWhile_cons_of_neg hc]
    obtain ⟨n, hn⟩ := h.mark.resolve_left (by simp [hstart])
    have hsign : isSign c = true := by
      by_contra hno
      rw [hstart, marks_eq_none (by simpa using hno)] at hn
      cases hn
    exact forall_sign (P := fun c => isDecimal c = false) (by decide) hsign

theorem afterMoment?_append (h : Follows marks behind) :
    afterMoment? (s ++ behind) = (afterMoment? s).map (· ++ behind) := by
  simp only [afterMoment?, Option.bind_eq_bind, Date.scan?_append h.isBreak]
  cases Date.scan? s with
  | none => rfl
  | some found =>
    obtain ⟨day, rest⟩ := found
    simp only [Option.map_some, Option.bind_some]
    cases rest with
    | nil =>
      have hnone : (Date.mark? ' ' behind).bind (fun s => DateText.time? s) = none := by
        cases behind with
        | nil => rfl
        | cons c rest =>
          obtain rfl : c = ' ' := h.isBreak c rfl
          show DateText.time? rest = none
          refine time?_eq_none fun d hd => ?_
          cases rest with
          | nil => cases hd
          | cons e rest =>
            obtain rfl : e = d := by simpa using hd
            exact h.isDecimal_eq_false
      have hnil : Date.mark? ' ' [] = none := rfl
      cases hmark : Date.mark? ' ' behind with
      | none => simp only [List.nil_append, hmark, hnil, Option.bind_none, Option.map_none]
      | some rest =>
        rw [hmark, Option.bind_some] at hnone
        simp only [List.nil_append, hmark, hnil, hnone, Option.bind_none,
          Option.bind_some, Option.map_none]
    | cons c rest =>
      have hmark : Date.mark? ' ' (c :: rest ++ behind) =
          (Date.mark? ' ' (c :: rest)).map (· ++ behind) := by
        simp only [Date.mark?, List.cons_append]
        split <;> rfl
      rw [hmark]
      cases Date.mark? ' ' (c :: rest) with
      | none => rfl
      | some rest =>
        simp only [Option.map_some, Option.bind_some, DateText.time?_append h.isBreak]
        cases DateText.time? rest with
        | none => rfl
        | some found =>
          simp only [Option.map_some, Option.bind_some, atBoundary_append h.isBreak]
          split <;> rfl

theorem lower_of_isSign {c : Char} {rest : Text} (hc : isSign c = true) :
    ∃ lowered, lower (c :: rest) = c :: lowered := by
  obtain ⟨hI, hSigma, hlower⟩ :=
    forall_sign (P := fun c => c ≠ 'İ' ∧ c ≠ 'Σ' ∧ lowerChar c = c) (by decide) hc
  obtain ⟨lowered, hlowered⟩ := @lower_cons c rest hI hSigma
  exact ⟨lowered, by rw [hlowered, hlower]⟩

theorem contains_lower_of_isSign {c : Char} {rest : Text} (hc : isSign c = true) :
    ["next".toList, "last".toList].contains (lower (c :: rest)) = false ∧
      ["week".toList, "month".toList].contains (lower (c :: rest)) = false := by
  obtain ⟨lowered, hlower⟩ := @lower_of_isSign c rest hc
  have hheads : c ≠ 'n' ∧ c ≠ 'l' ∧ c ≠ 'w' ∧ c ≠ 'm' :=
    forall_sign (P := fun c => c ≠ 'n' ∧ c ≠ 'l' ∧ c ≠ 'w' ∧ c ≠ 'm') (by decide) hc
  rw [hlower]
  simp [hheads]

theorem Follows.cons (h : Follows marks s) (hne : trimStart s ≠ []) :
    ∃ c rest, trimStart s = c :: rest ∧ isSign c = true := by
  obtain ⟨c, rest, hcons⟩ := List.exists_cons_of_ne_nil hne
  obtain ⟨n, hn⟩ := h.mark.resolve_left hne
  refine ⟨c, rest, hcons, ?_⟩
  by_contra hno
  rw [hcons, marks_eq_none (by simpa using hno)] at hn
  cases hn

theorem trimStart_append (s t : Text) : trimStart (s ++ t) = if trimStart s = [] then
    trimStart t else trimStart s ++ t := by
  by_cases hempty : s.dropWhile isBlank = [] <;> simp [trimStart, List.dropWhile_append, hempty]

theorem afterKeyword?_append (h : Follows marks behind) :
    afterKeyword? (s ++ behind) = (afterKeyword? s).map (· ++ behind) := by
  have hspace : (!isBlank ' ') = false := by decide
  simp only [afterKeyword?, takeWhile_append_break (p := (!isBlank ·)) hspace h.isBreak,
    dropWhile_append_break (p := (!isBlank ·)) hspace h.isBreak, trimStart_append]
  by_cases hempty : trimStart (s.dropWhile (!isBlank ·)) = []
  · simp only [hempty, if_true]
    have hno : ["week".toList, "month".toList].contains
        (lower ((trimStart behind).takeWhile (!isBlank ·))) = false := by
      by_cases hbehind : trimStart behind = []
      · rw [hbehind]
        decide
      · obtain ⟨c, rest, hcons, hc⟩ := h.cons hbehind
        have hsolid : isBlank c = false :=
            forall_sign (P := fun c => isBlank c = false) (by decide) hc
        rw [hcons, List.takeWhile_cons_of_pos (by simp [hsolid])]
        exact (contains_lower_of_isSign hc).2
    have hnil : ["week".toList, "month".toList].contains
        (lower (([] : Text).takeWhile (!isBlank ·))) = false := by decide
    rw [hno, hnil, Bool.and_false]
    rfl
  · simp only [hempty, if_false, takeWhile_append_break (p := (!isBlank ·)) hspace h.isBreak,
      dropWhile_append_break (p := (!isBlank ·)) hspace h.isBreak]
    split <;> rfl

/-- A date or a word before a break stays what it is. -/
theorem dateWord_append (h : Follows marks behind) (hne : trimStart s ≠ []) :
    dateWord (s ++ behind) = ((dateWord s).1, (dateWord s).2 ++ behind) := by
  have hspace : (!isBlank ' ') = false := by decide
  simp only [dateWord, trimStart_append, hne, if_false, afterMoment?_append h, afterKeyword?_append h]
  have hor : ((afterMoment? (trimStart s)).map (· ++ behind)).or
      ((afterKeyword? (trimStart s)).map (· ++ behind)) =
      ((afterMoment? (trimStart s)).or (afterKeyword? (trimStart s))).map (· ++ behind) := by
    cases afterMoment? (trimStart s) <;> rfl
  rw [hor]
  cases (afterMoment? (trimStart s)).or (afterKeyword? (trimStart s)) with
  | none =>
    simp only [Option.map_none, takeWhile_append_break (p := (!isBlank ·)) hspace h.isBreak,
      dropWhile_append_break (p := (!isBlank ·)) hspace h.isBreak]
  | some after =>
    simp only [Option.map_some, List.length_append, Nat.add_sub_add_right]
    rw [List.take_append_of_le_length (Nat.sub_le _ _)]

theorem dateWord_of_blank (hblank : trimStart s = []) :
    dateWord (s ++ behind) = dateWord behind := by
  simp only [dateWord, trimStart_append, hblank, if_true]

/-- What stands behind a break begins no date: it is nothing, or a word that begins like a mark. -/
theorem dateWord_follows (h : Follows marks s) :
    (dateWord s).1 = [] ∨ ∃ c rest, (dateWord s).1 = c :: rest ∧ isSign c = true ∧ ∀ d ∈ c :: rest,
      isBlank d = false := by
  by_cases hempty : trimStart s = []
  · left
    simp only [dateWord, hempty]
    rfl
  · right
    obtain ⟨c, rest, hcons, hc⟩ := h.cons hempty
    have hsolid : isBlank c = false := forall_sign (P := fun c => isBlank c = false) (by decide) hc
    have hdecimal : isDecimal c = false :=
        forall_sign (P := fun c => isDecimal c = false) (by decide) hc
    have hmoment : afterMoment? (c :: rest) = none := by
      have hdigits : Date.digits? 4 (c :: rest) = none := by simp [Date.digits?, hdecimal]
      simp [afterMoment?, Date.scan?, hdigits]
    have hkeyword : afterKeyword? (c :: rest) = none := by
      have hfirst : (c :: rest).takeWhile (!isBlank ·) = c :: rest.takeWhile (!isBlank ·) :=
        List.takeWhile_cons_of_pos (by simp [hsolid])
      simp only [afterKeyword?, hfirst, (contains_lower_of_isSign hc).1, Bool.false_and,
        Bool.false_eq_true, if_false]
    have hword : (dateWord s).1 = c :: rest.takeWhile (!isBlank ·) := by
      simp only [dateWord, hcons, hmoment, hkeyword, Option.none_or]
      exact List.takeWhile_cons_of_pos (by simp [hsolid])
    refine ⟨c, _, hword, hc, fun d hd => ?_⟩
    rcases List.mem_cons.1 hd with rfl | hd
    · exact hsolid
    · simpa using forall_mem_takeWhile _ _ d hd

theorem resolve_of_isSign {today : Date} {c : Char} {rest : Text} (hc : isSign c = true)
    (hsolid : ∀ d ∈ c :: rest, isBlank d = false) :
    DateText.resolve today (c :: rest) = .ok none := by
  obtain ⟨lowered, hlower⟩ := @lower_of_isSign c rest hc
  obtain ⟨hhead, hdecimal⟩ :=
    forall_sign (P := fun c => DateText.isKeywordHead c = false ∧ isDecimal c = false) (by decide)
      hc
  have hkeyword := DateText.keyword?_eq_none hlower (hsolid c List.mem_cons_self) hhead
  have hmoment := @DateText.moment?_eq_none c rest hdecimal
  simp [DateText.resolve, (isTrimmed_of_forall (by simp) hsolid).trim_eq, DateText.relative,
    hkeyword, DateText.literal, hmoment, bind,
    Except.bind]

/-! ## Emoji that are no tokens -/

theorem field_of_lookup {symbol : Text} {field : Field}
    (h : (plainSymbols .standard).lookup symbol = some field) :
    field = .priority ∨ field = .recurrence ∨ ∃ kind, field = .date kind := by
  obtain ⟨before, after, hsplit, -⟩ := List.lookup_eq_some_iff.1 h
  have hmem : field ∈ defaultSymbols.map (·.2) := by
    rw [← plainSymbols_default, hsplit]
    simp
  have hall : ∀ field ∈ defaultSymbols.map (·.2),
      field = .priority ∨ field = .recurrence ∨
          field ∈ [.date .due, .date .start, .date .scheduled, .date .completed,
            .date .created] := by
    decide
  refine (hall field hmem).imp_right (Or.imp_right fun h => ?_)
  simp only [List.mem_cons, List.not_mem_nil, or_false] at h
  rcases h with rfl | rfl | rfl | rfl | rfl <;> exact ⟨_, rfl⟩

/-- The value makes no token of an emoji. -/
def IsVoid (today : Date) (field : Field) (value : Text) : Prop :=
  (value.isEmpty && field != .priority) = true ∨ isUndated today field value = .ok true

theorem judge_emoji_eq_none_iff {today : Date} {mark after symbol : Text} {field : Field}
    (hsymbol : symbol? (plainSymbols .standard) mark = some symbol)
    (hfield : (plainSymbols .standard).lookup symbol = some field) :
    (emoji .standard today).judge previous ⟨[], mark, after⟩ = .ok none ↔
      IsVoid today field
        (symbolValue (plainSymbols .standard) field symbol (lastOr previous mark) after).1 := by
  simp only [emoji, hsymbol, hfield, IsVoid]
  generalize symbolValue (plainSymbols .standard) field symbol (lastOr previous mark) after = found
  obtain ⟨value, rest⟩ := found
  by_cases hempty : (value.isEmpty && field != .priority) = true
  · simp [hempty, pure, Except.pure]
  · simp only [hempty, Bool.false_eq_true, if_false, false_or]
    cases isUndated today field value with
    | error failure => simp [bind, Except.bind]
    | ok undated => cases undated <;> simp [bind, Except.bind, pure, Except.pure]

theorem isVoid_append {today : Date} {field : Field} {symbol after : Text}
    (hfield : field = .priority ∨ field = .recurrence ∨ ∃ kind, field = .date kind)
    (h : Follows marks behind) (hapart : IsApart after behind)
    (hvoid : IsVoid today field (symbolValue (plainSymbols .standard) field symbol previous after).1) :
    IsVoid today field
      (symbolValue (plainSymbols .standard) field symbol previous (after ++ behind)).1 := by
  rcases hfield with rfl | rfl | ⟨kind, rfl⟩
  · simp [IsVoid, isUndated] at hvoid
  · have hempty : trim (phrase (plainSymbols .standard) previous after).1 = [] := by
      simpa [IsVoid, isUndated, symbolValue] using hvoid
    left
    have hvalue : trim (phrase (plainSymbols .standard) previous (after ++ behind)).1 = [] := by
      cases hlocate : locate? marks previous after with
      | none =>
        obtain ⟨spaces, hspaces, hphrase, -⟩ := phrase_append h hapart hlocate
        have hafter : (phrase (plainSymbols .standard) previous after).1 = after := by
          show (match locate? marks previous after with
            | some site => (site.before, site.mark ++ site.after)
            | none => (after, [])).1 = after
          rw [hlocate]
        rw [hafter, trim_eq_nil_iff] at hempty
        rw [hphrase, trim_eq_nil_iff]
        intro c hc
        rcases List.mem_append.1 hc with hc | hc
        · exact hempty c hc
        · rw [hspaces c hc]
          decide
      | some site =>
        have hsame : (phrase (plainSymbols .standard) previous (after ++ behind)).1 =
            (phrase (plainSymbols .standard) previous after).1 := by
          show (match locate? marks previous (after ++ behind) with
            | some site => (site.before, site.mark ++ site.after)
            | none => (after ++ behind, [])).1 = (match locate? marks previous after with
            | some site => (site.before, site.mark ++ site.after)
            | none => (after, [])).1
          rw [locate?_append h.isBreak hapart, hlocate]
        rw [hsame, hempty]
    simp [symbolValue, hvalue]
  · by_cases hblank : trimStart after = []
    · rcases dateWord_follows h with hempty | ⟨c, rest, hword, hc, hsolid⟩
      · left
        simp [symbolValue, dateWord_of_blank hblank, hempty]
      · right
        simp [symbolValue, dateWord_of_blank hblank, hword, isUndated,
          resolve_of_isSign hc hsolid, Except.map]
    · simpa only [symbolValue, dateWord_append h hblank] using hvoid

/-- An emoji that is no token stays none, whatever follows it behind a break. -/
theorem judge_emoji_append {today : Date} {mark after : Text} (h : Follows marks behind)
    (hapart : IsApart after behind)
    (hnone : (emoji .standard today).judge previous ⟨[], mark, after⟩ = .ok none) :
    (emoji .standard today).judge previous ⟨[], mark, after ++ behind⟩ = .ok none := by
  cases hsymbol : symbol? (plainSymbols .standard) mark with
  | none => simp only [emoji, hsymbol]
  | some symbol =>
    cases hfield : (plainSymbols .standard).lookup symbol with
    | none => simp only [emoji, hsymbol, hfield]
    | some field =>
      rw [judge_emoji_eq_none_iff hsymbol hfield] at hnone ⊢
      exact isVoid_append (field_of_lookup hfield) h hapart hnone

end Markup
end Checklist
